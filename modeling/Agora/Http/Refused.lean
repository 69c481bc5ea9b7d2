import Agora.Conn.Mute
import Agora.Http.KeepAlive

/-!
# A refused request line is the last word

Nothing records that `parseRequest` has returned false. The line stays in front of the input and is
refused again, and `send` takes nothing behind `shutdown`.
-/

open Agora.Lib Agora.Lib.Prog Agora.Spec

namespace Agora.HttpSession

/-- `parseRequest` returns false on what has arrived. -/
def Refuses (s : HttpSession) : Prop :=
  ∃ context, s.context = some context ∧ (context.parseRequest s.conn.inputBuffer).2.2 = false

/-- From `s` to `s'` the message callback has been called, and `parseRequest` has returned false in
it, on the context of `s` and on all bytes that `s` had not consumed. -/
def RefusedIn (s s' : HttpSession) : Prop :=
  s'.conn.heard = s.conn.heard + 1 ∧
    ∃ context buffer, s.context = some context ∧ s'.stream = s.consumed ++ WfBuffer.readable buffer ∧
      (context.parseRequest buffer).2.2 = false

/-- The context and the 400 response, as they belong to the state of the connection. -/
structure FinalInv (s : HttpSession) : Prop where
  messageCallback : s.conn.messageCallback = true
  fresh : s.conn.state = .kConnecting → s.context = none
  once : s.conn.accepts badRequest ≤ 1
  down : 0 < s.conn.accepts badRequest → s.conn.state ≠ .kConnecting ∧ s.conn.state ≠ .kConnected

/-- Nothing has been read since `s₀`. -/
structure Unheard (s₀ s : HttpSession) : Prop where
  context : s.context = s₀.context
  consumed : s.consumed = s₀.consumed
  dispatched : s.dispatched = s₀.dispatched
  inputBuffer : s.conn.inputBuffer = s₀.conn.inputBuffer
  heard : s.conn.heard = s₀.conn.heard

/-- `data` has been read and parsed since `s₀`. -/
structure Heard (s₀ s : HttpSession) (data : List Byte) : Prop where
  heard : s.conn.heard = s₀.conn.heard + 1
  stream : s.stream = s₀.stream ++ data
  final : ∀ context, s₀.context = some context →
    (parseBytes context (s₀.conn.inputBuffer.readable ++ data)).2.2 = false →
    s.Refuses ∧ s.dispatched = s₀.dispatched ∧ s.consumed = s₀.consumed

/-- One event of the connection. -/
def Segment (s₀ s : HttpSession) : Prop :=
  FinalInv s ∧ (s₀.context = none ∨ Unheard s₀ s ∨ ∃ data, Heard s₀ s data)

def finalContract (start : HttpSession) : Contract HttpSession HttpCall HttpAnswer Empty Fault where
  inv _ := True
  pre _ _ := True
  tolerates _ s := Segment start s
  allow _ _ _ := True

/-! ## The functions of the connection that do not read -/

theorem FinalInv.mute {s : HttpSession} (h : FinalInv s) {c : TcpConnection}
    (hc : TcpConnection.Mute s.conn c) : FinalInv (setConn c s) := by
  refine ⟨hc.messageCallback.trans h.messageCallback, fun hs => h.fresh (hc.connecting hs), ?_,
    fun hpos => ?_⟩
  · exact Nat.le_trans (Nat.le_of_eq (hc.accepts _)) h.once
  · obtain ⟨hconnecting, hconnected⟩ := h.down (Nat.lt_of_lt_of_eq hpos (hc.accepts _))
    exact ⟨fun hs => hconnecting (hc.connecting hs), fun hs => hconnected (hc.connected hs)⟩

theorem Unheard.mute {s₀ s : HttpSession} (h : Unheard s₀ s) {c : TcpConnection}
    (hc : TcpConnection.Mute s.conn c) : Unheard s₀ (setConn c s) :=
  ⟨h.context, h.consumed, h.dispatched, hc.inputBuffer.trans h.inputBuffer, hc.heard.trans h.heard⟩

theorem stream_mute {s : HttpSession} {c : TcpConnection} (hc : TcpConnection.Mute s.conn c) :
    (setConn c s).stream = s.stream := by
  unfold stream setConn
  rw [hc.inputBuffer]

theorem Refuses.mute {s : HttpSession} (h : s.Refuses) {c : TcpConnection}
    (hc : TcpConnection.Mute s.conn c) : (setConn c s).Refuses := by
  obtain ⟨context, hcontext, hrefused⟩ := h
  refine ⟨context, hcontext, ?_⟩
  have hinput : (setConn c s).conn.inputBuffer = s.conn.inputBuffer := hc.inputBuffer
  rw [hinput]
  exact hrefused

theorem Heard.mute {s₀ s : HttpSession} {data : List Byte} (h : Heard s₀ s data) {c : TcpConnection}
    (hc : TcpConnection.Mute s.conn c) : Heard s₀ (setConn c s) data := by
  refine ⟨hc.heard.trans h.heard, (stream_mute hc).trans h.stream, fun context hcontext hrefused => ?_⟩
  obtain ⟨hrefuses, hdispatched, hconsumed⟩ := h.final context hcontext hrefused
  exact ⟨hrefuses.mute hc, hdispatched, hconsumed⟩

theorem Segment.mute {s₀ s : HttpSession} (h : Segment s₀ s) {c : TcpConnection}
    (hc : TcpConnection.Mute s.conn c) : Segment s₀ (setConn c s) := by
  refine ⟨h.1.mute hc, ?_⟩
  rcases h.2 with hnone | hunheard | ⟨data, hheard⟩
  · exact .inl hnone
  · exact .inr (.inl (hunheard.mute hc))
  · exact .inr (.inr ⟨data, hheard.mute hc⟩)

/-- Callbacks that change nothing unless the connection is up. -/
def HandlesDown (handler : Callback → HttpM Unit) : Prop :=
  ∀ (C : Contract HttpSession HttpCall HttpAnswer Empty Fault) (s : HttpSession) (u : Callback),
    u ≠ .message → (u = .connection → s.conn.state ≠ .kConnected) → ∀ s₀,
      wp C (fun _ _ => True) (fun _ _ => True) (handler u) (fun _ s' _ => s' = s) s₀ s

theorem run_mute {start s s₀ : HttpSession} (asserts : Prop) {handler : Callback → HttpM Unit}
    (hhandler : HandlesDown handler) {α : Type} {p : ConnM α} {post : TcpConnection → Prop}
    (htolerates : asserts → ∀ c, TcpConnection.Mute s.conn c → Segment start (setConn c s))
    (hp : wp (TcpConnection.muteContract asserts s.conn) (fun _ _ => True) (fun _ _ => True) p
      (fun _ c _ => TcpConnection.Mute s.conn c ∧ post c) s.conn s.conn) :
    wp (finalContract start) (fun _ _ => True) (fun _ _ => True) ((connection handler).run p)
      (fun _ s' _ => ∃ c, s' = setConn c s ∧ TcpConnection.Mute s.conn c ∧ post c) s₀ s := by
  refine Embedding.wp_run (I := fun _ s' => ∃ c, s' = setConn c s) _ (connection_lawful handler)
    (fun _ _ _ _ => trivial) ?_ ?_ ?_ ⟨s.conn, rfl⟩ hp
  · rintro _ _ c e ⟨c₁, rfl⟩ ⟨ha, hc⟩
    exact htolerates ha c hc
  · rintro s₀ _ c u ⟨c₁, rfl⟩ hc - ⟨hm, hu⟩
    refine wp_mono (hhandler _ (setConn c s) u hm hu s₀) ?_
    rintro _ _ _ rfl
    exact ⟨⟨c, rfl⟩, hc, trivial⟩
  · rintro _ _ c _ ⟨c₁, rfl⟩ hc
    exact ⟨c, rfl, hc⟩

/-- A property of the session that no mute change disturbs. -/
def Unmoved (P : HttpSession → Prop) : Prop :=
  ∀ s c, P s → TcpConnection.Mute s.conn c → P (setConn c s)

theorem stable_mute {start : HttpSession} {P : HttpSession → Prop} (asserts : Prop)
    {handler : Callback → HttpM Unit} (hhandler : HandlesDown handler) (hmute : Unmoved P)
    (htolerates : asserts → ∀ s, P s → Segment start s) {α : Type} {p : ConnM α}
    (hp : ∀ c₀, TcpConnection.StaysMute asserts c₀ p) :
    Stable (finalContract start) (fun _ _ => True) (fun _ _ => True) (fun _ s => P s)
      ((connection handler).run p) := by
  intro s₀ s hs
  have hrun : wp (TcpConnection.muteContract asserts s.conn) (fun _ _ => True) (fun _ _ => True) p
      (fun _ c _ => TcpConnection.Mute s.conn c ∧ True) s.conn s.conn :=
    wp_mono (hp s.conn s.conn s.conn (.refl _)) fun _ _ _ h => ⟨h, trivial⟩
  refine wp_mono (run_mute asserts hhandler (fun ha c hc => htolerates ha _ (hmute s c hs hc)) hrun) ?_
  rintro _ _ _ ⟨c, rfl, hc, -⟩
  exact hmute s c hs hc

theorem handlesDown_handler : HandlesDown handler := fun _ => handler_down

theorem handlesDown_pure : HandlesDown fun _ => pure () := fun _ _ _ _ _ _ => rfl

/-! ## A message -/

/-- `data` has been read since `start`, and the message callback begins. -/
structure Arrived (start s : HttpSession) (data : List Byte) : Prop where
  context : s.context = start.context
  consumed : s.consumed = start.consumed
  dispatched : s.dispatched = start.dispatched
  input : s.conn.inputBuffer.readable = start.conn.inputBuffer.readable ++ data
  heard : s.conn.heard = start.conn.heard + 1

theorem Arrived.stream {start s : HttpSession} {data : List Byte} (h : Arrived start s data) :
    s.stream = start.stream ++ data := by
  unfold HttpSession.stream
  rw [h.consumed, h.input, List.append_assoc]

/-- The refused line has been answered, and `shutdown` is to come. -/
structure Closing (s : HttpSession) : Prop where
  messageCallback : s.conn.messageCallback = true
  fresh : s.conn.state = .kConnecting → s.context = none
  once : s.conn.accepts badRequest ≤ 1
  down : 0 < s.conn.accepts badRequest → s.conn.state ≠ .kConnecting

theorem FinalInv.closing {s : HttpSession} (h : FinalInv s) : Closing s :=
  ⟨h.messageCallback, h.fresh, h.once, fun hpos => (h.down hpos).1⟩

theorem FinalInv.unanswered {s : HttpSession} (h : FinalInv s) (hs : s.conn.state = .kConnected) :
    s.conn.accepts badRequest = 0 := by
  by_contra hpos
  exact (h.down (Nat.pos_of_ne_zero hpos)).2 hs

theorem Closing.mute {s : HttpSession} (h : Closing s) {c : TcpConnection}
    (hc : TcpConnection.Mute s.conn c) : Closing (setConn c s) := by
  refine ⟨hc.messageCallback.trans h.messageCallback, fun hs => h.fresh (hc.connecting hs), ?_,
    fun hpos hs => ?_⟩
  · exact Nat.le_trans (Nat.le_of_eq (hc.accepts _)) h.once
  · exact h.down (Nat.lt_of_lt_of_eq hpos (hc.accepts _)) (hc.connecting hs)

theorem Closing.final {s : HttpSession} (h : Closing s) (hs : s.conn.state ≠ .kConnected) : FinalInv s :=
  ⟨h.messageCallback, h.fresh, h.once, fun hpos => ⟨h.down hpos, hs⟩⟩

theorem accepts_snoc (payload : List Byte) (c : TcpConnection) (e : ConnEvent) :
    TcpConnection.accepts payload { c with trace := c.trace ++ [e] } =
      c.accepts payload + if e = .accepted payload then 1 else 0 := by
  unfold TcpConnection.accepts
  rw [List.count_append, List.count_singleton]
  simp

/-- The session once `payload` has been passed to `sendInLoop`. -/
def accept (payload : List Byte) (s : HttpSession) : HttpSession :=
  setConn { s.conn with trace := s.conn.trace ++ [.accepted payload] } s

theorem heard_accept (payload : List Byte) (s : HttpSession) :
    (accept payload s).conn.heard = s.conn.heard := by
  unfold accept TcpConnection.heard setConn
  dsimp only
  rw [List.count_append, List.count_singleton]
  simp

theorem Heard.accept {start s : HttpSession} {data : List Byte} (h : Heard start s data)
    (payload : List Byte) : Heard start (accept payload s) data := by
  refine ⟨(heard_accept payload s).trans h.heard, h.stream, fun context hcontext hrefused => ?_⟩
  exact h.final context hcontext hrefused

theorem send_wp {start s₀ s : HttpSession} {P : HttpSession → Prop} {payload : List Byte}
    (hmute : Unmoved P) (hup : s.conn.state = .kConnected → P (accept payload s))
    (hdown : s.conn.state ≠ .kConnected → P s) :
    wp (finalContract start) (fun _ _ => True) (fun _ _ => True)
      (onConn (TcpConnection.send payload)) (fun _ s' _ => P s') s₀ s := by
  have hrest : ∀ data, Stable (finalContract start) (fun _ _ => True) (fun _ _ => True)
      (fun _ s => P s) (onConn (TcpConnection.sendInLoop data)) := fun data =>
    stable_mute False handlesDown_pure hmute False.elim fun _ =>
      TcpConnection.mute_sendInLoop TcpConnection.mute_rule data
  unfold onConn at hrest ⊢
  unfold TcpConnection.send TcpConnection.emit
  simp only [Embedding.wp_run_bind, Embedding.wp_run_read, Embedding.wp_run_when,
    Embedding.wp_run_modify]
  split
  · rename_i hs
    exact hrest payload s₀ _ (hup (of_decide_eq_true hs))
  · rename_i hs
    exact hdown fun heq => hs (decide_eq_true heq)

theorem sendBuffer_wp {start s₀ s : HttpSession} {P : HttpSession → Prop} {buffer : WfBuffer}
    (hmute : Unmoved P) (hup : s.conn.state = .kConnected → P (accept buffer.readable s))
    (hdown : s.conn.state ≠ .kConnected → P s) :
    wp (finalContract start) (fun _ _ => True) (fun _ _ => True)
      (onConn (TcpConnection.sendBuffer buffer)) (fun _ s' _ => P s') s₀ s := by
  have hrest : ∀ data, Stable (finalContract start) (fun _ _ => True) (fun _ _ => True)
      (fun _ s => P s) (onConn (TcpConnection.sendInLoop data)) := fun data =>
    stable_mute False handlesDown_pure hmute False.elim fun _ =>
      TcpConnection.mute_sendInLoop TcpConnection.mute_rule data
  unfold onConn at hrest ⊢
  unfold TcpConnection.sendBuffer TcpConnection.emit
  simp only [Embedding.wp_run_bind, Embedding.wp_run_read, Embedding.wp_run_ite,
    Embedding.wp_run_modify, Embedding.wp_run_pure]
  split
  · rename_i hs
    exact hrest _ s₀ _ (hup hs)
  · rename_i hs
    exact hdown hs

theorem refuse_wp {start s₀ s : HttpSession} {data : List Byte} (h : FinalInv s)
    (hheard : Heard start s data) :
    wp (finalContract start) (fun _ _ => True) (fun _ _ => True) (do
      onConn (TcpConnection.send badRequest)
      onConn TcpConnection.shutdown)
      (fun _ s' _ => Segment start s') s₀ s := by
  have hunmoved : Unmoved fun s => Closing s ∧ Heard start s data :=
    fun s c h hc => ⟨h.1.mute hc, h.2.mute hc⟩
  rw [wp_bind]
  refine wp_mono (send_wp hunmoved (fun hs => ⟨?_, hheard.accept badRequest⟩)
    fun _ => ⟨h.closing, hheard⟩) fun s₀ s _ hs => ?_
  · have hcount : (accept badRequest s).conn.accepts badRequest = 1 := by
      unfold accept setConn
      dsimp only
      rw [accepts_snoc, h.unanswered hs]
      simp
    refine ⟨h.messageCallback, h.fresh, Nat.le_of_eq hcount, fun _ hconnecting => ?_⟩
    have hconnecting : s.conn.state = .kConnecting := hconnecting
    rw [hs] at hconnecting
    cases hconnecting
  · obtain ⟨hclosing, hheard⟩ := hs
    refine wp_mono (run_mute False handlesDown_pure False.elim
      (TcpConnection.mute_shutdown TcpConnection.mute_rule (.refl s.conn)
        fun _ => (TcpConnection.Mute.refl s.conn).setState nofun nofun)) ?_
    rintro _ _ _ ⟨c, rfl, hc, hdown⟩
    exact ⟨(hclosing.mute hc).final hdown, .inr (.inr ⟨data, hheard.mute hc⟩)⟩

/-! An ordinary response is longer than the 400 response. -/

theorem bytes_ne_badRequest (r : HttpResponse) : r.bytes ≠ badRequest := by
  intro heq
  have hlength := congrArg List.length heq
  have hbad : badRequest.length = 28 := by decide
  have hversion : HttpResponse.httpVersion.length = 8 := by decide
  have hcontent : HttpResponse.contentLength.length = 14 := by decide
  have hconnection : HttpResponse.connection.length = 10 := by decide
  rw [hbad] at hlength
  unfold HttpResponse.bytes at hlength
  simp only [List.length_append, hversion, hcontent, hconnection] at hlength
  omega

/-- A request has been completed, and is answered. -/
structure Answering (start s : HttpSession) (data : List Byte) : Prop where
  inv : FinalInv s
  current : s.context ≠ none
  heard : s.conn.heard = start.conn.heard + 1
  stream : s.stream = start.stream ++ data

theorem Answering.mute {start : HttpSession} {data : List Byte} :
    Unmoved fun s => Answering start s data := fun _ _ h hc =>
  ⟨h.inv.mute hc, h.current, hc.heard.trans h.heard, (stream_mute hc).trans h.stream⟩

theorem Answering.segment {start s : HttpSession} {data : List Byte} (h : Answering start s data)
    (hgood : ∀ context, start.context = some context →
      (parseBytes context (start.conn.inputBuffer.readable ++ data)).2.2 = true) : Segment start s := by
  refine ⟨h.inv, .inr (.inr ⟨data, h.heard, h.stream, fun context hcontext hrefused => ?_⟩)⟩
  rw [hgood context hcontext] at hrefused
  cases hrefused

theorem Answering.setContext {start s : HttpSession} {data : List Byte} (h : Answering start s data)
    (context : HttpContext) : Answering start { s with context := some context } data :=
  ⟨⟨h.inv.messageCallback, fun hs => absurd (h.inv.fresh hs) h.current, h.inv.once, h.inv.down⟩, nofun,
    h.heard, h.stream⟩

theorem answer_final {start s₀ s : HttpSession} {data : List Byte} (h : Answering start s data)
    (context : HttpContext) :
    wp (finalContract start) (fun _ _ => True) (fun _ _ => True) (answer context)
      (fun _ s' _ => Answering start s' data) s₀ s := by
  have hsend : ∀ response s₀ s, Answering start s data →
      wp (finalContract start) (fun _ _ => True) (fun _ _ => True)
        (onConn (TcpConnection.sendBuffer (HttpResponse.appendToBuffer response .new)))
        (fun _ s' _ => Answering start s' data) s₀ s := by
    intro response s₀ s h
    refine sendBuffer_wp Answering.mute (fun hs => ?_) fun _ => h
    have hother : ConnEvent.accepted (response.appendToBuffer .new).readable ≠ .accepted badRequest := by
      rw [HttpResponse.readable_appendToBuffer, WfBuffer.readable_new, List.nil_append]
      intro heq
      exact bytes_ne_badRequest response (ConnEvent.accepted.inj heq)
    have hcount : (accept (response.appendToBuffer .new).readable s).conn.accepts badRequest =
        s.conn.accepts badRequest := by
      unfold accept setConn
      dsimp only
      rw [accepts_snoc, if_neg hother, Nat.add_zero]
    refine ⟨⟨h.inv.messageCallback, h.inv.fresh, ?_, fun hpos => ?_⟩, h.current,
      (heard_accept _ s).trans h.heard, h.stream⟩
    · rw [hcount]
      exact h.inv.once
    · rw [hcount] at hpos
      exact h.inv.down hpos
  have hrespond : wp (finalContract start) (fun _ _ => True) (fun _ _ => True)
      (respond context.request) (fun _ s' _ => Answering start s' data) s₀ s := by
    have hpushed : Answering start
        { s with dispatched := s.dispatched ++ [(s.consumed.length, context.request)] } data :=
      ⟨⟨h.inv.messageCallback, h.inv.fresh, h.inv.once, h.inv.down⟩, h.current, h.heard, h.stream⟩
    unfold respond
    simp only [wp_bind, wp_read, wp_ite, wp_modify, wp_syscall, wp_pure]
    split
    · intro a _
      cases a
      · exact hpushed
      · exact hpushed
    · exact h
  unfold answer
  rw [wp_bind]
  refine wp_mono hrespond fun s₀ s response h => ?_
  rw [wp_bind]
  refine wp_mono (hsend response s₀ s h) fun s₀ s _ h => ?_
  rw [wp_ite]
  split
  · refine wp_mono (run_mute False handlesDown_pure False.elim
      (TcpConnection.mute_shutdown TcpConnection.mute_rule (.refl s.conn)
        fun _ => (TcpConnection.Mute.refl s.conn).setState nofun nofun)) ?_
    rintro _ _ _ ⟨c, rfl, hc, -⟩
    exact Answering.mute s c h hc
  · exact h.setContext _

/-- The callback answers 400, answers a request, or leaves an incomplete one. -/
theorem onMessage_final {start s₀ s : HttpSession} {data : List Byte} (h : FinalInv s)
    (harrived : Arrived start s data) :
    wp (finalContract start) (fun _ _ => True) (fun _ _ => True) onMessage
      (fun _ s' _ => Segment start s') s₀ s := by
  unfold onMessage
  rw [wp_bind, wp_read]
  cases hctx : s.context with
  | none => exact ⟨h, .inl (harrived.context ▸ hctx)⟩
  | some context =>
    obtain ⟨hleft, hunread, hok⟩ := parseRequest_eq context s.conn.inputBuffer
    rw [harrived.input] at hleft hunread hok
    have hcurrent : start.context = some context := harrived.context ▸ hctx
    have hconnecting : s.conn.state ≠ .kConnecting := by
      intro hs
      rw [h.fresh hs] at hctx
      cases hctx
    have hparsed : FinalInv (parse context s) :=
      ⟨h.messageCallback, fun hs => absurd hs hconnecting, h.once, h.down⟩
    have hstream := (parse_stream context s).trans harrived.stream
    rw [wp_bind, wp_modify]
    dsimp only
    rw [wp_bind, wp_when]
    cases hgood : (context.parseRequest s.conn.inputBuffer).2.2 with
    | false =>
      rw [hok] at hgood
      obtain ⟨-, hnothing, hagain⟩ := parseBytes_refused_again hgood []
      have hnone : (context.parseRequest s.conn.inputBuffer).1.gotAll = false := by
        rw [hleft]
        exact parseBytes_refused hgood
      have hrefuses : (parse context s).Refuses := by
        refine ⟨_, rfl, ?_⟩
        unfold parse
        dsimp only
        rw [(parseRequest_eq _ _).2.2, hleft, hunread, hnothing]
        exact hagain
      have hconsumed : (parse context s).consumed = s.consumed := by
        unfold parse
        dsimp only
        rw [hunread, hnothing, harrived.input, Nat.sub_self, List.take_zero, List.append_nil]
      have hheard : Heard start (parse context s) data :=
        ⟨harrived.heard, hstream, fun _ _ _ =>
          ⟨hrefuses, harrived.dispatched, hconsumed.trans harrived.consumed⟩⟩
      rw [if_pos (by decide), hnone]
      exact wp_mono (refuse_wp hparsed hheard) fun _ _ _ h => h
    | true =>
      have hanswering : Answering start (parse context s) data := ⟨hparsed, nofun, harrived.heard, hstream⟩
      have hall : ∀ context', start.context = some context' →
          (parseBytes context' (start.conn.inputBuffer.readable ++ data)).2.2 = true := by
        intro context' hcontext'
        obtain rfl := Option.some.inj (hcurrent.symm.trans hcontext')
        exact hok.symm.trans hgood
      rw [if_neg (by decide), wp_when]
      split
      · exact wp_mono (answer_final hanswering _) fun _ _ _ h => h.segment hall
      · exact hanswering.segment hall

/-! ## The events of the connection -/

/-- The session before anything has been read. -/
def Before (start s : HttpSession) : Prop := FinalInv s ∧ Unheard start s

theorem Before.segment {start s : HttpSession} (h : Before start s) : Segment start s :=
  ⟨h.1, .inr (.inl h.2)⟩

theorem unmoved_before (start : HttpSession) : Unmoved (Before start) :=
  fun _ _ h hc => ⟨h.1.mute hc, h.2.mute hc⟩

theorem unmoved_segment (start : HttpSession) : Unmoved (Segment start) := fun _ _ h hc => h.mute hc

/-- `data` is in the buffer, and the message callback is about to run. -/
def reading (data : List Byte) (s : HttpSession) : HttpSession :=
  setConn { s.conn with
    inputBuffer := s.conn.inputBuffer.readFd (some data)
    trace := s.conn.trace ++ [.messageCallback] } s

theorem reading_final {s : HttpSession} (h : FinalInv s) (data : List Byte) :
    FinalInv (reading data s) := by
  have hcount : (reading data s).conn.accepts badRequest = s.conn.accepts badRequest := by
    unfold reading setConn TcpConnection.accepts
    dsimp only
    rw [List.count_append, List.count_singleton, if_neg (by decide), Nat.add_zero]
  refine ⟨h.messageCallback, h.fresh, ?_, fun hpos => ?_⟩
  · rw [hcount]
    exact h.once
  · rw [hcount] at hpos
    exact h.down hpos

theorem reading_arrived {start s : HttpSession} (h : Unheard start s) (data : List Byte) :
    Arrived start (reading data s) data := by
  refine ⟨h.context, h.consumed, h.dispatched, ?_, ?_⟩
  · unfold reading setConn
    dsimp only
    rw [WfBuffer.readable_readFd, h.inputBuffer]
    rfl
  · unfold reading setConn TcpConnection.heard
    dsimp only
    rw [List.count_append, List.count_singleton, if_pos (by decide)]
    exact congrArg (· + 1) h.heard

theorem handleRead_final {start s₀ s : HttpSession} (h : Before start s) :
    wp (finalContract start) (fun _ _ => True) (fun _ _ => True) (onLoop TcpConnection.handleRead)
      (fun _ s' _ => Segment start s') s₀ s := by
  have herror : wp (finalContract start) (fun _ _ => True) (fun _ _ => True)
      (onLoop TcpConnection.handleError) (fun _ s' _ => Segment start s') s₀ s :=
    stable_mute False handlesDown_handler (unmoved_segment start) False.elim
      (fun _ => TcpConnection.mute_handleError) s₀ s h.segment
  have hclose : wp (finalContract start) (fun _ _ => True) (fun _ _ => True)
      (onLoop TcpConnection.handleClose) (fun _ s' _ => Segment start s') s₀ s :=
    stable_mute True handlesDown_handler (unmoved_segment start) (fun _ _ h => h)
      (fun _ => TcpConnection.mute_handleClose TcpConnection.mute_rule fun _ _ h => ⟨trivial, h⟩) s₀ s h.segment
  unfold onLoop at herror hclose ⊢
  unfold TcpConnection.handleRead TcpConnection.invokeMessageCallback TcpConnection.emit
  simp only [Embedding.wp_run_bind, Embedding.wp_run_read, Embedding.wp_run_syscall]
  intro a _
  rcases a with (_ | ⟨_ | ⟨b, data⟩⟩ | ⟨_ | _⟩) | _
  · exact herror
  · exact hclose
  · simp only [connection, HttpAnswer.sysResult, Embedding.wp_run_bind, Embedding.wp_run_modify,
      Embedding.wp_run_read, Embedding.wp_run_when, Embedding.wp_run_callback]
    obtain ⟨hinv, hbefore⟩ := h
    split
    · exact onMessage_final (reading_final hinv _) (reading_arrived hbefore _)
    · rename_i hset
      exact absurd hinv.messageCallback hset
  · exact h.segment
  · exact herror
  · exact herror

theorem handleEvent_final {start s₀ s : HttpSession} (h : Before start s) :
    wp (finalContract start) (fun _ _ => True) (fun _ _ => True) (onLoop TcpConnection.handleEvent)
      (fun _ s' _ => Segment start s') s₀ s := by
  have hclose : Stable (finalContract start) (fun _ _ => True) (fun _ _ => True)
      (fun _ s => Before start s) (onLoop TcpConnection.handleClose) :=
    stable_mute True handlesDown_handler (unmoved_before start) (fun _ _ h => h.segment)
      fun _ => TcpConnection.mute_handleClose TcpConnection.mute_rule fun _ _ h => ⟨trivial, h⟩
  have herror : Stable (finalContract start) (fun _ _ => True) (fun _ _ => True)
      (fun _ s => Before start s) (onLoop TcpConnection.handleError) :=
    stable_mute False handlesDown_handler (unmoved_before start) False.elim
      fun _ => TcpConnection.mute_handleError
  have hwrite : Stable (finalContract start) (fun _ _ => True) (fun _ _ => True)
      (fun _ s => Segment start s) (onLoop TcpConnection.handleWrite) :=
    stable_mute False handlesDown_handler (unmoved_segment start) False.elim
      fun _ => TcpConnection.mute_handleWrite TcpConnection.mute_rule
  have hread := @handleRead_final start
  unfold onLoop at hclose herror hread hwrite ⊢
  unfold TcpConnection.handleEvent
  rw [Embedding.wp_run_bind, Embedding.wp_run_read, Embedding.wp_run_bind]
  refine wp_mono (Embedding.stable_when hclose s₀ s h) fun s₀ s _ h => ?_
  rw [Embedding.wp_run_bind, Embedding.wp_run_read, Embedding.wp_run_bind]
  refine wp_mono (Embedding.stable_when herror s₀ s h) fun s₀ s _ h => ?_
  rw [Embedding.wp_run_bind, Embedding.wp_run_read, Embedding.wp_run_bind, Embedding.wp_run_when]
  split
  · refine wp_mono (hread h) fun s₀ s _ h => ?_
    exact Embedding.stable_bind Embedding.stable_read (fun _ => Embedding.stable_when hwrite) s₀ s h
  · exact Embedding.stable_bind Embedding.stable_read (fun _ => Embedding.stable_when hwrite) s₀ s
      h.segment

/-- A new connection has no context yet, so nothing can have been refused on it. -/
theorem connectEstablished_final {start s₀ s : HttpSession} (h : Before start s)
    (hs : s.conn.state = .kConnecting) :
    wp (finalContract start) (fun _ _ => True) (fun _ _ => True)
      (onLoop TcpConnection.connectEstablished) (fun _ s' _ => Segment start s') s₀ s := by
  obtain ⟨hinv, hbefore⟩ := h
  have hnone : start.context = none := hbefore.context.symm.trans (hinv.fresh hs)
  have hzero : s.conn.accepts badRequest = 0 := by
    by_contra hpos
    exact (hinv.down (Nat.pos_of_ne_zero hpos)).1 hs
  have hup : ∀ s' : HttpSession, s'.conn.state = .kConnected →
      s'.conn.messageCallback = s.conn.messageCallback →
      s'.conn.accepts badRequest = s.conn.accepts badRequest → Segment start s' := by
    intro s' hs' hmessage haccepts
    refine ⟨⟨hmessage.trans hinv.messageCallback, fun hconnecting => ?_, ?_, fun hpos => ?_⟩,
      .inl hnone⟩
    · rw [hs'] at hconnecting
      cases hconnecting
    · rw [haccepts]
      exact hinv.once
    · rw [haccepts, hzero] at hpos
      cases hpos
  unfold onLoop TcpConnection.connectEstablished TcpConnection.setState TcpConnection.setChannel
    TcpConnection.invokeConnectionCallback TcpConnection.emit
  simp only [Embedding.wp_run_bind, Embedding.wp_run_read, Embedding.wp_run_assert,
    Embedding.wp_run_modify, Embedding.wp_run_when]
  simp only [connection, setConn, hs, decide_true, if_true]
  split
  · refine hup _ rfl rfl ?_
    unfold TcpConnection.accepts
    dsimp only
    rw [List.count_append, List.count_singleton, if_neg (by decide), Nat.add_zero]
  · exact hup _ rfl rfl rfl

theorem entry_final {label : HttpLabel} {s : HttpSession} {p : HttpM Unit} (hp : entry label s = some p)
    (h : FinalInv s) :
    wp (finalContract s) (fun _ _ => True) (fun _ _ => True) p (fun _ s' _ => Segment s s') s s := by
  have hbefore : Before s s := ⟨h, rfl, rfl, rfl, rfl, rfl⟩
  cases label with
  | connectEstablished =>
    unfold entry at hp
    obtain ⟨hs, hp⟩ := Option.ite_none_right_eq_some.mp hp
    obtain rfl := Option.some.inj hp
    exact connectEstablished_final hbefore hs
  | event revents =>
    unfold entry at hp
    obtain ⟨-, hp⟩ := Option.ite_none_right_eq_some.mp hp
    obtain rfl := Option.some.inj hp
    have hevent := @handleEvent_final s s
    unfold onLoop at hevent ⊢
    unfold TcpConnection.entry
    rw [Embedding.wp_run_bind, Embedding.wp_run_modify]
    exact hevent (unmoved_before s s _ hbefore ((TcpConnection.Mute.refl s.conn).of_eq rfl rfl rfl rfl))
  | connectDestroyed =>
    obtain rfl := Option.some.inj hp
    refine wp_mono (stable_mute False handlesDown_handler (unmoved_before s) False.elim
      (fun _ => TcpConnection.mute_connectDestroyed TcpConnection.mute_rule) s s hbefore) ?_
    exact fun _ _ _ h => h.segment

/-! ## Runs -/

/-- Between two events. -/
def Steady (c : Config Unit HttpSession HttpCall HttpAnswer Empty Fault) : Prop :=
  FinalInv c.st ∧ c.frames () = []

theorem step_segment {c c' : Config Unit HttpSession HttpCall HttpAnswer Empty Fault}
    {a : Action Unit HttpAnswer HttpLabel} (h : Steady c) (hs : machine.step c a = some c') :
    Segment c.st c'.st ∧ c'.frames () = [] := by
  obtain ⟨hinv, hidle⟩ := h
  cases a with
  | start label answers =>
    obtain ⟨p, stop, hp, he, rfl⟩ := machine.step_start hs
    have hstop := exec_sound (fun _ _ _ _ _ => trivial) (entry_final hp hinv)
      (Machine.meets_anyStep_prog p c.st answers) he
    have hidle : c.frames (machine.thread label) = [] := hidle
    cases stop with
    | done s a => exact ⟨hstop, by simpa [Machine.settle] using hidle⟩
    | called s u k => cases u
    | faulted s e => exact ⟨hstop, by simpa [Machine.settle] using hidle⟩
  | resume t answers =>
    obtain ⟨u, k, rest, stop, hframes, -⟩ := machine.step_resume hs
    rw [show c.frames t = [] from hidle] at hframes
    cases hframes

theorem steady_step {c c' : Config Unit HttpSession HttpCall HttpAnswer Empty Fault}
    {a : Action Unit HttpAnswer HttpLabel} (h : Steady c) (hs : machine.step c a = some c') :
    Steady c' :=
  ⟨(step_segment h hs).1.1, (step_segment h hs).2⟩

theorem steady_of_reachable {c : Config Unit HttpSession HttpCall HttpAnswer Empty Fault}
    (h : machine.Reachable c) : Steady c := by
  refine System.Reach.invariant ?_ ?_ h
  · rintro c ⟨s, ⟨fd, httpCallback, rfl⟩, rfl⟩
    exact ⟨⟨rfl, fun _ => rfl, Nat.zero_le 1, fun hpos => absurd hpos (Nat.lt_irrefl 0)⟩, rfl⟩
  · intro c a c' h _ hs
    exact @steady_step c c' a h hs

theorem Segment.refusedIn {s s' : HttpSession} (h : Segment s s') (hrefused : RefusedIn s s') :
    s'.Refuses ∧ s'.dispatched = s.dispatched ∧ s'.consumed = s.consumed := by
  obtain ⟨hheard, context, buffer, hcontext, hstream, hfalse⟩ := hrefused
  obtain ⟨-, hnone | hunheard | ⟨data, h⟩⟩ := h
  · rw [hnone] at hcontext
    cases hcontext
  · have hsame := hunheard.heard
    omega
  · have hreadable : buffer.readable = s.conn.inputBuffer.readable ++ data := by
      rw [h.stream] at hstream
      unfold stream at hstream
      rw [List.append_assoc] at hstream
      exact (List.append_cancel_left hstream).symm
    refine h.final context hcontext ?_
    rw [← hreadable, ← (parseRequest_eq context buffer).2.2]
    exact hfalse

theorem Segment.refuses {s s' : HttpSession} (h : Segment s s') (hrefuses : s.Refuses) :
    s'.Refuses ∧ s'.dispatched = s.dispatched ∧ s'.consumed = s.consumed := by
  obtain ⟨context, hcontext, hfalse⟩ := hrefuses
  obtain ⟨-, hnone | hunheard | ⟨data, h⟩⟩ := h
  · rw [hnone] at hcontext
    cases hcontext
  · refine ⟨⟨context, hunheard.context.trans hcontext, ?_⟩, hunheard.dispatched, hunheard.consumed⟩
    rw [hunheard.inputBuffer]
    exact hfalse
  · refine h.final context hcontext ?_
    rw [(parseRequest_eq context s.conn.inputBuffer).2.2] at hfalse
    exact (parseBytes_refused_again hfalse data).1

/-- **A refused request line is final**: the line waits in front of the input, no later step of any run
calls `httpCallback_` or consumes a byte, and the 400 response is sent at most once. -/
theorem refused_is_final {c : Config Unit HttpSession HttpCall HttpAnswer Empty Fault}
    (h : machine.Reachable c) :
    (∀ a c', machine.step c a = some c' → RefusedIn c.st c'.st →
      c'.st.Refuses ∧ c'.st.dispatched = c.st.dispatched ∧ c'.st.consumed = c.st.consumed) ∧
    (c.st.Refuses → ∀ c', machine.system.Leads (fun _ _ => True) c c' →
      c'.st.dispatched = c.st.dispatched ∧ c'.st.consumed = c.st.consumed) ∧
    c.st.conn.trace.count (.accepted badRequest) ≤ 1 := by
  have hsteady := steady_of_reachable h
  refine ⟨fun a c' hs hrefused => (step_segment hsteady hs).1.refusedIn hrefused, ?_, hsteady.1.once⟩
  intro hrefuses c' hleads
  have hinv : Steady c' ∧ c'.st.Refuses ∧ c'.st.dispatched = c.st.dispatched ∧
      c'.st.consumed = c.st.consumed := by
    refine System.Leads.invariant (I := fun c' => Steady c' ∧ c'.st.Refuses ∧
      c'.st.dispatched = c.st.dispatched ∧ c'.st.consumed = c.st.consumed) ?_ hleads
      ⟨hsteady, hrefuses, rfl, rfl⟩
    rintro c₁ a c₂ ⟨hsteady, hrefuses, hdispatched, hconsumed⟩ - hs
    have hs : machine.step c₁ a = some c₂ := hs
    obtain ⟨hrefuses', hd, hk⟩ := (step_segment hsteady hs).1.refuses hrefuses
    exact ⟨steady_step hsteady hs, hrefuses', hd.trans hdispatched, hk.trans hconsumed⟩
  exact hinv.2.2

/-- `BAD` is refused, and so is the request that arrives behind it. -/
theorem refused_is_final_bad :
    ∃ c c', machine.system.run (fun _ _ => True) (.initial (new 3 true))
        [.start .connectEstablished [], .start (.event kReadEvent)
          [.sys (.bytes (ascii ['B', 'A', 'D', '\r', '\n'])), .sys (.count 28)]] = some c ∧
      c.st.Refuses ∧
      machine.system.run (fun _ _ => True) c [.start (.event kReadEvent) [.sys (.bytes getRoot)]] =
        some c' ∧
      c'.st.dispatched = c.st.dispatched ∧ c'.st.consumed = c.st.consumed := by
  have hrun : ((machine.system.run (fun _ _ => True) (.initial (new 3 true))
      [.start .connectEstablished [], .start (.event kReadEvent)
        [.sys (.bytes (ascii ['B', 'A', 'D', '\r', '\n'])), .sys (.count 28)]]).map
      fun c => (c.st.context.any fun context => !(context.parseRequest c.st.conn.inputBuffer).2.2,
        (machine.system.run (fun _ _ => True) c
          [.start (.event kReadEvent) [.sys (.bytes getRoot)]]).isSome)) =
      some (true, true) := by decide +kernel
  obtain ⟨c, hc, hfields⟩ := Option.map_eq_some_iff.mp hrun
  obtain ⟨hrefused, hmore⟩ := Prod.mk.inj hfields
  obtain ⟨c', hc'⟩ := Option.isSome_iff_exists.mp hmore
  have hrefuses : c.st.Refuses := by
    obtain ⟨context, hcontext, hfalse⟩ := (Option.any_eq_true _ _).mp hrefused
    exact ⟨context, hcontext, by simpa using hfalse⟩
  have hfinal := refused_is_final (machine.reachable_of_run ⟨3, true, rfl⟩ hc)
  exact ⟨c, c', hc, hrefuses, hc', hfinal.2.1 hrefuses c' (System.leads_of_run hc')⟩

end Agora.HttpSession
