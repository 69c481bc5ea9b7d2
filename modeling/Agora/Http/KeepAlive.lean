import Agora.Conn.Input
import Agora.Http.Dispatch
import Agora.Spec.HttpStream

/-! # Whether a request that has arrived is dispatched -/

open Agora.Lib Agora.Lib.Prog Agora.Spec

namespace Agora.HttpSession

/-- A connection of a server with an `httpCallback_`. -/
def servedMachine : Machine Unit HttpSession HttpCall HttpAnswer Empty Fault HttpLabel :=
  { machine with init := fun s => ∃ fd, s = new fd true }

/-- Each complete request of the stream has been dispatched, in order, and none waits in the buffer. -/
structure NotStranded (s : HttpSession) : Prop where
  dispatched : s.dispatched.map Prod.snd = requests s.stream
  waiting : ∀ context, s.context = some context →
    (context.parseRequest s.conn.inputBuffer).1.gotAll = false

/-- The callback keeps the connection alive, the stream is well formed, and no `readv` completes more
than one request. -/
def OneAtATime : Machine.Condition HttpSession HttpCall HttpAnswer HttpLabel where
  label _ _ := True
  answer s
    | .sys (.readv _), .sys (.bytes data) => WellFormed (s.stream ++ data) ∧
        (requests (s.stream ++ data)).length ≤ (requests s.stream).length + 1
    | .httpCallback _, .response response => response.closeConnection = false
    | _, _ => True

instance : ∀ s q a, Decidable (OneAtATime.answer s q a)
  | s, .sys (.readv _), .sys (.bytes data) =>
    inferInstanceAs (Decidable (WellFormed (s.stream ++ data) ∧
      (requests (s.stream ++ data)).length ≤ (requests s.stream).length + 1))
  | _, .httpCallback _, .response response =>
    inferInstanceAs (Decidable (response.closeConnection = false))
  | _, .sys (.readv _), .sys (.count _) | _, .sys (.readv _), .sys (.error _)
  | _, .sys (.readv _), .response _ | _, .sys (.write _), _ | _, .sys .getSocketError, _
  | _, .httpCallback _, .sys _ => isTrue trivial

instance (s : HttpSession) (label : HttpLabel) : Decidable (OneAtATime.label s label) :=
  isTrue trivial

/-! ## The invariant -/

/-- The dispatched requests and the context are those of the stream, once what waits is parsed. -/
structure Tracked (s : HttpSession) (context : HttpContext) : Prop where
  parsed : parseStream s.stream =
    (s.dispatched.map Prod.snd, parseBytes context s.conn.inputBuffer.readable)
  wellFormed : WellFormed s.stream

structure KeepInv (s : HttpSession) : Prop where
  httpCallback : s.httpCallback = true
  connectionCallback : s.conn.connectionCallback = true
  messageCallback : s.conn.messageCallback = true
  fresh : s.context = none → s.conn.state = .kConnecting ∧ s.conn.channel.index = .kNew ∧
    s.stream = [] ∧ s.dispatched = []
  established : s.context ≠ none → s.conn.state ≠ .kConnecting
  tracked : ∀ context, s.context = some context → Tracked s context

def keepContract : Contract HttpSession HttpCall HttpAnswer Empty Fault where
  inv := KeepInv
  pre _ _ := True
  tolerates _ := KeepInv
  allow s q a := q.valid a = true ∧ OneAtATime.answer s q a

theorem parseRequest_eq (context : HttpContext) (buffer : WfBuffer) :
    (context.parseRequest buffer).1 = (parseBytes context buffer.readable).1 ∧
    (context.parseRequest buffer).2.1.readable = (parseBytes context buffer.readable).2.1 ∧
    (context.parseRequest buffer).2.2 = (parseBytes context buffer.readable).2.2 := by
  rw [← HttpContext.parseRequest_bytes]
  exact ⟨rfl, rfl, rfl⟩

theorem KeepInv.notStranded {s : HttpSession} (h : KeepInv s) : NotStranded s := by
  cases hctx : s.context with
  | none =>
    obtain ⟨-, -, hstream, hdispatched⟩ := h.fresh hctx
    refine ⟨?_, fun context hc => ?_⟩
    · rw [hstream, hdispatched]
      rfl
    · rw [hctx] at hc
      cases hc
  | some context =>
    have htracked := h.tracked context hctx
    refine ⟨?_, fun context' hc => ?_⟩
    · rw [requests, htracked.parsed]
    · obtain rfl := Option.some.inj (hctx.symm.trans hc)
      have hrest := parseStream_rest s.stream
      rw [htracked.parsed] at hrest
      rw [(parseRequest_eq _ _).1]
      exact hrest

theorem KeepInv.setConn {s : HttpSession} {c : TcpConnection} (h : KeepInv s)
    (hctx : s.context ≠ none) (hc : TcpConnection.SameInput s.conn.inputBuffer c) :
    KeepInv (setConn c s) := by
  refine ⟨h.httpCallback, hc.connectionCallback, hc.messageCallback, fun hn => absurd hn hctx,
    fun _ => hc.established, fun context hcontext => ?_⟩
  have htracked := h.tracked context hcontext
  have hstream : (HttpSession.setConn c s).stream = s.stream := by
    unfold stream HttpSession.setConn
    rw [hc.inputBuffer]
  refine ⟨?_, ?_⟩
  · rw [hstream, htracked.parsed]
    show _ = (_, parseBytes context c.inputBuffer.readable)
    rw [hc.inputBuffer]
    rfl
  · rw [hstream]
    exact htracked.wellFormed

/-! ## The functions of the connection that do not read -/

/-- The session `s₁`, with a connection whose input is the same. -/
def Frame (s₁ s : HttpSession) : Prop :=
  ∃ c, s = setConn c s₁ ∧ TcpConnection.SameInput s₁.conn.inputBuffer c

theorem frame_run {α : Type} {p : ConnM α} {asserts : Prop} {handler : Callback → HttpM Unit}
    (hp : ∀ buffer, Keeps (TcpConnection.inputContract buffer asserts) p)
    (hhandler : ∀ (s : HttpSession) (u : Callback), u ≠ .message →
      (u = .connection → s.conn.state ≠ .kConnected) → ∀ s₀,
      wp keepContract (fun _ _ => True) (fun _ _ => True) (handler u) (fun _ s' _ => s' = s) s₀ s)
    {s : HttpSession} (hs : TcpConnection.SameInput s.conn.inputBuffer s.conn)
    (hasserts : asserts → KeepInv s ∧ s.context ≠ none) (s₀ : HttpSession) :
    wp keepContract (fun _ _ => True) (fun _ _ => True) ((connection handler).run p)
      (fun _ s' _ => Frame s s') s₀ s := by
  have hkeeps := hp _ s.conn s.conn hs
  refine Embedding.wp_run (I := fun _ s' => Frame s s') _ (connection_lawful handler)
    (fun _ _ _ _ => trivial) ?_ ?_ ?_ ⟨s.conn, rfl, hs⟩ hkeeps
  · rintro _ _ c e ⟨c₁, rfl, -⟩ ⟨ha, hc⟩
    exact (hasserts ha).1.setConn (hasserts ha).2 hc
  · rintro s₀ _ c u ⟨c₁, rfl, -⟩ hc - ⟨hm, hu⟩
    refine wp_mono (hhandler (setConn c s) u hm hu s₀) ?_
    rintro _ _ _ rfl
    exact ⟨⟨c, rfl, hc⟩, hc, trivial⟩
  · rintro _ _ c _ ⟨c₁, rfl, -⟩ hc
    exact ⟨c, rfl, hc⟩

theorem KeepInv.sameInput {s : HttpSession} (h : KeepInv s) (hctx : s.context ≠ none) :
    TcpConnection.SameInput s.conn.inputBuffer s.conn :=
  ⟨rfl, h.established hctx, h.connectionCallback, h.messageCallback⟩

theorem handler_down {C : Contract HttpSession HttpCall HttpAnswer Empty Fault} (s : HttpSession)
    (u : Callback) (hm : u ≠ .message) (hu : u = .connection → s.conn.state ≠ .kConnected)
    (s₀ : HttpSession) :
    wp C (fun _ _ => True) (fun _ _ => True) (handler u) (fun _ s' _ => s' = s) s₀ s := by
  cases u with
  | message => exact absurd rfl hm
  | connection =>
    have hdown := hu rfl
    unfold handler onConnection
    rw [wp_bind, wp_read, wp_when]
    simp [hdown]
  | close => exact rfl
  | writeComplete => exact rfl

/-- Between the calls of an established connection. -/
def Live (s : HttpSession) : Prop := KeepInv s ∧ s.context ≠ none

abbrev KeepsLive (p : HttpM Unit) : Prop :=
  Stable keepContract (fun _ _ => True) (fun _ _ => True) (fun _ s => Live s) p

theorem live_run {p : ConnM Unit}
    (hp : ∀ buffer, Keeps (TcpConnection.inputContract buffer True) p) : KeepsLive (onLoop p) := by
  intro s₀ s ⟨h, hctx⟩
  refine wp_mono (frame_run hp handler_down (h.sameInput hctx) (fun _ => ⟨h, hctx⟩) s₀) ?_
  rintro _ _ _ ⟨c, rfl, hc⟩
  exact ⟨h.setConn hctx hc, hctx⟩

/-! ## A message -/

/-- Bytes have been read, and are not parsed yet. -/
structure Unparsed (s : HttpSession) (context : HttpContext) : Prop where
  httpCallback : s.httpCallback = true
  input : TcpConnection.SameInput s.conn.inputBuffer s.conn
  current : s.context = some context
  wellFormed : WellFormed s.stream
  parsed : parseStream s.stream =
    let r := parseBytes context s.conn.inputBuffer.readable
    if r.1.gotAll then
      (s.dispatched.map Prod.snd ++ r.1.request :: requests r.2.1, (parseStream r.2.1).2)
    else (s.dispatched.map Prod.snd, r)
  one : (requests s.stream).length ≤ s.dispatched.length + 1

theorem parse_stream (context : HttpContext) (s : HttpSession) :
    (parse context s).stream = s.stream := by
  obtain ⟨-, hrest, -⟩ := parseRequest_eq context s.conn.inputBuffer
  have hsuffix := parseBytes_suffix context s.conn.inputBuffer.readable
  rw [← hrest] at hsuffix
  obtain ⟨front, hfront⟩ := hsuffix
  unfold stream parse
  simp only
  rw [← hfront, List.append_assoc]
  simp

theorem requests_nil {l : List Byte} (h : requests l = []) : parseStream l = ([], parseBytes .new l) := by
  refine parseStream_out ?_
  by_contra hgot
  rw [requests, parseStream_again (eq_true_of_ne_false hgot)] at h
  cases h

theorem Unparsed.accepted {s : HttpSession} {context : HttpContext} (h : Unparsed s context) :
    (parseBytes context s.conn.inputBuffer.readable).2.2 = true := by
  by_contra hbad
  have hbad := eq_false_of_ne_true hbad
  have hnone := parseBytes_refused hbad
  have hparsed := h.parsed
  simp only [hnone, Bool.false_eq_true, if_false] at hparsed
  have hgood := h.wellFormed
  unfold WellFormed at hgood
  rw [hparsed] at hgood
  exact Bool.noConfusion (hgood.symm.trans hbad)

theorem Unparsed.incomplete {s : HttpSession} {context : HttpContext} (h : Unparsed s context)
    (hnone : (parseBytes context s.conn.inputBuffer.readable).1.gotAll = false) :
    Live (parse context s) := by
  obtain ⟨hctx, hrest, -⟩ := parseRequest_eq context s.conn.inputBuffer
  have hparsed := h.parsed
  simp only [hnone, Bool.false_eq_true, if_false] at hparsed
  refine ⟨⟨h.httpCallback, h.input.connectionCallback, h.input.messageCallback, nofun,
    fun _ => h.input.established, fun context' hcontext => ?_⟩, nofun⟩
  obtain rfl := Option.some.inj hcontext
  refine ⟨?_, by rw [parse_stream]; exact h.wellFormed⟩
  rw [parse_stream, hparsed]
  show _ = (_, parseBytes (context.parseRequest s.conn.inputBuffer).1
    (context.parseRequest s.conn.inputBuffer).2.1.readable)
  rw [hctx, hrest, parseBytes_again]
  rfl

/-- The session once the request is handed to the callback. -/
def dispatch (request : HttpRequest) (s : HttpSession) : HttpSession :=
  { s with dispatched := s.dispatched ++ [(s.consumed.length, request)] }

theorem Unparsed.complete {s s' : HttpSession} {context : HttpContext} (h : Unparsed s context)
    (hgot : (parseBytes context s.conn.inputBuffer.readable).1.gotAll = true)
    (hs : Frame (dispatch (context.parseRequest s.conn.inputBuffer).1.request (parse context s)) s') :
    Live { s' with context := some HttpContext.new } := by
  obtain ⟨hctx, hrest, -⟩ := parseRequest_eq context s.conn.inputBuffer
  obtain ⟨c, rfl, hc⟩ := hs
  have hparsed := h.parsed
  simp only [hgot, if_true] at hparsed
  have hone := h.one
  rw [requests, hparsed] at hone
  have hlast : requests (parseBytes context s.conn.inputBuffer.readable).2.1 = [] := by
    rw [← List.length_eq_zero_iff]
    simp only [List.length_append, List.length_map, List.length_cons] at hone
    omega
  have hstream : ∀ ctx : Option HttpContext, HttpSession.stream
      { setConn c (dispatch (context.parseRequest s.conn.inputBuffer).1.request (parse context s)) with
        context := ctx } = s.stream := by
    intro ctx
    rw [← parse_stream context s]
    unfold stream setConn dispatch
    rw [hc.inputBuffer]
    rfl
  refine ⟨⟨h.httpCallback, hc.connectionCallback, hc.messageCallback, by simp, fun _ => hc.established,
    fun context' hcontext => ?_⟩, by simp⟩
  obtain rfl := Option.some.inj hcontext
  refine ⟨?_, by rw [hstream]; exact h.wellFormed⟩
  rw [hstream, hparsed, hlast, requests_nil hlast]
  show _ = (((parse context s).dispatched ++ [(_, _)]).map Prod.snd, parseBytes .new c.inputBuffer.readable)
  have hbuffer : c.inputBuffer.readable = (parseBytes context s.conn.inputBuffer.readable).2.1 := by
    rw [hc.inputBuffer, ← hrest]
    rfl
  rw [hbuffer, ← hctx, List.map_append]
  rfl

theorem onMessage_keeps {s₀ s : HttpSession} {context : HttpContext} (h : Unparsed s context) :
    wp keepContract (fun _ _ => True) (fun _ _ => True) onMessage (fun _ s _ => Live s) s₀ s := by
  obtain ⟨hctx, -, hok⟩ := parseRequest_eq context s.conn.inputBuffer
  have haccepted := hok.trans h.accepted
  unfold onMessage
  rw [wp_bind, wp_read, h.current]
  simp only [wp_bind, wp_modify, wp_when, haccepted, Bool.not_true, Bool.false_eq_true, if_false]
  split
  · rename_i hgot
    have hcallback : (parse context s).httpCallback = true := h.httpCallback
    have hinput : TcpConnection.SameInput (context.parseRequest s.conn.inputBuffer).2.1
        (parse context s).conn :=
      ⟨rfl, h.input.established, h.input.connectionCallback, h.input.messageCallback⟩
    unfold answer respond
    simp only [wp_bind, wp_read, wp_ite, wp_modify, wp_syscall]
    rw [if_pos hcallback]
    rintro a ⟨hvalid, hopen⟩
    cases a with
    | sys r => cases hvalid
    | response response =>
      have hopen : response.closeConnection = false := hopen
      rw [wp_pure]
      have hnothing : ∀ (s : HttpSession) (u : Callback), u ≠ .message →
          (u = .connection → s.conn.state ≠ .kConnected) → ∀ s₀,
          wp keepContract (fun _ _ => True) (fun _ _ => True) ((fun _ => pure ()) u : HttpM Unit)
            (fun _ s' _ => s' = s) s₀ s := fun _ _ _ _ _ => rfl
      refine wp_mono (frame_run (fun _ => TcpConnection.input_sendBuffer _) hnothing hinput
        False.elim s₀) ?_
      intro s₀ s' _ hframe
      rw [hopen, if_neg Bool.false_ne_true]
      exact h.complete (hctx ▸ hgot) hframe
  · rename_i hgot
    exact h.incomplete (hctx ▸ eq_false_of_ne_true hgot)

/-! ## The events of the connection -/

/-- The session when `data` has been read, and `messageCallback_` is about to be called. -/
def received (data : List Byte) (s : HttpSession) : HttpSession :=
  { s with conn := { s.conn with
      inputBuffer := s.conn.inputBuffer.readFd (some data)
      trace := s.conn.trace ++ [.messageCallback] } }

theorem Live.unparsed {s : HttpSession} {data : List Byte} (h : Live s)
    (hgood : WellFormed (s.stream ++ data))
    (hone : (requests (s.stream ++ data)).length ≤ (requests s.stream).length + 1) :
    ∃ context, Unparsed (received data s) context := by
  obtain ⟨context, hctx⟩ := Option.ne_none_iff_exists'.mp h.2
  have htracked := h.1.tracked context hctx
  have hreadable : (s.conn.inputBuffer.readFd (some data)).readable =
      s.conn.inputBuffer.readable ++ data := WfBuffer.readable_readFd _ _
  have hstream : (received data s).stream = s.stream ++ data := by
    unfold stream received
    simp only
    rw [hreadable, List.append_assoc]
  have hinput := h.1.sameInput h.2
  refine ⟨context, h.1.httpCallback,
    ⟨rfl, hinput.established, hinput.connectionCallback, hinput.messageCallback⟩, hctx,
    by rw [hstream]; exact hgood, ?_, ?_⟩
  · have hrequests : requests s.stream = s.dispatched.map Prod.snd := by
      rw [requests, htracked.parsed]
    have hmore := parseBytes_append context s.conn.inputBuffer.readable data
    have happend := parseStream_append s.stream data
    rw [htracked.parsed, hrequests] at happend
    simp only [← hmore, ← hreadable] at happend
    rw [hstream, happend]
    rfl
  · rw [hstream]
    rw [show requests s.stream = s.dispatched.map Prod.snd by rw [requests, htracked.parsed],
      List.length_map] at hone
    exact hone

theorem live_handleRead : KeepsLive (onLoop TcpConnection.handleRead) := by
  intro s₀ s h
  have hclose := live_run fun _ =>
    TcpConnection.mute_handleClose TcpConnection.input_rule fun _ _ h => ⟨trivial, h⟩
  have herror := live_run (fun _ => TcpConnection.mute_handleError)
  unfold onLoop at hclose herror ⊢
  unfold TcpConnection.handleRead TcpConnection.invokeMessageCallback TcpConnection.emit
  simp only [Embedding.wp_run_bind, Embedding.wp_run_read, Embedding.wp_run_syscall]
  rintro a ⟨-, ha⟩
  rcases a with (_ | ⟨_ | ⟨b, data⟩⟩ | ⟨_ | _⟩) | _
  · exact herror s₀ s h
  · exact hclose s₀ s h
  · have hmessage : s.conn.messageCallback = true := h.1.messageCallback
    obtain ⟨context, hunparsed⟩ := h.unparsed ha.1 ha.2
    simp only [connection, HttpAnswer.sysResult, Embedding.wp_run_bind, Embedding.wp_run_modify,
      Embedding.wp_run_read, Embedding.wp_run_when, Embedding.wp_run_callback]
    split
    · exact onMessage_keeps hunparsed
    · rename_i hunset
      exact absurd hmessage hunset
  · exact h
  · exact herror s₀ s h
  · exact herror s₀ s h

theorem live_handleEvent : KeepsLive (onLoop TcpConnection.handleEvent) := by
  have hclose := live_run fun _ =>
    TcpConnection.mute_handleClose TcpConnection.input_rule fun _ _ h => ⟨trivial, h⟩
  have herror := live_run (fun _ => TcpConnection.mute_handleError)
  have hwrite := live_run (fun _ => TcpConnection.mute_handleWrite TcpConnection.input_rule)
  have hread := live_handleRead
  unfold TcpConnection.handleEvent
  refine Embedding.stable_bind Embedding.stable_read fun _ => ?_
  refine Embedding.stable_bind (Embedding.stable_when hclose) fun _ => ?_
  refine Embedding.stable_bind Embedding.stable_read fun _ => ?_
  refine Embedding.stable_bind (Embedding.stable_when herror) fun _ => ?_
  refine Embedding.stable_bind Embedding.stable_read fun _ => ?_
  refine Embedding.stable_bind (Embedding.stable_when hread) fun _ => ?_
  exact Embedding.stable_bind Embedding.stable_read fun _ => Embedding.stable_when hwrite

theorem KeepInv.established_new {s : HttpSession} (h : KeepInv s) (hs : s.conn.state = .kConnecting)
    {c : TcpConnection} (hc : TcpConnection.SameInput s.conn.inputBuffer c) :
    KeepInv { HttpSession.setConn c s with context := some HttpContext.new } := by
  have hctx : s.context = none := by
    by_contra hctx
    exact h.established hctx hs
  obtain ⟨-, -, hstream, hdispatched⟩ := h.fresh hctx
  have hempty : s.conn.inputBuffer.readable = [] := (List.append_eq_nil_iff.mp hstream).2
  refine ⟨h.httpCallback, hc.connectionCallback, hc.messageCallback, nofun, fun _ => hc.established,
    fun context hcontext => ?_⟩
  obtain rfl := Option.some.inj hcontext
  have hstream' : HttpSession.stream { HttpSession.setConn c s with context := some HttpContext.new } = [] := by
    rw [← hstream]
    unfold stream HttpSession.setConn
    rw [hc.inputBuffer]
  refine ⟨?_, ?_⟩
  · rw [hstream']
    show _ = (s.dispatched.map Prod.snd, parseBytes .new c.inputBuffer.readable)
    rw [hdispatched, hc.inputBuffer, hempty]
    rfl
  · rw [hstream']
    rfl

theorem keep_connectEstablished {s₀ s : HttpSession} (h : KeepInv s)
    (hs : s.conn.state = .kConnecting) :
    wp keepContract (fun _ _ => True) (fun _ _ => True) (onLoop TcpConnection.connectEstablished)
      (fun _ s _ => KeepInv s) s₀ s := by
  have hset : s.conn.connectionCallback = true := h.connectionCallback
  have hmessage : s.conn.messageCallback = true := h.messageCallback
  unfold onLoop TcpConnection.connectEstablished TcpConnection.setState TcpConnection.setChannel
    TcpConnection.invokeConnectionCallback TcpConnection.emit
  have hinput : TcpConnection.SameInput s.conn.inputBuffer { s.conn with
      state := .kConnected
      channel := s.conn.channel.enableReading.1
      trace := s.conn.trace ++ [.connectionCallback true] } := ⟨rfl, nofun, hset, hmessage⟩
  simpa [connection, setConn, handler, onConnection, HttpSession.setContext, hs, hset] using
    h.established_new hs hinput

theorem keep_connectDestroyed : Keeps keepContract (onLoop TcpConnection.connectDestroyed) := by
  intro s₀ s h
  by_cases hctx : s.context = none
  · -- Never established: the channel is removed once more.
    obtain ⟨hs, -, hstream, hdispatched⟩ := h.fresh hctx
    unfold onLoop TcpConnection.connectDestroyed TcpConnection.setChannel TcpConnection.emit
    simp only [Embedding.wp_run_bind, Embedding.wp_run_read, Embedding.wp_run_modify,
      Embedding.wp_run_when]
    rw [if_neg (by simp [connection, hs])]
    refine ⟨h.httpCallback, h.connectionCallback, h.messageCallback, fun _ => ?_,
      fun hn => absurd hctx hn, fun context hcontext => ?_⟩
    · exact ⟨hs, rfl, hstream, hdispatched⟩
    · cases hctx.symm.trans hcontext
  · refine wp_mono (live_run (fun _ =>
      TcpConnection.mute_connectDestroyed TcpConnection.input_rule) s₀ s ⟨h, hctx⟩) ?_
    exact fun _ _ _ h => h.1

theorem keep_entry {label : HttpLabel} {s : HttpSession} {p : HttpM Unit} (hp : entry label s = some p)
    (h : KeepInv s) :
    wp keepContract (fun _ _ => True) (fun _ _ => True) p (fun _ s _ => KeepInv s) s s := by
  cases label with
  | connectEstablished =>
    unfold entry at hp
    obtain ⟨hs, hp⟩ := Option.ite_none_right_eq_some.mp hp
    obtain rfl := Option.some.inj hp
    exact keep_connectEstablished h hs
  | event revents =>
    unfold entry at hp
    obtain ⟨hadded, hp⟩ := Option.ite_none_right_eq_some.mp hp
    obtain rfl := Option.some.inj hp
    have hctx : s.context ≠ none := by
      intro hn
      obtain ⟨-, hindex, -⟩ := h.fresh hn
      exact nomatch hindex.symm.trans hadded
    have hlive : KeepsLive (onLoop (TcpConnection.entry (.event revents))) := by
      refine Embedding.stable_bind ?_ fun _ => live_handleEvent
      intro s₀ s ⟨h, hctx⟩
      refine ⟨h.setConn hctx ⟨rfl, ?_, ?_, ?_⟩, hctx⟩
      · exact h.established hctx
      · exact h.connectionCallback
      · exact h.messageCallback
    exact wp_mono (hlive s s ⟨h, hctx⟩) fun _ _ _ h => h.1
  | connectDestroyed =>
    obtain rfl := Option.some.inj hp
    exact keep_connectDestroyed s s h

/-! ## Runs -/

theorem servedMachine_keeps : servedMachine.Keeps keepContract (fun _ _ _ => True) OneAtATime := by
  refine Machine.Keeps.of_inv ?_ (fun _ _ _ hv ha => ⟨hv, ha⟩) fun label s p hp _ h => keep_entry hp h
  rintro s ⟨fd, rfl⟩
  exact ⟨rfl, rfl, rfl, fun _ => ⟨rfl, rfl, rfl, rfl⟩, fun hn => absurd rfl hn, nofun⟩

/-- **No request is stranded** on a connection that is kept alive, as long as no read completes more
than one. -/
theorem keep_alive_not_stranded {c : Config Unit HttpSession HttpCall HttpAnswer Empty Fault}
    (h : servedMachine.Reach OneAtATime c) : NotStranded c.st := by
  have hok := servedMachine_keeps.runOk h
  cases hc : c.crashed with
  | none => exact (hok.inv hc).notStranded
  | some e => exact (hok.crash e hc).notStranded

/-- Two requests, one in each read. -/
theorem keep_alive_not_stranded_two :
    ∃ c, servedMachine.system.run (servedMachine.Meets OneAtATime) (.initial (new 3 true))
        [.start .connectEstablished [],
          .start (.event kReadEvent)
            [.sys (.bytes getRoot), .response (.new false), .sys (.count 58)],
          .start (.event kReadEvent)
            [.sys (.bytes getRoot), .response (.new false), .sys (.count 58)]] = some c ∧
      c.st.dispatched.length = 2 ∧ NotStranded c.st := by
  have hrun : (servedMachine.system.run (servedMachine.Meets OneAtATime) (.initial (new 3 true))
        [.start .connectEstablished [],
          .start (.event kReadEvent)
            [.sys (.bytes getRoot), .response (.new false), .sys (.count 58)],
          .start (.event kReadEvent)
            [.sys (.bytes getRoot), .response (.new false), .sys (.count 58)]]).map
      (fun c => c.st.dispatched.length) = some 2 := by decide +kernel
  obtain ⟨c, hc, hdispatched⟩ := Option.map_eq_some_iff.mp hrun
  exact ⟨c, hc, hdispatched, keep_alive_not_stranded (servedMachine.reach_of_run ⟨3, rfl⟩ hc)⟩

/-- Two requests in one read: the second one waits in the buffer, on a connection that is open. -/
theorem second_request_stranded :
    ∃ c : Config Unit HttpSession HttpCall HttpAnswer Empty Fault,
      servedMachine.Reachable c ∧ c.st.conn.state = .kConnected ∧ c.st.dispatched.length = 1 ∧
        (requests c.st.stream).length = 2 ∧ ¬ NotStranded c.st := by
  have hrun : (servedMachine.system.run (fun _ _ => True) (.initial (new 3 true))
        [.start .connectEstablished [],
          .start (.event kReadEvent)
            [.sys (.bytes (getRoot ++ getRoot)), .response (.new false), .sys (.count 58)]]).map
      (fun c => (c.st.conn.state, c.st.dispatched.length, (requests c.st.stream).length)) =
        some (.kConnected, 1, 2) := by decide +kernel
  obtain ⟨c, hc, heq⟩ := Option.map_eq_some_iff.mp hrun
  obtain ⟨hstate, hdispatched, hrequests⟩ : _ ∧ _ ∧ _ := by simpa only [Prod.mk.injEq] using heq
  refine ⟨c, servedMachine.reachable_of_run ⟨3, rfl⟩ hc, hstate, hdispatched, hrequests, fun h => ?_⟩
  have hlength := congrArg List.length h.dispatched
  rw [List.length_map, hdispatched, hrequests] at hlength
  cases hlength

end Agora.HttpSession
