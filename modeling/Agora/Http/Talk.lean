import Agora.Conn.Still
import Agora.Http.KeepAlive
import Agora.Spec.HttpTalk

/-! # A session of an `HttpServer` says what the specification says -/

open Agora.Lib Agora.Lib.Prog Agora.Spec

namespace Agora.HttpSession

open TcpConnection (Still Carries Talks)

variable {F : HttpCallback} {b : Bool} {waits : Prop} {s s₀ : HttpSession}

/-- The responses of a session, with and without an `httpCallback_`. -/
def Replies (F : HttpCallback) (httpCallback : Bool) : HttpCallback :=
  if httpCallback then F else fun _ response => response = notFound

/-- `httpCallback_` answers as `F` says. -/
def Answers (F : HttpCallback) : Machine.Condition HttpSession HttpCall HttpAnswer EventMask where
  label _ _ := True
  answer _
    | .httpCallback request, .response response => F request response
    | _, _ => True

instance (s : HttpSession) (revents : EventMask) : Decidable ((Answers F).label s revents) := .isTrue trivial

instance [∀ request response, Decidable (F request response)] (s : HttpSession) :
    ∀ q a, Decidable ((Answers F).answer s q a)
  | .httpCallback request, .response response => inferInstanceAs (Decidable (F request response))
  | .httpCallback _, .sys _ | .sys _, _ => .isTrue trivial

/-- The bytes that arrive leave at most one request without its response. -/
def Waits (s : HttpSession) : HttpCall → HttpAnswer → Prop
  | .sys (.readv _), .sys (.bytes data) =>
    (requests (s.stream ++ data)).length ≤ s.conn.payloads.length + 1
  | _, _ => True

instance (s : HttpSession) : ∀ q a, Decidable (Waits s q a)
  | .sys (.readv _), .sys (.bytes data) =>
    inferInstanceAs (Decidable ((requests (s.stream ++ data)).length ≤ s.conn.payloads.length + 1))
  | .sys (.readv _), .sys (.count _) | .sys (.readv _), .sys (.error _) | .sys (.readv _), .response _
  | .sys (.write _), _ | .sys .getSocketError, _ | .httpCallback _, _ => .isTrue trivial

/-- Each client waits for the response to a request before it completes another one. -/
def Waiting (F : HttpCallback) : Machine.Condition HttpSession HttpCall HttpAnswer EventMask where
  label _ _ := True
  answer s q a := (Answers F).answer s q a ∧ Waits s q a

instance (s : HttpSession) (revents : EventMask) : Decidable ((Waiting F).label s revents) := .isTrue trivial

instance [∀ request response, Decidable (F request response)] (s : HttpSession) (q : HttpCall) (a : HttpAnswer) :
    Decidable ((Waiting F).answer s q a) := inferInstanceAs (Decidable (_ ∧ _))

/-- What has been said, in words of the specification. -/
structure Said (F : HttpCallback) (b : Bool) (s : HttpSession) : Prop where
  httpCallback : s.httpCallback = b
  connectionCallback : s.conn.connectionCallback = true
  messageCallback : s.conn.messageCallback = true
  established : s.conn.state ≠ .kConnecting
  said : Transcript (Replies F b) s.stream s.conn.payloads
  ended : s.conn.HalfClosing → s.conn.state ≠ .kConnected ∧ Ended (Replies F b) s.stream s.conn.payloads

/-- The last answer has been said, unless the connection was down. -/
structure Farewell (F : HttpCallback) (b : Bool) (s : HttpSession) : Prop extends Said F b s where
  last : s.conn.state = .kConnected → Ended (Replies F b) s.stream s.conn.payloads

/-- All that has been said has kept the connection alive, and `context` is to parse what is not answered. -/
def Upto (F : HttpCallback) (b : Bool) (s : HttpSession) (context : HttpContext) : Prop :=
  ∃ rest, Kept (Replies F b) s.stream s.conn.payloads rest ∧
    parseBytes .new rest = parseBytes context s.conn.inputBuffer.readable

/-- An established session between its calls. -/
structure Talking (F : HttpCallback) (b : Bool) (s : HttpSession) : Prop extends Said F b s where
  upto : s.conn.state = .kConnected → ∃ context, s.context = some context ∧ Upto F b s context

/-- A server that closes after each response has an incomplete request at most. -/
def Prompt (F : HttpCallback) (b : Bool) (s : HttpSession) : Prop :=
  AlwaysCloses (Replies F b) → s.conn.state = .kConnected →
    (parseBytes .new s.stream).1.gotAll = false ∧ (parseBytes .new s.stream).2.2 = true

/-- An established session between its calls; `waits` tells whether its client waits for each response. -/
structure Settled (F : HttpCallback) (b : Bool) (waits : Prop) (s : HttpSession) : Prop
    extends Talking F b s where
  prompt : Prompt F b s
  answered : waits → s.conn.state = .kConnected → (requests s.stream).length = s.conn.payloads.length

/-- An answer that keeps the connection alive has been said, and a new context is to parse what is left. -/
structure Following (F : HttpCallback) (b : Bool) (waits : Prop) (s : HttpSession) : Prop
    extends Said F b s where
  upto : s.conn.state = .kConnected → Upto F b s .new
  answered : waits → s.conn.state = .kConnected → (requests s.stream).length = s.conn.payloads.length

/-- The invariant: nothing has happened before `connectEstablished`. -/
structure TalkInv (F : HttpCallback) (b : Bool) (waits : Prop) (s : HttpSession) : Prop where
  fresh : s.conn.state = .kConnecting → s.httpCallback = b ∧ s.conn.connectionCallback = true ∧
    s.conn.messageCallback = true ∧ s.conn.channel.index = .kNew ∧ s.stream = [] ∧ s.conn.payloads = [] ∧
    .shutdownWrite ∉ s.conn.trace
  settled : s.conn.state ≠ .kConnecting → Settled F b waits s

def talkContract (F : HttpCallback) (b : Bool) (waits : Prop) :
    Contract HttpSession HttpCall HttpAnswer Empty Fault where
  inv := TalkInv F b waits
  pre _ _ := True
  tolerates _ s := Transcript (Replies F b) s.stream s.conn.payloads
  allow s q a := q.valid a = true ∧ (Answers F).answer s q a ∧ (waits → Waits s q a)

/-! ## Still changes -/

theorem stream_still {c : TcpConnection} (hc : Still s.conn c) : (setConn c s).stream = s.stream := by
  unfold stream setConn
  rw [hc.inputBuffer]

theorem Said.put (h : Said F b s) {c : TcpConnection} (hc : Still s.conn c) : Said F b (setConn c s) := by
  refine ⟨h.httpCallback, hc.connectionCallback.trans h.connectionCallback,
    hc.messageCallback.trans h.messageCallback, hc.established, ?_, fun hclosing => ?_⟩
  · rw [stream_still hc]
    show Transcript _ _ c.payloads
    rw [hc.payloads]
    exact h.said
  · obtain ⟨hdown, hended⟩ := h.ended (hc.halfClosing hclosing)
    refine ⟨fun hup => hdown (hc.connected hup), ?_⟩
    rw [stream_still hc]
    show Ended _ _ c.payloads
    rw [hc.payloads]
    exact hended

theorem Farewell.put (h : Farewell F b s) {c : TcpConnection} (hc : Still s.conn c) :
    Farewell F b (setConn c s) := by
  refine ⟨h.toSaid.put hc, fun hup => ?_⟩
  rw [stream_still hc]
  show Ended _ _ c.payloads
  rw [hc.payloads]
  exact h.last (hc.connected hup)

theorem Upto.put {context : HttpContext} (h : Upto F b s context) {c : TcpConnection} (hc : Still s.conn c) :
    Upto F b (setConn c s) context := by
  obtain ⟨rest, hkept, hparse⟩ := h
  refine ⟨rest, ?_, ?_⟩
  · rw [stream_still hc]
    show Kept _ _ c.payloads _
    rw [hc.payloads]
    exact hkept
  · show _ = parseBytes context c.inputBuffer.readable
    rw [hc.inputBuffer]
    exact hparse

theorem Talking.put (h : Talking F b s) {c : TcpConnection} (hc : Still s.conn c) : Talking F b (setConn c s) := by
  refine ⟨h.toSaid.put hc, fun hs => ?_⟩
  obtain ⟨context, hcontext, hupto⟩ := h.upto (hc.connected hs)
  exact ⟨context, hcontext, hupto.put hc⟩

theorem Talking.upto_context (h : Talking F b s) {context : HttpContext} (hcontext : s.context = some context)
    (hs : s.conn.state = .kConnected) : Upto F b s context := by
  obtain ⟨context', hcontext', hupto⟩ := h.upto hs
  obtain rfl := Option.some.inj (hcontext.symm.trans hcontext')
  exact hupto

theorem Prompt.put (h : Prompt F b s) {c : TcpConnection} (hc : Still s.conn c) : Prompt F b (setConn c s) := by
  intro hF hs
  rw [stream_still hc]
  exact h hF (hc.connected hs)

theorem answered_put (h : s.conn.state = .kConnected → (requests s.stream).length = s.conn.payloads.length)
    {c : TcpConnection} (hc : Still s.conn c) (hs : c.state = .kConnected) :
    (requests (setConn c s).stream).length = (setConn c s).conn.payloads.length := by
  rw [stream_still hc]
  show _ = c.payloads.length
  rw [hc.payloads]
  exact h (hc.connected hs)

theorem Settled.put (h : Settled F b waits s) {c : TcpConnection} (hc : Still s.conn c) :
    Settled F b waits (setConn c s) :=
  ⟨h.toTalking.put hc, h.prompt.put hc, fun hw => answered_put (h.answered hw) hc⟩

theorem Following.put (h : Following F b waits s) {c : TcpConnection} (hc : Still s.conn c) :
    Following F b waits (setConn c s) :=
  ⟨h.toSaid.put hc, fun hs => (h.upto (hc.connected hs)).put hc, fun hw => answered_put (h.answered hw) hc⟩

/-- The callbacks that a session may carry a property through: those of the loop, or none. -/
def Harmless (callbacks : Callback → HttpM Unit) : Prop := callbacks = handler ∨ callbacks = fun _ => pure ()

theorem carries {callbacks : Callback → HttpM Unit} (hcallbacks : Harmless callbacks) {J : HttpSession → Prop}
    (hsaid : ∀ s, J s → Said F b s) (hput : ∀ s c, J s → Still s.conn c → J (setConn c s)) :
    Carries (connection callbacks) (talkContract F b waits) J where
  lawful := connection_lawful callbacks
  fault _ s hs := (hsaid s hs).said
  put := hput
  established s hs := (hsaid s hs).established
  handler s u _ hm hu s₀ := by
    rcases hcallbacks with rfl | rfl
    · exact handler_down s u hm hu s₀
    · exact rfl

theorem carries_said : Carries (connection fun _ => pure ()) (talkContract F b waits) (Said F b) :=
  carries (.inr rfl) (fun _ h => h) fun _ _ h hc => h.put hc

theorem carries_farewell : Carries (connection fun _ => pure ()) (talkContract F b waits) (Farewell F b) :=
  carries (.inr rfl) (fun _ h => h.toSaid) fun _ _ h hc => h.put hc

theorem Said.farewell_down (h : Said F b s) (hs : s.conn.state ≠ .kConnected) : Farewell F b s :=
  ⟨h, fun hup => absurd hup hs⟩

/-! ## A message -/

theorem shutdown_talks (h : Farewell F b s) :
    wp (talkContract F b waits) (fun _ _ => True) (fun _ _ => True) (onConn TcpConnection.shutdown)
      (fun _ s' _ => Settled F b waits s') s₀ s := by
  refine wp_mono (carries_said.shutdown (fun _ => h.toSaid) fun hup => ?_) ?_
  · exact ⟨h.httpCallback, h.connectionCallback, h.messageCallback, nofun, h.said, fun _ => ⟨nofun, h.last hup⟩⟩
  · rintro _ s' _ ⟨hs, hdown⟩
    exact ⟨⟨hs, fun hup => absurd hup hdown⟩, fun _ hup => absurd hup hdown, fun _ hup => absurd hup hdown⟩

theorem payloads_accept (c : TcpConnection) (payload : List Byte) :
    TcpConnection.payloads { c with trace := c.trace ++ [.accepted payload] } = c.payloads ++ [payload] :=
  TcpConnection.payloads_snoc c _

theorem Said.utters (h : Said F b s) (hs : s.conn.state = .kConnected) {payload : List Byte}
    (hsaid : Transcript (Replies F b) s.stream (s.conn.payloads ++ [payload])) :
    Said F b (setConn { s.conn with trace := s.conn.trace ++ [.accepted payload] } s) := by
  refine ⟨h.httpCallback, h.connectionCallback, h.messageCallback, h.established, ?_, fun hclosing => ?_⟩
  · exact (payloads_accept s.conn payload).symm ▸ hsaid
  · exact absurd hs (h.ended (hclosing.of_snoc rfl rfl nofun)).1

theorem Talking.farewell (h : Talking F b s) {context : HttpContext} (hcontext : s.context = some context)
    (hs : s.conn.state = .kConnected) {payload : List Byte}
    (hlast : ∀ rest, parseBytes .new rest = parseBytes context s.conn.inputBuffer.readable →
      Ended (Replies F b) rest [payload]) :
    Farewell F b (setConn { s.conn with trace := s.conn.trace ++ [.accepted payload] } s) := by
  obtain ⟨rest, hkept, hparse⟩ := h.upto_context hcontext hs
  have hended := hkept.ended (hlast rest hparse)
  refine ⟨h.toSaid.utters hs hended.transcript, fun _ => ?_⟩
  exact (payloads_accept s.conn payload).symm ▸ hended

theorem Talking.parsed (h : Talking F b s) {context : HttpContext} (hcontext : s.context = some context) :
    Talking F b (parse context s) := by
  obtain ⟨hleft, hunread, -⟩ := parseRequest_eq context s.conn.inputBuffer
  refine ⟨⟨h.httpCallback, h.connectionCallback, h.messageCallback, h.established, ?_, ?_⟩, fun hs => ?_⟩
  · rw [parse_stream]
    exact h.said
  · rw [parse_stream]
    exact h.ended
  · obtain ⟨rest, hkept, hparse⟩ := h.upto_context hcontext hs
    refine ⟨_, rfl, rest, ?_, ?_⟩
    · rw [parse_stream]
      exact hkept
    · show _ = parseBytes (context.parseRequest s.conn.inputBuffer).1
        (context.parseRequest s.conn.inputBuffer).2.1.readable
      rw [hleft, hunread, parseBytes_again]
      exact hparse

theorem refuse_talks {context : HttpContext} (h : Talking F b s) (hcontext : s.context = some context)
    (hbad : (parseBytes context s.conn.inputBuffer.readable).2.2 = false) :
    wp (talkContract F b waits) (fun _ _ => True) (fun _ _ => True) (do
      onConn (TcpConnection.send badRequest)
      onConn TcpConnection.shutdown)
      (fun _ s' _ => Settled F b waits s') s₀ s := by
  rw [wp_bind]
  refine wp_mono (carries_farewell.send h.toSaid.farewell_down fun hs => ?_) ?_
  · refine h.farewell hcontext hs fun rest hparse => .refused ?_
    rw [hparse]
    exact hbad
  · exact fun s₀ s _ hs => shutdown_talks hs

/-- Behind an answer that keeps the connection alive, a new context parses what is not answered. -/
theorem Talking.replied {context : HttpContext} {response : HttpResponse} (h : Talking F b s)
    (hcontext : s.context = some context) (hall : context.gotAll = true)
    (hF : Replies F b context.request response) (hopen : response.closeConnection = false)
    (hwaits : waits → (requests s.stream).length ≤ s.conn.payloads.length + 1)
    (hs : s.conn.state = .kConnected) :
    Following F b waits
      (setConn { s.conn with trace := s.conn.trace ++ [.accepted response.bytes] } s) := by
  obtain ⟨rest, hkept, hparse⟩ := h.upto_context hcontext hs
  rw [parseBytes_done hall] at hparse
  have hall' : (parseBytes .new rest).1.gotAll = true := by
    rw [hparse]
    exact hall
  have hF' : Replies F b (parseBytes .new rest).1.request response := by
    rw [hparse]
    exact hF
  have hsnoc := hkept.snoc hall' hF' hopen
  have hpayloads := payloads_accept s.conn response.bytes
  refine ⟨h.toSaid.utters hs hsnoc.spoken, fun _ => ?_, fun hw _ => ?_⟩
  · refine ⟨(parseBytes .new rest).2.1, ?_, ?_⟩
    · show Kept _ s.stream _ _
      exact hpayloads ▸ hsnoc
    · rw [hparse]
      rfl
  · have hcount := hsnoc.count
    have hle := hwaits hw
    have hlength := congrArg List.length hpayloads
    rw [List.length_append, List.length_singleton] at hcount hlength
    refine Eq.trans ?_ hlength.symm
    show (requests s.stream).length = _
    omega

theorem reply_talks (s₀ : HttpSession) {context : HttpContext} {response : HttpResponse} (h : Talking F b s)
    (hcontext : s.context = some context) (hall : context.gotAll = true)
    (hF : Replies F b context.request response)
    (hwaits : waits → (requests s.stream).length ≤ s.conn.payloads.length + 1) :
    wp (talkContract F b waits) (fun _ _ => True) (fun _ _ => True) (do
      let _ ← onConn (TcpConnection.sendBuffer (response.appendToBuffer .new))
      if response.closeConnection then onConn TcpConnection.shutdown
      else HttpSession.setContext context.reset)
      (fun _ s' _ => Settled F b waits s') s₀ s := by
  have hbytes : (response.appendToBuffer .new).readable = response.bytes := by
    rw [HttpResponse.readable_appendToBuffer, WfBuffer.readable_new, List.nil_append]
  rw [wp_bind]
  cases hclose : response.closeConnection with
  | true =>
    have hgot := parseBytes_done hall s.conn.inputBuffer.readable
    refine wp_mono (carries_farewell.sendBuffer h.toSaid.farewell_down fun hs => ?_)
      fun s₀ s _ hs => shutdown_talks hs
    rw [hbytes]
    refine h.farewell hcontext hs fun rest hparse => .closing ?_ ?_ hclose
    · rw [hparse, hgot]
      exact hall
    · rw [hparse, hgot]
      exact hF
  | false =>
    have hcarries : Carries (connection fun _ => pure ()) (talkContract F b waits) (Following F b waits) :=
      carries (.inr rfl) (fun _ h => h.toSaid) fun _ _ h hc => h.put hc
    refine wp_mono (hcarries.sendBuffer (fun hs => ?_) fun hs => ?_) ?_
    · exact ⟨h.toSaid, fun hup => absurd hup hs, fun _ hup => absurd hup hs⟩
    · rw [hbytes]
      exact h.replied hcontext hall hF hclose hwaits hs
    · rintro s₀ s _ ⟨hsaid, hupto, hanswered⟩
      refine ⟨⟨⟨hsaid.httpCallback, hsaid.connectionCallback, hsaid.messageCallback, hsaid.established,
        hsaid.said, hsaid.ended⟩, fun hs => ⟨_, rfl, hupto hs⟩⟩, fun hF' _ => ?_, hanswered⟩
      cases hclose.symm.trans (hF' _ _ hF)

theorem answer_talks {context : HttpContext} (h : Talking F b s) (hcontext : s.context = some context)
    (hall : context.gotAll = true)
    (hwaits : waits → (requests s.stream).length ≤ s.conn.payloads.length + 1) :
    wp (talkContract F b waits) (fun _ _ => True) (fun _ _ => True) (answer context)
      (fun _ s' _ => Settled F b waits s') s₀ s := by
  unfold answer respond
  simp only [wp_bind, wp_read, wp_ite, wp_modify, wp_syscall]
  split
  · rename_i hset
    have hset : b = true := h.httpCallback.symm.trans hset
    rintro a ⟨hvalid, hF, -⟩
    cases a with
    | sys r => cases hvalid
    | response response =>
      have hdispatched : Talking F b (dispatch context.request s) :=
        ⟨⟨h.httpCallback, h.connectionCallback, h.messageCallback, h.established, h.said, h.ended⟩, h.upto⟩
      have hreplies : Replies F b context.request response := by
        unfold Replies
        rw [if_pos hset]
        exact hF
      have hreply := reply_talks s₀ hdispatched hcontext hall hreplies hwaits
      rw [wp_bind] at hreply
      simp only [wp_ite] at hreply
      exact hreply
  · rename_i hunset
    have hreplies : Replies F b context.request notFound := by
      unfold Replies
      rw [if_neg (by rw [← h.httpCallback]; exact hunset)]
    have hreply := reply_talks s₀ h hcontext hall hreplies hwaits
    rw [wp_bind] at hreply
    simp only [wp_ite] at hreply
    exact hreply

theorem onMessage_talks (h : Talking F b s)
    (hwaits : waits → (requests s.stream).length ≤ s.conn.payloads.length + 1) :
    wp (talkContract F b waits) (fun _ _ => True) (fun _ _ => True) onMessage
      (fun _ s' _ => Settled F b waits s') s₀ s := by
  unfold onMessage
  rw [wp_bind, wp_read]
  cases hcontext : s.context with
  | none => exact h.said
  | some context =>
    obtain ⟨hleft, hunread, hok⟩ := parseRequest_eq context s.conn.inputBuffer
    have hparsed := h.parsed hcontext
    have hnext : (parse context s).context = some (context.parseRequest s.conn.inputBuffer).1 := rfl
    have hbuffer : (parse context s).conn.inputBuffer.readable =
        (context.parseRequest s.conn.inputBuffer).2.1.readable := rfl
    rw [wp_bind, wp_modify]
    dsimp only
    rw [wp_bind, wp_when]
    cases hgood : (context.parseRequest s.conn.inputBuffer).2.2 with
    | false =>
      rw [hok] at hgood
      have hnone : (context.parseRequest s.conn.inputBuffer).1.gotAll = false := by
        rw [hleft]
        exact parseBytes_refused hgood
      rw [if_pos (by decide), hnone]
      refine wp_mono (refuse_talks hparsed hnext ?_) fun _ _ _ h => h
      rw [hbuffer, hleft, hunread, parseBytes_again]
      exact hgood
    | true =>
      rw [if_neg (by decide), wp_when]
      split
      · rename_i hall
        refine answer_talks hparsed hnext hall ?_
        rw [parse_stream]
        exact hwaits
      · rename_i hnot
        have hnone := eq_false_of_ne_true hnot
        refine ⟨hparsed, fun hF hs => ?_, fun _ hs => ?_⟩
        · obtain ⟨rest, hkept, hparse⟩ := h.upto_context hcontext hs
          obtain ⟨-, rfl⟩ := hkept.of_closes hF
          rw [parse_stream, hparse, ← hleft, ← hok]
          exact ⟨hnone, hgood⟩
        · obtain ⟨rest, hkept, hparse⟩ := h.upto_context hcontext hs
          rw [hleft, ← hparse] at hnone
          rw [parse_stream, hkept.count, requests_incomplete hnone]
          rfl

/-! ## The functions of the loop -/

theorem received_still (data : List Byte) (s : HttpSession) :
    (received data s).stream = s.stream ++ data ∧ (received data s).conn.payloads = s.conn.payloads := by
  refine ⟨?_, TcpConnection.payloads_snoc s.conn .messageCallback |>.trans (List.append_nil _)⟩
  have hreadable : (s.conn.inputBuffer.readFd (some data)).readable = s.conn.inputBuffer.readable ++ data :=
    WfBuffer.readable_readFd _ _
  unfold stream received
  simp only
  rw [hreadable, List.append_assoc]

theorem Talking.received (h : Talking F b s) (data : List Byte) : Talking F b (received data s) := by
  obtain ⟨hstream, hpayloads⟩ := received_still data s
  refine ⟨⟨h.httpCallback, h.connectionCallback, h.messageCallback, h.established, ?_, fun hclosing => ?_⟩,
    fun hs => ?_⟩
  · rw [hstream, hpayloads]
    exact h.said.append data
  · obtain ⟨hdown, hended⟩ := h.ended (hclosing.of_snoc rfl rfl nofun)
    rw [hstream, hpayloads]
    exact ⟨hdown, hended.append data⟩
  · obtain ⟨context, hcontext, rest, hkept, hparse⟩ := h.upto hs
    refine ⟨context, hcontext, rest ++ data, ?_, ?_⟩
    · rw [hstream, hpayloads]
      exact hkept.append data
    · have hreadable : (HttpSession.received data s).conn.inputBuffer.readable =
          s.conn.inputBuffer.readable ++ data := WfBuffer.readable_readFd _ _
      rw [hreadable, parseBytes_append, hparse, ← parseBytes_append]

theorem loop_talks : Talks (connection handler) (talkContract F b waits) (Settled F b waits) where
  toCarries := carries (.inl rfl) (fun _ h => h.toSaid) fun _ _ h hc => h.put hc
  message s₀ s space answer hs hallow byte bytes hanswer _ := by
    refine onMessage_talks (hs.toTalking.received (byte :: bytes)) fun hw => ?_
    obtain ⟨hstream, hpayloads⟩ := received_still (byte :: bytes) s
    show (requests (received (byte :: bytes) s).stream).length ≤
      (received (byte :: bytes) s).conn.payloads.length + 1
    rw [hstream, hpayloads]
    cases answer with
    | response r => cases hanswer
    | sys r =>
      obtain rfl : r = .bytes (byte :: bytes) := hanswer
      exact hallow.2.2 hw
  messageCallback _ hs := hs.messageCallback

theorem TalkInv.of_settled (h : Settled F b waits s) : TalkInv F b waits s :=
  ⟨fun hs => absurd hs h.established, fun _ => h⟩

/-- The session behind its `connectEstablished`. -/
def opened (s : HttpSession) : HttpSession :=
  { setConn { s.conn with
      state := .kConnected
      channel := s.conn.channel.enableReading.1
      trace := s.conn.trace ++ [.connectionCallback true] } s with context := some .new }

theorem TalkInv.opened (h : TalkInv F b waits s) (hs : s.conn.state = .kConnecting) :
    Settled F b waits s.opened := by
  obtain ⟨hcallback, hset, hmessage, -, hstream, hpayloads, hopen⟩ := h.fresh hs
  have hnothing : s.opened.conn.payloads = [] := (TcpConnection.payloads_muted rfl).trans hpayloads
  have hempty : s.opened.stream = [] := hstream
  have hbuffer : s.conn.inputBuffer.readable = [] := (List.append_eq_nil_iff.mp hstream).2
  have hincomplete : (parseBytes .new []).1.gotAll = false := by decide
  refine ⟨⟨⟨hcallback, hset, hmessage, nofun, ?_, fun hclosing => ?_⟩, fun _ => ⟨_, rfl, [], ?_, ?_⟩⟩,
    fun _ _ => ?_, fun _ _ => ?_⟩
  · rw [hnothing]
    exact .silent _
  · rcases hclosing with hs' | hmem
    · cases hs'
    · exact absurd (by simpa [HttpSession.opened, setConn] using hmem) hopen
  · rw [hnothing, hempty]
    exact .nil _
  · show _ = parseBytes .new s.conn.inputBuffer.readable
    rw [hbuffer]
  · rw [hempty]
    exact ⟨hincomplete, by decide⟩
  · rw [hempty, hnothing, requests_incomplete hincomplete]
    rfl

theorem connectEstablished_talks (h : TalkInv F b waits s) (hs : s.conn.state = .kConnecting) :
    wp (talkContract F b waits) (fun _ _ => True) (fun _ _ => True) (onLoop TcpConnection.connectEstablished)
      (fun _ s' _ => TalkInv F b waits s') s₀ s := by
  obtain ⟨-, hset, -⟩ := h.fresh hs
  have hinv := TalkInv.of_settled (h.opened hs)
  unfold opened at hinv
  unfold onLoop TcpConnection.connectEstablished TcpConnection.setState TcpConnection.setChannel
    TcpConnection.invokeConnectionCallback TcpConnection.emit
  simpa [connection, setConn, handler, onConnection, HttpSession.setContext, hs, hset] using hinv

theorem connectDestroyed_talks (h : TalkInv F b waits s) :
    wp (talkContract F b waits) (fun _ _ => True) (fun _ _ => True) (onLoop TcpConnection.connectDestroyed)
      (fun _ s' _ => TalkInv F b waits s') s₀ s := by
  by_cases hs : s.conn.state = .kConnecting
  · -- Never established: the channel is removed once more.
    obtain ⟨hcallback, hset, hmessage, -, hstream, hpayloads, hopen⟩ := h.fresh hs
    unfold onLoop TcpConnection.connectDestroyed TcpConnection.setChannel TcpConnection.emit
    simp only [Embedding.wp_run_bind, Embedding.wp_run_read, Embedding.wp_run_modify, Embedding.wp_run_when]
    rw [if_neg (by simp [connection, hs])]
    refine ⟨fun _ => ⟨hcallback, hset, hmessage, rfl, hstream, ?_, ?_⟩, fun hn => absurd hs hn⟩
    · refine Eq.trans ?_ hpayloads
      exact (TcpConnection.payloads_muted rfl).trans (TcpConnection.payloads_muted (c := s.conn) rfl)
    · simpa [connection, setConn] using hopen
  · exact wp_mono (loop_talks.connectDestroyed s₀ s (h.settled hs)) fun _ _ _ h => .of_settled h

theorem event_talks (h : TalkInv F b waits s) (revents : EventMask) (hindex : s.conn.channel.index = .kAdded) :
    wp (talkContract F b waits) (fun _ _ => True) (fun _ _ => True) (onLoop (TcpConnection.entry (.event revents)))
      (fun _ s' _ => TalkInv F b waits s') s₀ s := by
  have hs : s.conn.state ≠ .kConnecting := by
    intro hs
    obtain ⟨-, -, -, hnew, -⟩ := h.fresh hs
    cases hnew.symm.trans hindex
  exact wp_mono (loop_talks.event revents s₀ s (h.settled hs)) fun _ _ _ h => .of_settled h

end Agora.HttpSession
