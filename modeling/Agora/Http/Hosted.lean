import Agora.Http.Dispatch
import Agora.Http.Message
import Agora.Http.Talk
import Agora.Server.HalfClose
import Agora.Server.Output
import Agora.Server.Registered
import Agora.Server.Tame
import Agora.Spec.HttpClient

/-!
# An `HttpServer` on any number of loops

What holds of one session holds of all connections of the server, whatever its loops do.
-/

open Agora.Lib Agora.Lib.Prog Agora.Spec

namespace Agora.HttpServer

open TcpConnection (Quiet StaysQuiet)
open HttpSession (MessageRule Replies Answers Talking Upto Prompt TalkInv talkContract)

variable {b : Bool}

/-! ## The session does not abort -/

/-- From the first callback on there is a context. -/
def HasContext (s : HttpSession) : Prop := s.context ≠ none

abbrev Calmly (b : Bool) (c : TcpConnection) {α : Type} (p : HttpM α) : Prop :=
  Stable ((application b).calmContract HasContext) (fun _ _ => True) (fun _ _ => True)
    (fun _ s => (application b).InCallback HasContext c s) p

theorem calmly_onConn {c : TcpConnection} {α : Type} {p : ConnM α} (hp : StaysQuiet p) :
    Calmly b c (HttpSession.onConn p) := by
  refine hp.run (HttpSession.connection_lawful _) ?_ fun _ _ => Stable.pure ()
  exact fun _ _ _ hs hq => ⟨hs.quiet.trans hq, hs.ready⟩

theorem calm_messages (b : Bool) (c : TcpConnection) :
    MessageRule ((application b).calmContract HasContext) fun _ s => (application b).InCallback HasContext c s where
  noContext _ _ hs hnone := absurd hnone hs.ready
  context _ _ _ hs := ⟨hs.quiet, by simp [HasContext]⟩
  dispatched _ _ _ hs := ⟨hs.quiet, hs.ready⟩
  parse _ s _ hs := ⟨hs.quiet.trans (TcpConnection.quiet_inputBuffer s.conn _), by simp [HasContext, HttpSession.parse]⟩
  send _ := calmly_onConn (TcpConnection.stable_send TcpConnection.quiet_rule _)
  sendBuffer _ := calmly_onConn (TcpConnection.stable_sendBuffer TcpConnection.quiet_rule _)
  shutdown := calmly_onConn (TcpConnection.stable_shutdown TcpConnection.quiet_rule)

theorem tame (b : Bool) : (application b).Tame HasContext where
  set := rfl
  put _ _ h := h
  opens s₀ s hs := by
    have hs : s.conn.state = .kConnected := hs
    show wp _ _ _ HttpSession.onConnection _ s₀ s
    unfold HttpSession.onConnection
    rw [wp_bind, wp_read, wp_when, if_pos (decide_eq_true hs)]
    exact ⟨.refl _, by simp [HasContext]⟩
  handler u c := (calm_messages b c).handler u

/-! ## The session keeps the output stream -/

theorem lifts_valid (q : SysCall) (a : HttpAnswer) (ha : HttpCall.valid (.sys q) a = true) :
    q.valid a.sysResult = true := by
  cases a with
  | sys r => exact ha
  | response r => cases ha

theorem streams_onConn {α : Type} {p : ConnM α} (hp : Keeps TcpConnection.streamContract p) :
    Keeps (application b).streamContract (HttpSession.onConn p) :=
  Application.stream_run (HttpSession.connection_lawful _) (fun _ => .rfl) (fun _ q a => lifts_valid q a)
    (fun _ _ h => h) (fun _ => Stable.pure ()) hp

theorem stream_messages (b : Bool) : MessageRule (application b).streamContract
    fun _ s => (application b).streamContract.inv s where
  noContext _ _ h _ := TcpConnection.StreamInv.history h
  context _ _ _ h := h
  dispatched _ _ _ h := h
  parse _ _ _ h := TcpConnection.StreamInv.of_eq h rfl rfl
  send _ := streams_onConn (TcpConnection.keeps_send _)
  sendBuffer _ := streams_onConn (TcpConnection.keeps_sendBuffer _)
  shutdown := streams_onConn TcpConnection.keeps_shutdown

theorem streams (b : Bool) : (application b).Streams := ⟨lifts_valid, (stream_messages b).handler⟩

/-! ## The session leaves no output behind -/

theorem draining_onConn {P : Prop} {α : Type} {p : ConnM α}
    (hp : TcpConnection.StaysDrained False P (fun _ _ => True) p) :
    (application b).StaysDraining P (HttpSession.onConn p) :=
  Application.draining_run (HttpSession.connection_lawful _) rfl lifts_valid (fun _ _ => Stable.pure ()) hp

theorem drain_messages (b : Bool) (P : Prop) :
    MessageRule (application b).drainContract ((application b).Draining P) where
  noContext _ _ h _ := h.1
  context _ _ _ h := h
  dispatched _ _ _ h := h
  parse _ _ _ h := ⟨h.1.of_eq rfl rfl rfl rfl, fun hp => (h.2 hp).of_eq rfl rfl rfl⟩
  send _ := draining_onConn (TcpConnection.drained_send (fun _ _ _ => trivial) _)
  sendBuffer _ := draining_onConn (TcpConnection.drained_sendBuffer (fun _ _ _ => trivial) _)
  shutdown := draining_onConn TcpConnection.drained_shutdown

theorem drains (b : Bool) : (application b).Drains :=
  ⟨lifts_valid, fun P u => (drain_messages b P).handler u⟩

/-! ## The session stays registered -/

theorem gently_onConn {c : TcpConnection} {α : Type} {p : ConnM α} (hp : StaysQuiet p) :
    Stable (application b).registeredContract (fun _ _ => True) (fun _ _ => True)
      (fun _ s => Quiet c s.conn) (HttpSession.onConn p) :=
  hp.run (HttpSession.connection_lawful _) (fun _ _ _ h hq => h.trans hq) fun _ _ => Stable.pure ()

theorem gentle_messages (b : Bool) (c : TcpConnection) :
    MessageRule (application b).registeredContract fun _ s => Quiet c s.conn where
  noContext _ _ _ _ := trivial
  context _ _ _ h := h
  dispatched _ _ _ h := h
  parse _ s _ h := h.trans (TcpConnection.quiet_inputBuffer s.conn _)
  send _ := gently_onConn (TcpConnection.stable_send TcpConnection.quiet_rule _)
  sendBuffer _ := gently_onConn (TcpConnection.stable_sendBuffer TcpConnection.quiet_rule _)
  shutdown := gently_onConn (TcpConnection.stable_shutdown TcpConnection.quiet_rule)

theorem gentle (b : Bool) : (application b).Gentle := fun u c => (gentle_messages b c).handler u

/-! ## What the session says -/

theorem talks (F : HttpCallback) (b : Bool) (waits : Prop) :
    (application b).Keeps (talkContract F b waits) fun _ _ => True where
  new _ := ⟨fun _ => ⟨rfl, rfl, rfl, rfl, rfl, rfl, List.not_mem_nil⟩, fun hn => absurd rfl hn⟩
  connectEstablished _ h hs := HttpSession.connectEstablished_talks h hs
  event _ revents h hindex _ := HttpSession.event_talks h revents hindex
  connectDestroyed _ h := HttpSession.connectDestroyed_talks h

/-! ## Results -/

theorem readable_notFound : Readable HttpSession.notFound :=
  ⟨⟨by decide, by decide, nofun, nofun, nofun⟩, List.nodup_nil⟩

theorem Replies.readable {F : HttpCallback} (hF : ∀ request response, F request response → Readable response)
    (request : HttpRequest) (response : HttpResponse) (h : Replies F b request response) : Readable response := by
  unfold HttpSession.Replies at h
  split at h
  · exact hF request response h
  · rw [h]
    exact readable_notFound

theorem Replies.closes {F : HttpCallback} (hF : AlwaysCloses F) : AlwaysCloses (Replies F b) := by
  intro request response h
  unfold HttpSession.Replies at h
  split at h
  · exact hF request response h
  · rw [h]
    rfl

/-- Every request gets an empty page. -/
def EmptyPage (close : Bool) : HttpCallback :=
  fun _ response => response = (HttpResponse.new close).setStatusCode .k200Ok

instance (close : Bool) (request : HttpRequest) (response : HttpResponse) :
    Decidable (EmptyPage close request response) := inferInstanceAs (Decidable (_ = _))

/-- A connection gets two requests in one read, and one more byte. -/
def twoRequests : List (Action Unit HttpAnswer (ServiceLabel Bool)) :=
  let response := (HttpResponse.new false).setStatusCode .k200Ok
  [.start (.accept [5] .EAGAIN) [], .start (.functor true) [],
    .start (.event true 1 kReadEvent) [.sys (.bytes (HttpSession.getRoot ++ HttpSession.getRoot)), .response response,
      .sys (.count response.bytes.length)],
    .start (.event true 1 kReadEvent) [.sys (.bytes [71]), .response response, .sys (.count response.bytes.length)]]

theorem twoRequests_reach :
    ∃ c, (Service.machine (application true) Bool).Reach (Service.each (Answers (EmptyPage false))) c ∧
    c.crashed = none ∧ c.st.server.Created 1 ∧ (c.st.sessions 1).conn.payloads.length = 2 := by
  have hrun : ((Service.machine (application true) Bool).system.run
      ((Service.machine (application true) Bool).Meets (Service.each (Answers (EmptyPage false))))
      (.initial (Service.new _ false [true])) twoRequests).map
      (fun c => (c.crashed, c.st.server.nextConnId, (c.st.sessions 1).conn.payloads.length)) = some (none, 2, 2) := by
    decide +kernel
  obtain ⟨c, hc, heq⟩ := Option.map_eq_some_iff.mp hrun
  obtain ⟨hcrashed, hmade, hsaid⟩ : _ ∧ _ ∧ _ := by simpa only [Prod.mk.injEq] using heq
  have hreach := (Service.machine (application true) Bool).reach_of_run ⟨false, [true], rfl⟩ hc
  exact ⟨c, hreach, hcrashed, ⟨Nat.le_refl 1, by rw [hmade]; decide⟩, hsaid⟩

section
variable {τ : Type} [DecidableEq τ] {F : HttpCallback}
  {c : Config Unit (Service (application b) τ) (Nat × HttpCall) HttpAnswer Empty Fault}

theorem session_talks (h : (Service.machine (application b) τ).Reach (Service.each (Answers F)) c)
    (hc : c.crashed = none) {i : Nat} (hi : c.st.server.Created i) :
    TalkInv F b False (c.st.sessions i) := by
  refine Service.session_inv (talks F b False) ?_ h hc hi
  exact fun _ _ _ hv ha => ⟨hv, ha, False.elim⟩

/-- What has been said on a connection, and how much of it the kernel has taken. -/
theorem session_said (h : (Service.machine (application b) τ).Reach (Service.each (Answers F)) c)
    (hc : c.crashed = none) {i : Nat} (hi : c.st.server.Created i) :
    Transcript (Replies F b) (c.st.sessions i).stream (c.st.sessions i).conn.payloads ∧
      written (c.st.sessions i).conn.trace ++ (c.st.sessions i).conn.outputBuffer.readable =
        (c.st.sessions i).conn.payloads.flatten := by
  have htalk := session_talks h hc hi
  have hstream : TcpConnection.StreamInv (c.st.sessions i).conn :=
    Service.session_inv (streams b).keeps (fun _ _ _ hv _ => hv) h hc hi
  refine ⟨?_, hstream.bytes.trans (TcpConnection.flatten_payloads _).symm⟩
  by_cases hs : (c.st.sessions i).conn.state = .kConnecting
  · obtain ⟨-, -, -, -, -, hnothing, -⟩ := htalk.fresh hs
    rw [hnothing]
    exact .silent _
  · exact (htalk.settled hs).said

theorem session_upto (h : (Service.machine (application b) τ).Reach (Service.each (Answers F)) c)
    (hc : c.crashed = none) {i : Nat} (hi : c.st.server.Created i)
    (hup : (c.st.sessions i).conn.state = .kConnected) :
    ∃ context, (c.st.sessions i).context = some context ∧ Upto F b (c.st.sessions i) context :=
  ((session_talks h hc hi).settled (by rw [hup]; nofun)).upto hup

theorem session_ended (h : (Service.machine (application b) τ).Reach (Service.each (Answers F)) c)
    (hc : c.crashed = none) {i : Nat} (hi : c.st.server.Created i)
    (hclosing : (c.st.sessions i).conn.HalfClosing) :
    Ended (Replies F b) (c.st.sessions i).stream (c.st.sessions i).conn.payloads := by
  have htalk := session_talks h hc hi
  by_cases hs : (c.st.sessions i).conn.state = .kConnecting
  · obtain ⟨-, -, -, -, -, -, hopen⟩ := htalk.fresh hs
    rcases hclosing with hs' | hmem
    · cases hs.symm.trans hs'
    · exact absurd hmem hopen
  · exact ((htalk.settled hs).ended hclosing).2

/-- **A server refines its specification.** On each connection of each loop, what the kernel has taken and what
waits for it are the first answers to what has arrived on that connection, and nothing else. While the connection
is up, its parser goes on behind the last request that is answered; once it is to be shut down, the last answer
has closed it. -/
theorem server_transcript (h : (Service.machine (application b) τ).Reach (Service.each (Answers F)) c)
    (hc : c.crashed = none) {i : Nat} (hi : c.st.server.Created i) :
    written (c.st.sessions i).conn.trace ++ (c.st.sessions i).conn.outputBuffer.readable =
        (c.st.sessions i).conn.payloads.flatten ∧
      Transcript (Replies F b) (c.st.sessions i).stream (c.st.sessions i).conn.payloads ∧
      ((c.st.sessions i).conn.state = .kConnected →
        ∃ context, (c.st.sessions i).context = some context ∧ Upto F b (c.st.sessions i) context) ∧
      ((c.st.sessions i).conn.state = .kDisconnecting →
        Ended (Replies F b) (c.st.sessions i).stream (c.st.sessions i).conn.payloads) := by
  obtain ⟨hsaid, hbytes⟩ := session_said h hc hi
  exact ⟨hbytes, hsaid, session_upto h hc hi, fun hs => session_ended h hc hi (.inl hs)⟩

theorem server_transcript_two :
    ∃ c, (Service.machine (application true) Bool).Reach (Service.each (Answers (EmptyPage false))) c ∧
      (c.st.sessions 1).conn.payloads.length = 2 ∧
      written (c.st.sessions 1).conn.trace ++ (c.st.sessions 1).conn.outputBuffer.readable =
        (c.st.sessions 1).conn.payloads.flatten ∧
      Transcript (Replies (EmptyPage false) true) (c.st.sessions 1).stream (c.st.sessions 1).conn.payloads := by
  obtain ⟨c, hreach, hc, hi, hsaid⟩ := twoRequests_reach
  obtain ⟨hbytes, htranscript, -⟩ := server_transcript hreach hc hi
  exact ⟨c, hreach, hsaid, hbytes, htranscript⟩

/-- **The k-th response answers the k-th request.** However much of its output has reached a client. -/
theorem client_reads_answers (hF : ∀ request response, F request response → Readable response)
    (h : (Service.machine (application b) τ).Reach (Service.each (Answers F)) c) (hc : c.crashed = none) {i : Nat}
    (hi : c.st.server.Created i) {p : List Byte} (hp : p <+: written (c.st.sessions i).conn.trace) :
    ∃ rs : List HttpResponse,
      List.Forall₂ (Replies F b) ((requests (c.st.sessions i).stream).take rs.length) rs ∧
        readAll p = rs.map contents := by
  obtain ⟨hsaid, hbytes⟩ := session_said h hc hi
  refine hsaid.read (Replies.readable hF) (hp.trans ?_)
  rw [← hbytes]
  exact List.prefix_append _ _

theorem client_reads_answers_two :
    ∃ c, (Service.machine (application true) Bool).Reach (Service.each (Answers (EmptyPage false))) c ∧
      (c.st.sessions 1).conn.payloads.length = 2 ∧
      ∃ rs : List HttpResponse,
        List.Forall₂ (Replies (EmptyPage false) true) ((requests (c.st.sessions 1).stream).take rs.length) rs ∧
          readAll (written (c.st.sessions 1).conn.trace) = rs.map contents := by
  obtain ⟨c, hreach, hc, hi, hsaid⟩ := twoRequests_reach
  refine ⟨c, hreach, hsaid, client_reads_answers (fun request response hF => ?_) hreach hc hi List.prefix_rfl⟩
  rw [hF]
  exact ⟨⟨by decide, by decide, nofun, nofun, nofun⟩, List.nodup_nil⟩

/-- What a server that closes after each response has made of a stream: the answer, and the bytes of it. -/
inductive Outcome (F : HttpCallback) (s : HttpSession) (output : List Byte) : Prop
  /-- Nothing is said, and on an open connection there was nothing to answer. -/
  | silent : s.conn.payloads = [] → output = [] → (s.conn.state = .kConnected →
      (parseBytes .new s.stream).1.gotAll = false ∧ (parseBytes .new s.stream).2.2 = true) → Outcome F s output
  | refused : s.conn.payloads = [HttpSession.badRequest] → output = HttpSession.badRequest →
      s.conn.state ≠ .kConnected → (parseBytes .new s.stream).2.2 = false → Outcome F s output
  | answered (response : HttpResponse) : s.conn.payloads = [response.bytes] → output = response.bytes →
      s.conn.state ≠ .kConnected → (parseBytes .new s.stream).1.gotAll = true →
      F (parseBytes .new s.stream).1.request response → Outcome F s output

theorem outcome_of_talking {s : HttpSession} (hF : AlwaysCloses F) (h : Talking F b s) (hprompt : Prompt F b s) :
    Outcome (Replies F b) s s.conn.payloads.flatten := by
  have hcloses := Replies.closes (b := b) hF
  have hopen : s.conn.state = .kConnected → s.conn.payloads = [] := by
    intro hs
    obtain ⟨_, _, _, hkept, _⟩ := h.upto hs
    exact (hkept.of_closes hcloses).1
  have hdown : s.conn.payloads ≠ [] → s.conn.state ≠ .kConnected := fun hne hs => hne (hopen hs)
  generalize hsaid : s.conn.payloads = said at hdown
  have htranscript := h.said
  rw [hsaid] at htranscript
  cases htranscript with
  | silent => exact .silent hsaid rfl (hprompt hcloses)
  | refused hbad => exact .refused hsaid List.flatten_singleton (hdown (by simp)) hbad
  | closing hgot hreply _ => exact .answered _ hsaid List.flatten_singleton (hdown (by simp)) hgot hreply
  | keepAlive _ hreply hkeeps _ => cases hkeeps.symm.trans (hcloses _ _ hreply)

theorem session_outcome (hF : AlwaysCloses F)
    (h : (Service.machine (application b) τ).Reach (Service.each (Answers F)) c) (hc : c.crashed = none) {i : Nat}
    (hi : c.st.server.Created i) :
    Outcome (Replies F b) (c.st.sessions i) (c.st.sessions i).conn.payloads.flatten := by
  have htalk := session_talks h hc hi
  by_cases hs : (c.st.sessions i).conn.state = .kConnecting
  · obtain ⟨-, -, -, -, -, hnothing, -⟩ := htalk.fresh hs
    refine .silent hnothing (by rw [hnothing]; rfl) fun hup => ?_
    cases hs.symm.trans hup
  · exact outcome_of_talking hF (htalk.settled hs).toTalking (htalk.settled hs).prompt

/-- **A server that closes after each response** answers the first request, as soon as it is complete, and
nothing else: what the kernel has taken and what waits for it is that answer. -/
theorem closing_server_outcome (hF : AlwaysCloses F)
    (h : (Service.machine (application b) τ).Reach (Service.each (Answers F)) c) (hc : c.crashed = none) {i : Nat}
    (hi : c.st.server.Created i) :
    Outcome (Replies F b) (c.st.sessions i)
      (written (c.st.sessions i).conn.trace ++ (c.st.sessions i).conn.outputBuffer.readable) := by
  rw [(session_said h hc hi).2]
  exact session_outcome hF h hc hi

theorem closing_server_outcome_one :
    ∃ c, (Service.machine (application true) Bool).system.run
        ((Service.machine (application true) Bool).Meets (Service.each (Answers (EmptyPage true))))
        (.initial (Service.new _ false [true]))
        [.start (.accept [5] .EAGAIN) [], .start (.functor true) [],
          .start (.event true 1 kReadEvent) [.sys (.bytes (HttpSession.getRoot ++ HttpSession.getRoot)),
            .response ((HttpResponse.new true).setStatusCode .k200Ok), .sys (.count 55)]] = some c ∧
      (c.st.sessions 1).conn.payloads.length = 1 ∧
        Outcome (Replies (EmptyPage true) true) (c.st.sessions 1)
          (written (c.st.sessions 1).conn.trace ++ (c.st.sessions 1).conn.outputBuffer.readable) := by
  have hrun : ((Service.machine (application true) Bool).system.run
      ((Service.machine (application true) Bool).Meets (Service.each (Answers (EmptyPage true))))
      (.initial (Service.new _ false [true]))
      [.start (.accept [5] .EAGAIN) [], .start (.functor true) [],
        .start (.event true 1 kReadEvent) [.sys (.bytes (HttpSession.getRoot ++ HttpSession.getRoot)),
          .response ((HttpResponse.new true).setStatusCode .k200Ok), .sys (.count 55)]]).map
      (fun c => (c.crashed, c.st.server.nextConnId, (c.st.sessions 1).conn.payloads.length)) = some (none, 2, 1) := by
    decide +kernel
  obtain ⟨c, hc, heq⟩ := Option.map_eq_some_iff.mp hrun
  obtain ⟨hcrashed, hmade, hsaid⟩ : _ ∧ _ ∧ _ := by simpa only [Prod.mk.injEq] using heq
  have hcloses : AlwaysCloses (EmptyPage true) := by
    rintro _ _ rfl
    rfl
  exact ⟨c, hc, hsaid, closing_server_outcome hcloses (Machine.reach_of_run _ ⟨false, [true], rfl⟩ hc) hcrashed
    ⟨Nat.le_refl 1, by rw [hmade]; decide⟩⟩

/-- **The half-close comes last.** A client that has seen it has been sent all answers, of which the last one has
closed the connection, and gets nothing more; and a connection that shuts down has made it or waits to be
writable. -/
theorem half_close_behind_answers (h : (Service.machine (application b) τ).Reach (Service.each (Answers F)) c)
    (hc : c.crashed = none) {i : Nat} (hi : c.st.server.Created i) :
    (.shutdownWrite ∈ (c.st.sessions i).conn.trace →
      written (c.st.sessions i).conn.trace = (c.st.sessions i).conn.payloads.flatten ∧
        Ended (Replies F b) (c.st.sessions i).stream (c.st.sessions i).conn.payloads) ∧
    (∀ u v, (c.st.sessions i).conn.trace = u ++ .shutdownWrite :: v → written v = []) ∧
    ((c.st.sessions i).conn.state = .kDisconnecting →
      (c.st.sessions i).conn.channel.isWriting = true ∨ .shutdownWrite ∈ (c.st.sessions i).conn.trace) := by
  obtain ⟨-, hbytes⟩ := session_said h hc hi
  have hdrain : (application b).drainContract.inv (c.st.sessions i) :=
    Service.session_inv (drains b).keeps (fun _ _ _ hv _ => hv) h hc hi
  obtain ⟨hdrained, hhalf⟩ := hdrain
  refine ⟨fun hmem => ⟨?_, session_ended h hc hi (.inr hmem)⟩, fun u v heq => (hdrained.complete heq).2, hhalf⟩
  have hempty : (c.st.sessions i).conn.outputBuffer.readable = [] := (hdrained.closed hmem).2.2
  rw [hempty, List.append_nil] at hbytes
  exact hbytes

/-- The kernel takes the response in two parts, and the half-close is made behind the second. -/
theorem half_close_behind_answers_parts :
    ∃ c, (Service.machine (application true) Bool).system.run
        ((Service.machine (application true) Bool).Meets (Service.each (Answers (EmptyPage true))))
        (.initial (Service.new _ false [true]))
        [.start (.accept [5] .EAGAIN) [], .start (.functor true) [],
          .start (.event true 1 kReadEvent) [.sys (.bytes HttpSession.getRoot),
            .response ((HttpResponse.new true).setStatusCode .k200Ok), .sys (.count 50)],
          .start (.event true 1 kWriteEvent) [.sys (.count 5)]] = some c ∧
      .shutdownWrite ∈ (c.st.sessions 1).conn.trace ∧
      ((written (c.st.sessions 1).conn.trace = (c.st.sessions 1).conn.payloads.flatten ∧
          Ended (Replies (EmptyPage true) true) (c.st.sessions 1).stream (c.st.sessions 1).conn.payloads) ∧
        (∀ u v, (c.st.sessions 1).conn.trace = u ++ .shutdownWrite :: v → written v = [])) := by
  have hrun : ((Service.machine (application true) Bool).system.run
      ((Service.machine (application true) Bool).Meets (Service.each (Answers (EmptyPage true))))
      (.initial (Service.new _ false [true]))
      [.start (.accept [5] .EAGAIN) [], .start (.functor true) [],
        .start (.event true 1 kReadEvent) [.sys (.bytes HttpSession.getRoot),
          .response ((HttpResponse.new true).setStatusCode .k200Ok), .sys (.count 50)],
        .start (.event true 1 kWriteEvent) [.sys (.count 5)]]).map
      (fun c => (c.crashed, c.st.server.nextConnId, (c.st.sessions 1).conn.trace.contains .shutdownWrite)) =
        some (none, 2, true) := by decide +kernel
  obtain ⟨c, hc, heq⟩ := Option.map_eq_some_iff.mp hrun
  obtain ⟨hcrashed, hmade, hshut⟩ : _ ∧ _ ∧ _ := by simpa only [Prod.mk.injEq] using heq
  have hmem := List.contains_iff_mem.mp hshut
  obtain ⟨hsaid, hlast, -⟩ := half_close_behind_answers (Machine.reach_of_run _ ⟨false, [true], rfl⟩ hc) hcrashed
    ⟨Nat.le_refl 1, by rw [hmade]; decide⟩
  exact ⟨c, hc, hmem, hsaid hmem, hlast⟩

/-- The poller reports no mask after whose close a connection is still read. -/
def CalmEvents : Machine.Condition HttpSession HttpCall HttpAnswer EventMask where
  label _ := TcpConnection.CalmMask
  answer _ _ _ := True

instance (s : HttpSession) (revents : EventMask) : Decidable (CalmEvents.label s revents) :=
  inferInstanceAs (Decidable (TcpConnection.CalmMask revents))

instance (s : HttpSession) (q : HttpCall) (a : HttpAnswer) : Decidable (CalmEvents.answer s q a) := .isTrue trivial

/-- **No assertion of an `HttpServer` fails.** What may end a run is `accept4`, or a removal behind the
destructor. -/
theorem server_never_aborts (h : (Service.machine (application b) τ).Reach (Service.each CalmEvents) c) {e : Fault}
    (he : c.crashed = some e) : e = .fatalAccept ∨ e = .destroyedServer ∧ c.st.server.phase = .destroyed :=
  (tame b).never_aborts (fun _ _ hcalm => hcalm) h he

end

/-- The peer closes, the server is destroyed, and the removal of the connection comes too late. -/
theorem server_never_aborts_destroyed :
    ∃ c, (Service.machine (application true) Bool).system.run
        ((Service.machine (application true) Bool).Meets (Service.each CalmEvents))
        (.initial (Service.new _ false [true]))
        [.start (.accept [5] .EAGAIN) [], .start (.functor true) [],
          .start (.event true 1 kReadEvent) [.sys (.bytes [])], .start (.destroy [1]) [],
          .start (.functor false) []] = some c ∧
      c.crashed = some .destroyedServer ∧
        (.destroyedServer = Fault.fatalAccept ∨
          .destroyedServer = Fault.destroyedServer ∧ c.st.server.phase = .destroyed) := by
  have hrun : ((Service.machine (application true) Bool).system.run
      ((Service.machine (application true) Bool).Meets (Service.each CalmEvents))
      (.initial (Service.new _ false [true]))
      [.start (.accept [5] .EAGAIN) [], .start (.functor true) [],
        .start (.event true 1 kReadEvent) [.sys (.bytes [])], .start (.destroy [1]) [],
        .start (.functor false) []]).map (fun c => c.crashed) = some (some .destroyedServer) := by decide +kernel
  obtain ⟨c, hc, hcrashed⟩ := Option.map_eq_some_iff.mp hrun
  exact ⟨c, hc, hcrashed, server_never_aborts (Machine.reach_of_run _ ⟨false, [true], rfl⟩ hc) hcrashed⟩

end Agora.HttpServer
