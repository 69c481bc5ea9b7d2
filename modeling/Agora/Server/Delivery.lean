import Agora.Http.Hosted
import Agora.Server.Echo
import Agora.Server.Flush
import Agora.Server.Registered

/-! # That the servers get out what they have to say -/

open Agora.Lib Agora.Lib.Prog Agora.Spec

namespace Agora

variable {τ : Type} [DecidableEq τ]

/-! ## `HttpServer` -/

namespace HttpServer

open HttpSession (Replies Answers Waiting Upto TalkInv)

variable {F : HttpCallback} {b : Bool}

theorem relays (F : HttpCallback) (b : Bool) : (application b).Relays (Answers F) .sys where
  back _ := rfl
  valid _ _ ha := ha
  label _ := trivial
  allow _ _ _ := trivial
  writeComplete := rfl

variable {c : Config Unit (Service (application b) τ) (Nat × HttpCall) HttpAnswer Empty Fault} {i : Nat}

/-- **Every answer is delivered.** From wherever a server has got to, and in whatever portions the kernel takes
the output of an open connection, with the last portion its client has all that has been said: the answers up to
where the parser goes on if the connection is up, or up to one that has closed it, and then the half-close too. -/
theorem answers_delivered (h : (Service.machine (application b) τ).Reach (Service.each (Answers F)) c)
    (hc : c.crashed = none) (hi : c.st.server.Created i) (hopen : (c.st.sessions i).conn.isOpen = true)
    (hindex : (c.st.sessions i).conn.channel.index = .kAdded) {ns : List Nat} (hpos : ∀ n ∈ ns, 0 < n)
    (hsum : ns.sum = (c.st.sessions i).conn.outputBuffer.readable.length) :
    ∃ c', (Service.machine (application b) τ).system.run (fun _ _ => True) c
        (ns.map (Service.writable .sys (c.st.server.loopOf i) i)) = some c' ∧
      (Service.machine (application b) τ).Reach (Service.each (Answers F)) c' ∧ c'.crashed = none ∧
      written (c'.st.sessions i).conn.trace = (c.st.sessions i).conn.payloads.flatten ∧
      Transcript (Replies F b) (c.st.sessions i).stream (c.st.sessions i).conn.payloads ∧
      ((c.st.sessions i).conn.state = .kConnected →
        ∃ context, (c.st.sessions i).context = some context ∧ Upto F b (c.st.sessions i) context) ∧
      ((c.st.sessions i).conn.state = .kDisconnecting →
        Ended (Replies F b) (c.st.sessions i).stream (c.st.sessions i).conn.payloads ∧
          (ns ≠ [] → .shutdownWrite ∈ (c'.st.sessions i).conn.trace)) := by
  obtain ⟨hsaid, hbytes⟩ := session_said h hc hi
  have hdrain := Service.session_inv (drains b).keeps (fun _ _ _ hv _ => hv) h hc hi
  obtain ⟨c', hrun, hreach, hrunning, hwritten, hshut⟩ :=
    Service.delivered (relays F b) h hc hi hdrain hopen hindex hpos hsum
  exact ⟨c', hrun, hreach, hrunning, hwritten.trans hbytes, hsaid, session_upto h hc hi,
    fun hs => ⟨session_ended h hc hi (.inl hs), hshut hs⟩⟩

/-- The kernel has taken 50 bytes of a response, and takes the last five in two portions. -/
theorem answers_delivered_portions :
    ∃ c, (Service.machine (application true) Bool).Reach (Service.each (Answers (EmptyPage true))) c ∧
      (c.st.sessions 1).conn.outputBuffer.readable.length = 5 ∧
      ∃ c', (Service.machine (application true) Bool).system.run (fun _ _ => True) c
          ([2, 3].map (Service.writable .sys (c.st.server.loopOf 1) 1)) = some c' ∧
        written (c'.st.sessions 1).conn.trace = (c.st.sessions 1).conn.payloads.flatten ∧
        Transcript (Replies (EmptyPage true) true) (c.st.sessions 1).stream (c.st.sessions 1).conn.payloads := by
  have hrun : ((Service.machine (application true) Bool).system.run
      ((Service.machine (application true) Bool).Meets (Service.each (Answers (EmptyPage true))))
      (.initial (Service.new _ false [true]))
      [.start (.accept [5] .EAGAIN) [], .start (.functor true) [],
        .start (.event true 1 kReadEvent) [.sys (.bytes HttpSession.getRoot),
          .response ((HttpResponse.new true).setStatusCode .k200Ok), .sys (.count 50)]]).map
      (fun c => (c.crashed, c.st.server.nextConnId, (c.st.sessions 1).conn.isOpen,
        (c.st.sessions 1).conn.channel.index, (c.st.sessions 1).conn.outputBuffer.readable.length)) =
        some (none, 2, true, .kAdded, 5) := by decide +kernel
  obtain ⟨c, hc, heq⟩ := Option.map_eq_some_iff.mp hrun
  obtain ⟨hcrashed, hmade, hopen, hindex, hleft⟩ : _ ∧ _ ∧ _ ∧ _ ∧ _ := by
    simpa only [Prod.mk.injEq] using heq
  have hreach : (Service.machine (application true) Bool).Reach (Service.each (Answers (EmptyPage true))) c :=
    Machine.reach_of_run _ ⟨false, [true], rfl⟩ hc
  have hportions : ∀ n ∈ [2, 3], 0 < n := by decide
  obtain ⟨c', hrun', -, -, hwritten, hsaid, -⟩ :=
    answers_delivered hreach hcrashed ⟨Nat.le_refl 1, by rw [hmade]; decide⟩ hopen
    hindex hportions hleft.symm
  exact ⟨c, hreach, hleft, c', hrun', hwritten, hsaid⟩

theorem waiting_relays (F : HttpCallback) (b : Bool) : (application b).Relays (Waiting F) .sys where
  back _ := rfl
  valid _ _ ha := ha
  label _ := trivial
  allow _ _ _ := ⟨trivial, trivial⟩
  writeComplete := rfl

theorem session_answered (h : (Service.machine (application b) τ).Reach (Service.each (Waiting F)) c)
    (hc : c.crashed = none) (hi : c.st.server.Created i) (hup : (c.st.sessions i).conn.state = .kConnected) :
    ∃ rs : List HttpResponse, List.Forall₂ (Replies F b) (requests (c.st.sessions i).stream) rs ∧
      (∀ r ∈ rs, r.closeConnection = false) ∧ (c.st.sessions i).conn.payloads = rs.map HttpResponse.bytes := by
  have htalk : TalkInv F b True (c.st.sessions i) := by
    refine Service.session_inv (talks F b True) ?_ h hc hi
    exact fun _ _ _ hv ha => ⟨hv, ha.1, fun _ => ha.2⟩
  have hsettled := htalk.settled (by rw [hup]; nofun)
  obtain ⟨_, _, rest, hkept, _⟩ := hsettled.upto hup
  obtain ⟨rs, hsaid, hopens, hrs⟩ := hkept.responses
  have hall : (requests (c.st.sessions i).stream).length = rs.length := by
    rw [hsettled.answered trivial hup, hsaid, List.length_map]
  rw [← hall, List.take_length] at hrs
  exact ⟨rs, hrs, hopens, hsaid⟩

/-- **A client that waits for each response is answered.** In whatever portions the kernel takes the output of
a connection that is up, with the last portion there is a response to each complete request, and nothing else. -/
theorem waiting_client_answered (h : (Service.machine (application b) τ).Reach (Service.each (Waiting F)) c)
    (hc : c.crashed = none) (hi : c.st.server.Created i) (hup : (c.st.sessions i).conn.state = .kConnected)
    {ns : List Nat} (hpos : ∀ n ∈ ns, 0 < n)
    (hsum : ns.sum = (c.st.sessions i).conn.outputBuffer.readable.length) :
    ∃ rs : List HttpResponse, List.Forall₂ (Replies F b) (requests (c.st.sessions i).stream) rs ∧
      (∀ r ∈ rs, r.closeConnection = false) ∧
      ∃ c', (Service.machine (application b) τ).system.run (fun _ _ => True) c
          (ns.map (Service.writable .sys (c.st.server.loopOf i) i)) = some c' ∧
        (Service.machine (application b) τ).Reach (Service.each (Waiting F)) c' ∧ c'.crashed = none ∧
        written (c'.st.sessions i).conn.trace = (rs.map HttpResponse.bytes).flatten ∧
        ((∀ request response, F request response → Readable response) →
          readAll (written (c'.st.sessions i).conn.trace) = rs.map contents) := by
  obtain ⟨rs, hrs, hopens, hsaid⟩ := session_answered h hc hi hup
  have hdrain := Service.session_inv (drains b).keeps (fun _ _ _ hv _ => hv) h hc hi
  have hreading : (c.st.sessions i).conn.channel.Reading :=
    Service.session_inv (gentle b).keeps (fun _ _ _ _ _ => trivial) h hc hi hup
  have hstream : TcpConnection.StreamInv (c.st.sessions i).conn :=
    Service.session_inv (streams b).keeps (fun _ _ _ hv _ => hv) h hc hi
  have hopen : (c.st.sessions i).conn.isOpen = true := by simp [TcpConnection.isOpen, hup]
  obtain ⟨c', hrun, hreach, hrunning, hwritten, -⟩ :=
    Service.delivered (waiting_relays F b) h hc hi hdrain hopen hreading.1 hpos hsum
  have hall : written (c'.st.sessions i).conn.trace = (rs.map HttpResponse.bytes).flatten := by
    refine hwritten.trans ?_
    show written (c.st.sessions i).conn.trace ++ (c.st.sessions i).conn.outputBuffer.readable = _
    rw [hstream.bytes, ← TcpConnection.flatten_payloads, hsaid]
  refine ⟨rs, hrs, hopens, c', hrun, hreach, hrunning, hall, fun hF => ?_⟩
  rw [hall]
  exact readAll_flatten (readable_of_answers (Replies.readable hF) hrs)

/-- A client sends a request, and the next one, in two pieces, behind the response to the first. Of the second
response the kernel has taken 50 bytes. -/
theorem waiting_client_answered_two :
    ∃ c, (Service.machine (application true) Bool).Reach (Service.each (Waiting (EmptyPage false))) c ∧
      (requests (c.st.sessions 1).stream).length = 2 ∧
      ∃ rs : List HttpResponse,
        List.Forall₂ (Replies (EmptyPage false) true) (requests (c.st.sessions 1).stream) rs ∧
        ∃ c', (Service.machine (application true) Bool).system.run (fun _ _ => True) c
            ([2, 8].map (Service.writable .sys (c.st.server.loopOf 1) 1)) = some c' ∧
          written (c'.st.sessions 1).conn.trace = (rs.map HttpResponse.bytes).flatten ∧
          readAll (written (c'.st.sessions 1).conn.trace) = rs.map contents := by
  have hrun : ((Service.machine (application true) Bool).system.run
      ((Service.machine (application true) Bool).Meets (Service.each (Waiting (EmptyPage false))))
      (.initial (Service.new _ false [true]))
      [.start (.accept [5] .EAGAIN) [], .start (.functor true) [],
        .start (.event true 1 kReadEvent) [.sys (.bytes HttpSession.getRoot),
          .response ((HttpResponse.new false).setStatusCode .k200Ok), .sys (.count 60)],
        .start (.event true 1 kReadEvent) [.sys (.bytes (HttpSession.getRoot.take 3))],
        .start (.event true 1 kReadEvent) [.sys (.bytes (HttpSession.getRoot.drop 3)),
          .response ((HttpResponse.new false).setStatusCode .k200Ok), .sys (.count 50)]]).map
      (fun c => (c.crashed, c.st.server.nextConnId, (c.st.sessions 1).conn.state,
        (requests (c.st.sessions 1).stream).length, (c.st.sessions 1).conn.outputBuffer.readable.length)) =
        some (none, 2, .kConnected, 2, 10) := by decide +kernel
  obtain ⟨c, hc, heq⟩ := Option.map_eq_some_iff.mp hrun
  obtain ⟨hcrashed, hmade, hup, hsent, hleft⟩ : _ ∧ _ ∧ _ ∧ _ ∧ _ := by
    simpa only [Prod.mk.injEq] using heq
  have hreach : (Service.machine (application true) Bool).Reach (Service.each (Waiting (EmptyPage false))) c :=
    Machine.reach_of_run _ ⟨false, [true], rfl⟩ hc
  have hportions : ∀ n ∈ [2, 8], 0 < n := by decide
  obtain ⟨rs, hrs, -, c', hrun', -, -, hwritten, hread⟩ :=
    waiting_client_answered hreach hcrashed ⟨Nat.le_refl 1, by rw [hmade]; decide⟩ hup hportions hleft.symm
  refine ⟨c, hreach, hsent, rs, hrs, c', hrun', hwritten, hread fun request response hF => ?_⟩
  rw [hF]
  exact ⟨⟨by decide, by decide, nofun, nofun, nofun⟩, List.nodup_nil⟩

end HttpServer

/-! ## The echo server -/

namespace EchoServer

open PlainSession

theorem relays : application.Relays Machine.anyStep id where
  back _ := rfl
  valid _ _ ha := ha
  label _ := trivial
  allow _ _ _ := trivial
  writeComplete := rfl

theorem drains : application.Drains where
  valid _ _ ha := ha
  handler P u := by
    cases u with
    | message =>
      refine Stable.bind ?_ fun msg => ?_
      · refine Stable.bind Stable.read fun _ =>
          Stable.bind (Stable.modify fun _ s h => ?_) fun _ => Stable.pure _
        exact ⟨h.1.of_eq rfl rfl rfl rfl, fun hp => (h.2 hp).of_eq rfl rfl rfl⟩
      · refine Application.draining_run (A := application) (connection_lawful fun _ => pure ()) rfl
          (fun _ _ ha => ha) ?_ (TcpConnection.drained_send (fun _ _ _ => trivial) msg)
        exact fun _ _ => Stable.pure ()
    | connection | close | writeComplete => exact Stable.pure ()

theorem gentle : application.Gentle := by
  intro u c
  cases u with
  | message =>
    refine Stable.bind ?_ fun msg => ?_
    · refine Stable.bind Stable.read fun _ =>
        Stable.bind (Stable.modify fun _ s h => ?_) fun _ => Stable.pure _
      exact h.trans (TcpConnection.quiet_inputBuffer s.conn _)
    · exact TcpConnection.StaysQuiet.run (TcpConnection.stable_send TcpConnection.quiet_rule msg)
        (connection_lawful _) (fun _ _ _ h hq => h.trans hq) fun _ _ => Stable.pure ()
  | connection | close | writeComplete => exact Stable.pure ()

variable {c : Config Unit (Service application τ) (Nat × SysCall) SysResult Empty Fault} {i : Nat}

/-- **Every byte is echoed.** In whatever portions the kernel takes the output of a connection that is up, with
the last portion its client has all bytes that have arrived. -/
theorem everything_echoed (h : (Service.machine application τ).Reach (Service.each Machine.anyStep) c)
    (hc : c.crashed = none) (hi : c.st.server.Created i) (hup : (c.st.sessions i).conn.state = .kConnected)
    {ns : List Nat} (hpos : ∀ n ∈ ns, 0 < n)
    (hsum : ns.sum = (c.st.sessions i).conn.outputBuffer.readable.length) :
    ∃ c', (Service.machine application τ).system.run (fun _ _ => True) c
        (ns.map (Service.writable id (c.st.server.loopOf i) i)) = some c' ∧
      (Service.machine application τ).Reach (Service.each Machine.anyStep) c' ∧ c'.crashed = none ∧
      written (c'.st.sessions i).conn.trace = (c.st.sessions i).arrived := by
  have hdrain := Service.session_inv drains.keeps (fun _ _ _ hv _ => hv) h hc hi
  have hreading : (c.st.sessions i).conn.channel.Reading :=
    Service.session_inv gentle.keeps (fun _ _ _ _ _ => trivial) h hc hi hup
  have hstream : TcpConnection.StreamInv (c.st.sessions i).conn :=
    Service.session_inv streams.keeps (fun _ _ _ hv _ => hv) h hc hi
  have hsaid := ((Echoes.of_inv (session_echoes h hc hi)).2 hup).1
  have hopen : (c.st.sessions i).conn.isOpen = true := by simp [TcpConnection.isOpen, hup]
  obtain ⟨c', hrun, hreach, hrunning, hwritten, -⟩ :=
    Service.delivered relays h hc hi hdrain hopen hreading.1 hpos hsum
  refine ⟨c', hrun, hreach, hrunning, hwritten.trans ?_⟩
  show written (c.st.sessions i).conn.trace ++ (c.st.sessions i).conn.outputBuffer.readable = _
  rw [hstream.bytes, ← TcpConnection.flatten_payloads, hsaid]

/-- The kernel has taken one byte of four. -/
theorem everything_echoed_four :
    ∃ c, (Service.machine application Bool).Reach (Service.each Machine.anyStep) c ∧
      (c.st.sessions 1).arrived = [97, 98, 99, 100] ∧
      ∃ c', (Service.machine application Bool).system.run (fun _ _ => True) c
          ([2, 1].map (Service.writable id (c.st.server.loopOf 1) 1)) = some c' ∧
        written (c'.st.sessions 1).conn.trace = (c.st.sessions 1).arrived := by
  have hrun : ((Service.machine application Bool).system.run (fun _ _ => True)
      (.initial (Service.new _ false [true, false]))
      [.start (.accept [5, 6] .EAGAIN) [], .start (.functor true) [],
        .start (.event true 1 kReadEvent) [.bytes [97, 98], .count 1],
        .start (.event true 1 kReadEvent) [.bytes [99, 100]]]).map
      (fun c => (c.crashed, c.st.server.nextConnId, (c.st.sessions 1).arrived,
        (c.st.sessions 1).conn.state, (c.st.sessions 1).conn.outputBuffer.readable.length)) =
        some (none, 3, [97, 98, 99, 100], .kConnected, 3) := by decide +kernel
  obtain ⟨c, hc, heq⟩ := Option.map_eq_some_iff.mp hrun
  obtain ⟨hcrashed, hmade, harrived, hup, hleft⟩ : _ ∧ _ ∧ _ ∧ _ ∧ _ := by
    simpa only [Prod.mk.injEq] using heq
  have hreach := (Service.machine application Bool).reachable_of_run ⟨false, [true, false], rfl⟩ hc
  have hany : (Service.machine application Bool).Reach (Service.each Machine.anyStep) c := by
    rw [Service.each_anyStep]
    exact hreach
  have hportions : ∀ n ∈ [2, 1], 0 < n := by decide
  obtain ⟨c', hrun', -, -, hechoed⟩ :=
    everything_echoed hany hcrashed ⟨Nat.le_refl 1, by rw [hmade]; decide⟩ hup hportions hleft.symm
  exact ⟨c, hany, harrived, c', hrun', hechoed⟩

end EchoServer

end Agora
