import Agora.Server.Plain

/-! # The echo server and its client -/

open Agora.Lib Agora.Lib.Prog Agora.Spec

namespace Agora

open PlainSession

/-! ## The server -/

namespace EchoServer

/-- While the connection is up, what has been said is what has been taken. -/
def Echoes : Speech Unit := fun up taken _ said => said.flatten <+: taken ∧ (up = true → said.flatten = taken)

theorem plain : Plain handler (fun msg => onConn (TcpConnection.send msg)) () Echoes where
  down _ _ _ h := ⟨h.1, nofun⟩
  message := rfl
  opens P past s₀ s h hs hconsumed _ hsaid := by
    refine ⟨h, ?_⟩
    unfold Speaks
    rw [hsaid, hconsumed]
    exact ⟨List.prefix_rfl, fun _ => rfl⟩
  reacts P past s₀ s taken msg h htaken hsaid := by
    have hcarries : TcpConnection.Carries (connection fun _ => pure ()) (plainContract () Echoes P past)
        fun s => Settled P past s ∧ Speaks Echoes s :=
      carries (fun _ _ => trivial) (fun _ _ _ _ _ => rfl) fun _ _ _ h => ⟨h.1, nofun⟩
    refine hcarries.send (fun hdown => ⟨h, ?_⟩) fun hup => ⟨?_, ?_⟩
    · have hdown : s.conn.state ≠ .kConnected := hdown
      unfold Speaks
      rw [htaken, decide_eq_false hdown]
      exact ⟨hsaid.1.trans (List.prefix_append _ _), nofun⟩
    · exact ⟨h.connectionCallback, h.messageCallback, h.established, h.taken, h.arrived,
        h.past.trans (List.prefix_append _ _)⟩
    · have hup : s.conn.state = .kConnected := hup
      have hmore : TcpConnection.payloads { s.conn with trace := s.conn.trace ++ [.accepted msg] } =
          s.conn.payloads ++ [msg] := TcpConnection.payloads_snoc s.conn _
      have hsame : (s.conn.payloads ++ [msg]).flatten = s.consumed := by
        rw [List.flatten_append, List.flatten_singleton, hsaid.2 (decide_eq_true hup), htaken]
      show Echoes _ s.consumed _ (TcpConnection.payloads { s.conn with trace := s.conn.trace ++ [.accepted msg] })
      rw [hmore]
      exact ⟨hsame ▸ List.prefix_rfl, fun _ => hsame⟩
  quiet C u s₀ s hm _ := by
    cases u with
    | message => exact absurd rfl hm
    | connection | close | writeComplete => rfl

theorem streams : application.Streams where
  valid _ _ h := h
  handler u := by
    cases u with
    | message =>
      exact Stable.bind streams_retrieveAllAsString fun _ => streams_onConn (TcpConnection.keeps_send _)
    | connection | close | writeComplete => exact Stable.pure ()

theorem session_echoes {τ : Type} [DecidableEq τ]
    {c : Config Unit (Service application τ) (Nat × SysCall) SysResult Empty Fault}
    (h : (Service.machine application τ).Reach (Service.each Machine.anyStep) c) (hc : c.crashed = none) {i : Nat}
    (hi : c.st.server.Created i) : PlainInv () Echoes (fun _ => True) [] (c.st.sessions i) :=
  Service.session_inv ⟨plain.preserves rfl, Plain.new rfl trivial⟩ (fun _ _ _ _ _ _ _ _ _ => trivial) h hc hi

theorem Echoes.of_inv {s : PlainSession Unit} (h : PlainInv () Echoes (fun _ => True) [] s) :
    s.conn.payloads.flatten <+: s.arrived ∧
      (s.conn.state = .kConnected → s.conn.payloads.flatten = s.arrived ∧ s.conn.inputBuffer.readable = []) := by
  by_cases hs : s.conn.state = .kConnecting
  · have hfresh := h.fresh hs
    rw [hfresh.payloads]
    refine ⟨List.nil_prefix, fun hup => ?_⟩
    cases hs.symm.trans hup
  · obtain ⟨hsettled, hsaid⟩ := h.settled hs
    unfold arrived
    rw [hsettled.taken, List.append_nil]
    exact ⟨hsaid.1, fun hup => ⟨hsaid.2 (decide_eq_true hup), rfl⟩⟩

/-- **The echo server echoes.** Whatever its loops do and however the bytes are cut, what it has written and has
yet to write on a connection is a prefix of what has arrived on it, and all of it while the connection is up. -/
theorem server_echoes {τ : Type} [DecidableEq τ]
    {c : Config Unit (Service application τ) (Nat × SysCall) SysResult Empty Fault}
    (h : (Service.machine application τ).Reach (Service.each Machine.anyStep) c) (hc : c.crashed = none) {i : Nat}
    (hi : c.st.server.Created i) :
    written (c.st.sessions i).conn.trace ++ (c.st.sessions i).conn.outputBuffer.readable <+:
        (c.st.sessions i).arrived ∧
      ((c.st.sessions i).conn.state = .kConnected →
        written (c.st.sessions i).conn.trace ++ (c.st.sessions i).conn.outputBuffer.readable =
          (c.st.sessions i).arrived) := by
  have hstream : TcpConnection.StreamInv (c.st.sessions i).conn :=
    Service.session_inv streams.keeps (fun _ _ _ hv _ => hv) h hc hi
  obtain ⟨hsaidBefore, hall⟩ := Echoes.of_inv (session_echoes h hc hi)
  rw [hstream.bytes, ← TcpConnection.flatten_payloads]
  exact ⟨hsaidBefore, fun hup => (hall hup).1⟩

/-- The kernel takes one byte of two. -/
theorem server_echoes_two :
    ∃ c, (Service.machine application Bool).Reach (Service.each Machine.anyStep) c ∧ c.crashed = none ∧
      ((c.st.sessions 1).arrived, written (c.st.sessions 1).conn.trace) = ([97, 98], [97]) ∧
      (written (c.st.sessions 1).conn.trace ++ (c.st.sessions 1).conn.outputBuffer.readable <+:
          (c.st.sessions 1).arrived ∧
        ((c.st.sessions 1).conn.state = .kConnected →
          written (c.st.sessions 1).conn.trace ++ (c.st.sessions 1).conn.outputBuffer.readable =
            (c.st.sessions 1).arrived)) := by
  have hrun : ((Service.machine application Bool).system.run (fun _ _ => True)
      (.initial (Service.new _ false [true, false]))
      [.start (.accept [5, 6] .EAGAIN) [], .start (.functor true) [],
        .start (.event true 1 kReadEvent) [.bytes [97, 98], .count 1],
        .start (.event false 2 kReadEvent) [.bytes [99], .count 1]]).map
      (fun c => (c.crashed, c.st.server.nextConnId, (c.st.sessions 1).arrived,
        written (c.st.sessions 1).conn.trace)) = some (none, 3, [97, 98], [97]) := by decide +kernel
  obtain ⟨c, hc, heq⟩ := Option.map_eq_some_iff.mp hrun
  obtain ⟨hcrashed, hmade, hbytes⟩ : _ ∧ _ ∧ _ := by simpa only [Prod.mk.injEq] using heq
  have hreach := (Service.machine application Bool).reachable_of_run ⟨false, [true, false], rfl⟩ hc
  have hany : (Service.machine application Bool).Reach (Service.each Machine.anyStep) c := by
    rw [Service.each_anyStep]
    exact hreach
  exact ⟨c, hany, hcrashed, by rw [hbytes.1, hbytes.2],
    server_echoes hany hcrashed ⟨Nat.le_refl 1, by rw [hmade]; decide⟩⟩

end EchoServer

/-! ## The client -/

namespace EchoClient

/-- What the client says if every message comes back in one piece. -/
def script : List (List Byte) := [hello, message 1, message 2]

/-- On a connection that is up, one message more has been said than have come back. -/
def Recites : Speech Nat := fun up _ count said =>
  said <+: script ∧ (up = true → count < 3 ∧ said = script.take (count + 1))

theorem carries_recites {P : List Byte → Prop} {past : List ConnEvent}
    {C : Contract (PlainSession Nat) SysCall SysResult Empty Fault} (hfault : ∀ e s, C.tolerates e s) :
    TcpConnection.Carries (connection fun _ => pure ()) C fun s => Settled P past s ∧ Speaks Recites s :=
  carries hfault (fun _ _ _ _ _ => rfl) fun _ _ _ h => ⟨h.1, nofun⟩

theorem script_next {count : Nat} (h : count + 1 < 3) :
    script.take (count + 1) ++ [message (count + 1)] = script.take (count + 2) := by
  rcases count with _ | _ | count
  · rfl
  · rfl
  · omega

theorem utters {P : List Byte → Prop} {past : List ConnEvent}
    {C : Contract (PlainSession Nat) SysCall SysResult Empty Fault}
    (hfault : ∀ e s, C.tolerates e s) {s₀ s : PlainSession Nat} {payload : List Byte} (h : Settled P past s)
    (hdown : s.conn.payloads <+: script) (hup : s.conn.state = .kConnected →
      s.globals < 3 ∧ s.conn.payloads ++ [payload] = script.take (s.globals + 1)) :
    wp C (fun _ _ => True) (fun _ _ => True) (onConn (TcpConnection.send payload))
      (fun _ s' _ => Settled P past s' ∧ Speaks Recites s') s₀ s := by
  refine (carries_recites hfault).send (fun hs => ⟨h, hdown, fun hup' => ?_⟩) fun hs => ⟨?_, ?_⟩
  · exact absurd (of_decide_eq_true hup') hs
  · exact ⟨h.connectionCallback, h.messageCallback, h.established, h.taken, h.arrived,
      h.past.trans (List.prefix_append _ _)⟩
  · obtain ⟨hcount, hsaid⟩ := hup hs
    have hmore : TcpConnection.payloads { s.conn with trace := s.conn.trace ++ [.accepted payload] } =
        s.conn.payloads ++ [payload] := TcpConnection.payloads_snoc s.conn _
    show Recites _ s.consumed s.globals
      (TcpConnection.payloads { s.conn with trace := s.conn.trace ++ [.accepted payload] })
    rw [hmore, hsaid]
    exact ⟨List.take_prefix _ _, fun _ => ⟨hcount, rfl⟩⟩

/-- The message callback behind `retrieveAllAsString`. -/
def react (_ : List Byte) : PlainM Nat Unit := do
  modify fun s => { s with globals := s.globals + 1 }
  let s ← read
  if s.globals < 3 then onConn (TcpConnection.send (message s.globals))
  else onConn TcpConnection.shutdown

theorem plain : Plain handler react 0 Recites where
  down _ _ _ h := ⟨h.1, nofun⟩
  message := rfl
  opens P past s₀ s h hs _ hcount hsaid := by
    show wp _ _ _ onConnection _ s₀ s
    unfold onConnection
    rw [wp_bind, wp_read, wp_when, if_pos (decide_eq_true hs)]
    refine utters (fun _ _ => trivial) h ?_ fun _ => ?_
    · rw [hsaid]
      exact List.nil_prefix
    · rw [hsaid, hcount]
      exact ⟨by decide, rfl⟩
  reacts P past s₀ s taken msg h _ hsaid := by
    obtain ⟨hsaidBefore, hup⟩ := hsaid
    have hnext : Settled P past { s with globals := s.globals + 1 } :=
      ⟨h.connectionCallback, h.messageCallback, h.established, h.taken, h.arrived, h.past⟩
    unfold react
    rw [wp_bind, wp_modify, wp_bind, wp_read, wp_ite]
    split
    · rename_i hless
      have hless : s.globals + 1 < 3 := hless
      refine utters (fun _ _ => trivial) hnext hsaidBefore fun hs => ⟨hless, ?_⟩
      show s.conn.payloads ++ [message (s.globals + 1)] = _
      rw [(hup (decide_eq_true hs)).2, script_next hless]
    · -- The third message has come back.
      have hcarries : TcpConnection.Carries (connection fun _ => pure ()) (plainContract 0 Recites P past)
          fun s => Settled P past s ∧ Speaks (fun _ _ _ said => said <+: script) s :=
        carries (fun _ _ => trivial) (fun _ _ _ _ _ => rfl) fun _ _ _ h => h
      refine wp_mono (hcarries.shutdown (fun _ => ⟨hnext, hsaidBefore⟩) fun _ => ⟨?_, hsaidBefore⟩) ?_
      · exact ⟨h.connectionCallback, h.messageCallback, nofun, h.taken, h.arrived, h.past⟩
      rintro _ s' _ ⟨⟨hsettled, hsaid⟩, hdown⟩
      exact ⟨hsettled, hsaid, fun hup' => absurd (of_decide_eq_true hup') hdown⟩
  quiet C u s₀ s hm hc := by
    cases u with
    | message => exact absurd rfl hm
    | connection =>
      show wp _ _ _ onConnection _ s₀ s
      unfold onConnection
      rw [wp_bind, wp_read, wp_when, if_neg (by simpa using hc rfl)]
    | close | writeComplete => rfl

theorem streams : application.Streams where
  valid _ _ h := h
  handler u := by
    have hsend : ∀ payload, Keeps application.streamContract (onConn (TcpConnection.send payload)) :=
      fun payload => streams_onConn (TcpConnection.keeps_send payload)
    cases u with
    | connection => exact Stable.bind Stable.read fun _ => Stable.when (hsend _)
    | message =>
      refine Stable.bind streams_retrieveAllAsString fun _ => ?_
      refine Stable.bind (streams_modify fun _ => ⟨rfl, rfl⟩) fun _ => Stable.bind Stable.read fun s => ?_
      exact Stable.ite (hsend _) (streams_onConn TcpConnection.keeps_shutdown)
    | close | writeComplete => exact Stable.pure ()

end EchoClient

/-! ## Both ends -/

namespace Echo

/-- **The client hears itself.** In every run of the client and the server, whatever TCP makes of the pieces, the
client says at most its three messages, the server writes what it has heard, and the client hears what it has
said. -/
theorem client_hears_itself
    {c : Config Unit (Wire (PlainSession Nat) (PlainSession Unit)) (Bool × SysCall) SysResult Empty Fault}
    (h : (Wire.machine EchoClient.application EchoServer.application).Reach
      (Wire.Delivers EchoClient.application EchoServer.application ⟨arrived, arrived⟩) c) (hc : c.crashed = none) :
    c.st.near.conn.payloads <+: EchoClient.script ∧
      c.st.near.arrived <+: written c.st.far.conn.trace ∧
      written c.st.far.conn.trace <+: c.st.far.arrived ∧
      c.st.far.arrived <+: written c.st.near.conn.trace ∧
      written c.st.near.conn.trace <+: EchoClient.script.flatten := by
  obtain ⟨hnear, hfar, hnearHears, hfarHears⟩ :=
    Wire.reach_inv (EchoClient.plain.endpoint rfl) (EchoServer.plain.endpoint rfl) h hc
  obtain ⟨hnearStream, hfarStream⟩ := Wire.reach_keeps EchoClient.streams.keeps EchoServer.streams.keeps
    (fun _ _ _ hv => hv) (fun _ _ _ hv => hv) h hc
  have hnearStream : TcpConnection.StreamInv c.st.near.conn := hnearStream
  have hfarStream : TcpConnection.StreamInv c.st.far.conn := hfarStream
  have hscript : c.st.near.conn.payloads <+: EchoClient.script := by
    by_cases hs : c.st.near.conn.state = .kConnecting
    · rw [(hnear.fresh hs).payloads]
      exact List.nil_prefix
    · exact (hnear.settled hs).2.1
  refine ⟨hscript, hnearHears, ?_, hfarHears, ?_⟩
  · refine List.IsPrefix.trans ?_ (EchoServer.Echoes.of_inv hfar).1
    rw [TcpConnection.flatten_payloads, ← hfarStream.bytes]
    exact List.prefix_append _ _
  · refine List.IsPrefix.trans ?_ (List.IsPrefix.flatten hscript)
    rw [TcpConnection.flatten_payloads, ← hnearStream.bytes]
    exact List.prefix_append _ _

/-- The first message comes back in two pieces, so that the client takes it for two. -/
theorem client_hears_itself_pieces :
    ∃ c, (Wire.machine EchoClient.application EchoServer.application).system.run
        ((Wire.machine EchoClient.application EchoServer.application).Meets
          (Wire.Delivers EchoClient.application EchoServer.application ⟨arrived, arrived⟩))
        (.initial ⟨⟨.new 3 true true true false, 0, []⟩, ⟨.new 4 true true true false, (), []⟩⟩)
        [.start (.near .connectEstablished) [.count 23], .start (.far .connectEstablished) [],
          .start (.far (.event kReadEvent)) [.bytes EchoClient.hello, .count 23],
          .start (.near (.event kReadEvent)) [.bytes (EchoClient.hello.take 5), .count 10],
          .start (.near (.event kReadEvent)) [.bytes (EchoClient.hello.drop 5), .count 10]] = some c ∧
      c.st.near.globals = 2 ∧
      (c.st.near.conn.payloads <+: EchoClient.script ∧
        c.st.near.arrived <+: written c.st.far.conn.trace ∧
        written c.st.far.conn.trace <+: c.st.far.arrived ∧
        c.st.far.arrived <+: written c.st.near.conn.trace ∧
        written c.st.near.conn.trace <+: EchoClient.script.flatten) := by
  have hrun : ((Wire.machine EchoClient.application EchoServer.application).system.run
      ((Wire.machine EchoClient.application EchoServer.application).Meets
        (Wire.Delivers EchoClient.application EchoServer.application ⟨arrived, arrived⟩))
      (.initial ⟨⟨.new 3 true true true false, 0, []⟩, ⟨.new 4 true true true false, (), []⟩⟩)
      [.start (.near .connectEstablished) [.count 23], .start (.far .connectEstablished) [],
        .start (.far (.event kReadEvent)) [.bytes EchoClient.hello, .count 23],
        .start (.near (.event kReadEvent)) [.bytes (EchoClient.hello.take 5), .count 10],
        .start (.near (.event kReadEvent)) [.bytes (EchoClient.hello.drop 5), .count 10]]).map
      (fun c => (c.crashed, c.st.near.globals)) = some (none, 2) := by decide +kernel
  obtain ⟨c, hc, heq⟩ := Option.map_eq_some_iff.mp hrun
  obtain ⟨hcrashed, hcount⟩ : _ ∧ _ := by simpa only [Prod.mk.injEq] using heq
  exact ⟨c, hc, hcount, client_hears_itself
    ((Wire.machine _ _).reach_of_run ⟨⟨3, rfl⟩, 4, rfl⟩ hc) hcrashed⟩

end Echo

end Agora
