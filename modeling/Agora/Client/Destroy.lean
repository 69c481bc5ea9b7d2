import Agora.Code.TcpClient

/-! # What `~TcpClient` leaves behind -/

open Agora.Lib Agora.Lib.Prog

namespace Agora.TcpClient

/-- The loop has nothing of the connector: no functor, no timer, and no channel of it is registered. -/
def LeavesNothing (k : Connector) : Prop :=
  k.pendingFunctors = [] ∧ k.functors = [] ∧ k.timers = [] ∧
    ∀ ch ∈ k.channel, k.registered ch.fd = false

/-- The destructor takes nothing back that the connector has queued or armed, and queues `stopInLoop`. -/
structure Destroyed (s s' : TcpClient) : Prop where
  alive : s'.alive = false
  functors : s'.connector.functors = s.connector.functors
  pendingFunctors : s'.connector.pendingFunctors = s.connector.pendingFunctors ++ [.stopInLoop]
  timers : s'.connector.timers = s.connector.timers
  channel : s'.connector.channel = s.connector.channel
  registered : s'.connector.registered = s.connector.registered

/-- Where the destructor ends: with an attempt in flight, in the assertion of `~Connector`. -/
def destroyContract (s : TcpClient) :
    Contract TcpClient ClientCall ClientAnswer (Nat × Callback) Fault where
  inv _ := False
  pre _ _ := False
  tolerates e s' := Destroyed s s' ∧ e = .assertConnector ∧
    ∃ ch ∈ s.connector.channel, ch.isNoneEvent = false
  allow _ _ _ := True

theorem destroyed_wp {s s' : TcpClient} (h : Destroyed s s') (s₀ : TcpClient) :
    wp (destroyContract s) (fun _ _ => False) (fun _ _ => True) destroyConnector
      (fun _ s' _ => Destroyed s s' ∧ s.connector.channel.all Channel.isNoneEvent = true) s₀ s' := by
  unfold destroyConnector
  rw [wp_bind, wp_read, wp_assert, h.channel]
  split
  · rename_i hnone
    exact ⟨h, hnone⟩
  · rename_i hsome
    cases hch : s.connector.channel with
    | none =>
      rw [hch] at hsome
      exact absurd rfl hsome
    | some ch =>
      rw [hch] at hsome
      exact ⟨h, rfl, ch, hch, eq_false_of_ne_true hsome⟩

theorem destroy_wp (s : TcpClient) :
    wp (destroyContract s) (fun _ _ => False) (fun _ _ => True) destroy
      (fun _ s' _ => Destroyed s s' ∧ s.connector.channel.all Channel.isNoneEvent = true) s s := by
  unfold destroy onConnector Connector.stop Connector.emit Connector.queueInLoop setCloseCallback
  simp only [wp_bind, wp_read, Embedding.wp_run_bind, Embedding.wp_run_modify]
  cases hconn : s.connection with
  | none =>
    simp only [connectorPart, setConnector, hconn]
    refine destroyed_wp ?_ s
    exact ⟨rfl, rfl, rfl, rfl, rfl, rfl⟩
  | some i =>
    simp only [connectorPart, setConnector, hconn, wp_bind, wp_modify]
    refine destroyed_wp ?_ s
    exact ⟨rfl, rfl, rfl, rfl, rfl, rfl⟩

/-- **Every destruction of a client leaves `stopInLoop` behind**, with all that was queued and armed before,
and it aborts if an attempt is in flight. -/
theorem destroy_leaves_stopInLoop {c c' : Config Unit TcpClient ClientCall ClientAnswer (Nat × Callback) Fault}
    {answers : List ClientAnswer} (hs : machine.step c (.start .destroy answers) = some c') :
    ¬ LeavesNothing c'.st.connector ∧ Destroyed c.st c'.st ∧
      (c'.crashed = some .assertConnector ↔ ∃ ch ∈ c.st.connector.channel, ch.isNoneEvent = false) := by
  obtain ⟨p, stop, hp, he, rfl⟩ := machine.step_start hs
  obtain ⟨-, hp⟩ := Option.ite_none_right_eq_some.mp hp
  obtain rfl := Option.some.inj hp
  have hstop := exec_sound (fun _ _ _ _ _ => trivial) (destroy_wp c.st)
    (Machine.meets_anyStep_prog destroy c.st answers) he
  have hleaves : ∀ {s' : TcpClient}, Destroyed c.st s' → ¬ LeavesNothing s'.connector := by
    rintro s' hd ⟨hnone, -⟩
    rw [hd.pendingFunctors] at hnone
    exact absurd hnone (List.append_ne_nil_of_right_ne_nil _ (List.cons_ne_nil _ _))
  cases stop with
  | done s' _ =>
    obtain ⟨hd, hnone⟩ := hstop
    refine ⟨hleaves hd, hd, nofun, ?_⟩
    rintro ⟨ch, hch, hev⟩
    rw [Option.mem_def.mp hch] at hnone
    exact nomatch hnone.symm.trans hev
  | called s' u k => exact hstop.1.1.elim
  | faulted s' e =>
    obtain ⟨hd, rfl, hflight⟩ := hstop
    exact ⟨hleaves hd, hd, fun _ => hflight, fun _ => rfl⟩

/-- A client that was never connected. -/
theorem destroy_leaves_stopInLoop_new :
    ∃ c', machine.step (.initial (new true true true)) (.start .destroy []) = some c' ∧
      ¬ LeavesNothing c'.st.connector := by
  have hstep : (machine.step (.initial (new true true true)) (.start .destroy [])).isSome = true := by
    decide +kernel
  obtain ⟨c', hc⟩ := Option.isSome_iff_exists.mp hstep
  exact ⟨c', hc, (destroy_leaves_stopInLoop hc).1⟩

/-- While a retry waits, its `startInLoop` is left behind too, and the timer calls a connector that does
not exist. -/
theorem destroyed_connector_called :
    (∃ c, machine.Reachable c ∧ c.st.alive = false ∧ ¬ LeavesNothing c.st.connector) ∧
      ∃ c, machine.Reachable c ∧ c.crashed = some .destroyedConnector := by
  have hleft : (machine.system.run (fun _ _ => True) (.initial (new true true true))
      [.start .connect [.errno 111], .start .destroy []]).map
      (fun c => (c.st.alive, c.st.connector.pendingFunctors, c.st.connector.timers)) =
        some (false, [.stopInLoop], [500]) := by decide +kernel
  have hcalled : (machine.system.run (fun _ _ => True) (.initial (new true true true))
      [.start .connect [.errno 111], .start .destroy [], .start (.connector (.timer 0)) []]).map
      Config.crashed = some (some .destroyedConnector) := by decide +kernel
  obtain ⟨c, hc, heq⟩ := Option.map_eq_some_iff.mp hleft
  obtain ⟨halive, hfunctors, -⟩ : _ ∧ _ ∧ _ := by simpa only [Prod.mk.injEq] using heq
  obtain ⟨d, hd, hcrash⟩ := Option.map_eq_some_iff.mp hcalled
  refine ⟨⟨c, machine.reachable_of_run ⟨_, _, _, rfl⟩ hc, halive, ?_⟩,
    d, machine.reachable_of_run ⟨_, _, _, rfl⟩ hd, hcrash⟩
  rintro ⟨hnone, -⟩
  rw [hfunctors] at hnone
  cases hnone

end Agora.TcpClient
