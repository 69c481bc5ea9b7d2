import Agora.Lib.RoundRobin
import Agora.Server.Rules

/-! # Which loop a connection gets -/

open Agora.Lib Agora.Lib.Prog

namespace Agora.TcpServer

variable {τ : Type}

/-- The connections have got the loops one after the other. -/
structure InTurn (s : TcpServer τ) : Prop where
  made : 0 < s.nextConnId
  next : s.loops ≠ [] → s.next = (s.nextConnId - 1) % s.loops.length
  loopOf : ∀ i, s.Created i → s.loopOf i = RoundRobin.worker s.loops s.loop (i - 1)

def turnContract : Contract (TcpServer τ) ServerCall SysResult (Nat × Callback) Fault where
  inv := InTurn
  pre _ _ := True
  tolerates _ := InTurn
  allow _ _ _ := True

theorem InTurn.of_same {s s' : TcpServer τ} (h : InTurn s) (hloop : s'.loop = s.loop) (hloops : s'.loops = s.loops)
    (hnext : s'.next = s.next) (hmade : s'.nextConnId = s.nextConnId) (hloopOf : s'.loopOf = s.loopOf) :
    InTurn s' := by
  refine ⟨hmade ▸ h.made, fun hne => ?_, fun i hi => ?_⟩
  · rw [hnext, hmade, hloops]
    exact h.next (hloops ▸ hne)
  · unfold Created at hi
    rw [hmade] at hi
    rw [hloopOf, hloops, hloop]
    exact h.loopOf i hi

theorem new_inTurn (loop : τ) (loops : List τ) (a b c : Bool) : InTurn (new loop loops a b c) := by
  refine ⟨Nat.one_pos, fun _ => (Nat.zero_mod _).symm, fun i hi => ?_⟩
  exact absurd hi.2 (Nat.not_lt.mpr hi.1)

theorem InTurn.accept {s : TcpServer τ} (h : InTurn s) (sockfd : Nat) :
    InTurn (accepted sockfd s.getNextLoop.1 s.getNextLoop.2 s) := by
  have hturn : s.getNextLoop.1 = RoundRobin.worker s.loops s.loop (s.nextConnId - 1) ∧
      (s.loops ≠ [] → s.getNextLoop.2 = s.nextConnId % s.loops.length) := by
    unfold getNextLoop
    cases hloops : s.loops with
    | nil => exact ⟨rfl, fun hne => absurd rfl hne⟩
    | cons t rest =>
      have hne : s.loops ≠ [] := by
        rw [hloops]
        exact List.cons_ne_nil t rest
      have hnext := h.next hne
      rw [hloops] at hnext
      have hadvance := RoundRobin.advance_mod (n := (t :: rest).length) (Nat.succ_pos _) (s.nextConnId - 1)
      rw [← hnext, Nat.sub_add_cancel h.made] at hadvance
      refine ⟨?_, fun _ => hadvance⟩
      unfold RoundRobin.worker
      rw [← hnext]
  refine ⟨Nat.succ_pos _, fun hne => ?_, fun i hi => ?_⟩
  · show s.getNextLoop.2 = (s.nextConnId + 1 - 1) % s.loops.length
    rw [Nat.add_sub_cancel]
    exact hturn.2 hne
  · rcases (created_accepted h.made).mp hi with hold | rfl
    · rw [accepted_loopOf hold.ne_next]
      exact h.loopOf i hold
    · exact (Function.update_self ..).trans hturn.1

theorem turn_emit (e : ServerEvent τ) : Keeps turnContract (emit e) :=
  Keeps.modify fun _ h => h.of_same rfl rfl rfl rfl rfl

variable [DecidableEq τ]

theorem turn_queueInLoop (t : τ) (f : ServerFunctor) : Keeps turnContract (queueInLoop t f) :=
  Keeps.modify fun _ h => h.of_same rfl rfl rfl rfl rfl

theorem turn_removeConnectionInLoop (i : Nat) : Keeps (turnContract (τ := τ)) (removeConnectionInLoop i) := by
  refine Stable.bind (turn_emit _) fun _ => Stable.bind Stable.read fun s => ?_
  refine Stable.bind (Keeps.assert fun _ h => h) fun _ => ?_
  exact Stable.bind (Keeps.modify fun _ h => h.of_same rfl rfl rfl rfl rfl) fun _ => turn_queueInLoop _ _

theorem turn_handler (me : τ) (i : Nat) (u : Callback) : Keeps turnContract (handler me i u) := by
  have huser : Keeps (turnContract (τ := τ)) (callback (i, u)) :=
    Stable.callback (fun _ _ h => ⟨h, trivial, trivial⟩) fun _ _ h _ => h
  cases u with
  | close =>
    refine Stable.bind (turn_emit _) fun _ => Stable.bind Stable.read fun s => ?_
    refine Stable.bind (Keeps.assert fun _ h => h) fun _ => ?_
    exact Stable.ite (turn_removeConnectionInLoop i) (turn_queueInLoop _ _)
  | connection | message | writeComplete => exact huser

theorem turn_onConn {α : Type} (me : τ) (i : Nat) (p : ConnM α) : Keeps turnContract (onConn me i p) :=
  (connPart i (handler me i)).keeps_run (Embedding.calls_any p) (connPart_lawful i _)
    (fun _ _ h => h.of_same rfl rfl rfl rfl rfl) (fun _ _ h => h) fun u _ => turn_handler me i u

theorem turn_connectEstablished (me : τ) (i : Nat) : Keeps turnContract (connectEstablished me i) :=
  Stable.bind (turn_emit _) fun _ => turn_onConn me i _

theorem turn_connectDestroyed (me : τ) (i : Nat) : Keeps turnContract (connectDestroyed me i) :=
  Stable.bind (turn_emit _) fun _ => turn_onConn me i _

theorem turn_newConnection (me : τ) (sockfd : Nat) : Keeps turnContract (newConnection me sockfd) := by
  intro s₀ s h
  unfold newConnection
  simp only [wp_bind, wp_read, wp_modify]
  refine Stable.ite (turn_connectEstablished me _) (turn_queueInLoop _ _) s₀ _ ?_
  exact h.accept sockfd

theorem turn_destroyConnections (me : τ) (entries : List Nat) : Keeps turnContract (destroyConnections me entries) := by
  induction entries with
  | nil => exact Stable.pure ()
  | cons i rest ih =>
    refine Stable.bind Stable.read fun s => Stable.bind (Stable.when ?_) fun _ => ih
    refine Stable.bind (Keeps.modify fun _ h => h.of_same rfl rfl rfl rfl rfl) fun _ => ?_
    exact Stable.ite (turn_connectDestroyed me i) (turn_queueInLoop _ _)

theorem turn_entry {label : ServerLabel τ} {s : TcpServer τ} {p : ServerM τ Unit} (hp : entry label s = some p) :
    Keeps turnContract p := by
  cases label with
  | newConnection me sockfd =>
    obtain ⟨-, hp⟩ := Option.ite_none_right_eq_some.mp hp
    obtain rfl := Option.some.inj hp
    exact turn_newConnection me sockfd
  | functor me =>
    unfold entry at hp
    simp only at hp
    split at hp
    · cases hp
    · rename_i f rest _
      obtain rfl := Option.some.inj hp
      refine Stable.bind (Keeps.modify fun _ h => h.of_same rfl rfl rfl rfl rfl) fun _ => ?_
      cases f with
      | connectEstablished i => exact turn_connectEstablished me i
      | connectDestroyed i => exact turn_connectDestroyed me i
      | removeConnectionInLoop i => exact turn_removeConnectionInLoop i
  | conn me i label =>
    obtain ⟨-, -, -, rfl⟩ := entry_conn hp
    exact turn_onConn me i _
  | destroy me entries =>
    obtain ⟨-, hp⟩ := Option.ite_none_right_eq_some.mp hp
    obtain rfl := Option.some.inj hp
    refine Stable.bind (turn_emit _) fun _ => ?_
    refine Stable.bind (Keeps.modify fun _ h => h.of_same rfl rfl rfl rfl rfl) fun _ => ?_
    refine Stable.bind (turn_destroyConnections me entries) fun _ => ?_
    exact Keeps.modify fun _ h => h.of_same rfl rfl rfl rfl rfl

/-- How many connections a loop has got so far. -/
def assigned (s : TcpServer τ) (t : τ) : Nat := Nat.count (fun k => s.loopOf (k + 1) = t) (s.nextConnId - 1)

/-- **Loops are assigned in turn.** In every run, and whatever the users do in between, the connection `i` has got
the loop that is due, so that of two different IO loops neither is more than one connection ahead. -/
theorem loops_in_turn {c : Config τ (TcpServer τ) ServerCall SysResult (Nat × Callback) Fault}
    (h : (machine τ).Reachable c) :
    (∀ i, c.st.Created i → c.st.loopOf i = RoundRobin.worker c.st.loops c.st.loop (i - 1)) ∧
      (c.st.loops.Nodup → ∀ t ∈ c.st.loops, ∀ u ∈ c.st.loops, c.st.assigned t ≤ c.st.assigned u + 1) := by
  have hkeeps : (machine τ).Keeps turnContract (fun _ _ _ => True) Machine.anyStep := by
    refine .of_inv ?_ (fun _ _ _ _ _ => trivial) fun label s p hp _ hs => turn_entry hp s s hs
    rintro _ ⟨loop, loops, a, b, d, rfl⟩
    exact new_inTurn loop loops a b d
  have hturn : InTurn c.st := by
    have hok := hkeeps.runOk h
    cases hc : c.crashed with
    | none => exact hok.inv hc
    | some e => exact hok.crash e hc
  refine ⟨hturn.loopOf, fun hnodup t ht u hu => ?_⟩
  have hload : ∀ t, c.st.assigned t = RoundRobin.load c.st.loops c.st.loop t (c.st.nextConnId - 1) := by
    intro t
    unfold assigned RoundRobin.load
    simp only [Nat.count_eq_card_filter_range]
    congr 1
    refine Finset.filter_congr fun k hk => ?_
    have hk := Finset.mem_range.mp hk
    rw [hturn.loopOf (k + 1) ⟨Nat.succ_pos k, by omega⟩]
    rfl
  rw [hload t, hload u]
  exact RoundRobin.load_balanced hnodup ht hu _

/-- Three connections, on two loops beside the base loop. -/
theorem loops_in_turn_three :
    ∃ c : Config Nat (TcpServer Nat) ServerCall SysResult (Nat × Callback) Fault,
      (machine Nat).Reachable c ∧ (c.st.nextConnId, c.st.assigned 1, c.st.assigned 2) = (4, 2, 1) ∧
      ((∀ i, c.st.Created i → c.st.loopOf i = RoundRobin.worker c.st.loops c.st.loop (i - 1)) ∧
        (c.st.loops.Nodup → ∀ t ∈ c.st.loops, ∀ u ∈ c.st.loops, c.st.assigned t ≤ c.st.assigned u + 1)) := by
  have hrun : ((machine Nat).system.run (fun _ _ => True) (.initial (new 0 [1, 2] false false false))
      [.start (.newConnection 0 5) [], .start (.newConnection 0 6) [], .start (.functor 1) [],
        .start (.newConnection 0 7) []]).map
      (fun c => (c.st.nextConnId, c.st.assigned 1, c.st.assigned 2)) = some (4, 2, 1) := by decide +kernel
  obtain ⟨c, hc, heq⟩ := Option.map_eq_some_iff.mp hrun
  have hreach := (machine Nat).reachable_of_run ⟨0, [1, 2], false, false, false, rfl⟩ hc
  exact ⟨c, hreach, heq, loops_in_turn hreach⟩

end Agora.TcpServer
