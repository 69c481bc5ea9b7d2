import Mathlib.Data.Int.CardIntervalMod

/-!
# Round robin

Tasks go to workers one after the other, and from the last worker back to the first.
-/

namespace Agora.Lib.RoundRobin

variable {α : Type}

/-- The place behind `k` of `n` places. -/
def advance (n k : Nat) : Nat := if k + 1 ≥ n then 0 else k + 1

theorem advance_mod {n : Nat} (h : 0 < n) (k : Nat) : advance n (k % n) = (k + 1) % n := by
  have hlt := Nat.mod_lt k h
  rw [← Nat.mod_add_mod k n 1]
  unfold advance
  split
  · have hlast : k % n + 1 = n := by omega
    rw [hlast, Nat.mod_self]
  · exact (Nat.mod_eq_of_lt (by omega)).symm

/-- The worker of the task `k`. -/
def worker (workers : List α) (default : α) (k : Nat) : α := workers.getD (k % workers.length) default

theorem worker_eq_iff {workers : List α} (hnodup : workers.Nodup) {default : α} {r k : Nat}
    (hr : r < workers.length) : worker workers default k = workers[r] ↔ k % workers.length = r := by
  have hk : k % workers.length < workers.length := Nat.mod_lt k (Nat.zero_lt_of_lt hr)
  unfold worker
  rw [List.getD_eq_getElem?_getD, List.getElem?_eq_getElem hk, Option.getD_some]
  exact hnodup.getElem_inj_iff

variable [DecidableEq α]

/-- How many of the first `m` tasks a worker has got. -/
def load (workers : List α) (default t : α) (m : Nat) : Nat :=
  Nat.count (fun k => worker workers default k = t) m

theorem load_eq {workers : List α} (hnodup : workers.Nodup) {default : α} {r : Nat} (hr : r < workers.length)
    (m : Nat) : load workers default workers[r] m = m / workers.length + if r < m % workers.length then 1 else 0 := by
  have hcount := Nat.count_modEq_card m (Nat.zero_lt_of_lt hr) r
  rw [Nat.mod_eq_of_lt hr] at hcount
  rw [← hcount]
  unfold load
  congr 1
  funext k
  rw [worker_eq_iff hnodup hr, Nat.ModEq, Nat.mod_eq_of_lt hr]

/-- **The load is balanced**: no worker is more than one task ahead of another. -/
theorem load_balanced {workers : List α} (hnodup : workers.Nodup) {default t u : α} (ht : t ∈ workers)
    (hu : u ∈ workers) (m : Nat) : load workers default t m ≤ load workers default u m + 1 := by
  obtain ⟨r, hr, rfl⟩ := List.getElem_of_mem ht
  obtain ⟨r', hr', rfl⟩ := List.getElem_of_mem hu
  rw [load_eq hnodup hr, load_eq hnodup hr']
  split <;> split <;> omega

end Agora.Lib.RoundRobin
