import Mathlib.Algebra.BigOperators.Group.Finset.Piecewise
import Mathlib.Algebra.Order.Group.Nat
import Mathlib.Algebra.Ring.Nat

/-!
# Queues of several threads

Each item has a weight, and what waits in the queues of `ts` weighs as much as its items.
-/

namespace Agora.Lib

variable {τ α : Type} (weight : α → Nat) (ts : Finset τ) (queue : τ → List α)

def backlog : Nat := ∑ t ∈ ts, ((queue t).map weight).sum

variable [DecidableEq τ] {ts} {t : τ}

theorem backlog_update (ht : t ∈ ts) (l : List α) :
    backlog weight ts (Function.update queue t l) + ((queue t).map weight).sum =
      backlog weight ts queue + (l.map weight).sum := by
  have hother : ∑ u ∈ ts.erase t, ((Function.update queue t l u).map weight).sum =
      ∑ u ∈ ts.erase t, ((queue u).map weight).sum := by
    refine Finset.sum_congr rfl fun u hu => ?_
    rw [Function.update_of_ne (Finset.ne_of_mem_erase hu)]
  unfold backlog
  rw [← Finset.add_sum_erase ts _ ht, ← Finset.add_sum_erase ts (fun u => ((queue u).map weight).sum) ht,
    hother, Function.update_self]
  omega

variable {weight queue}

theorem backlog_push (ht : t ∈ ts) (a : α) :
    backlog weight ts (Function.update queue t (queue t ++ [a])) = backlog weight ts queue + weight a := by
  have hupdate := backlog_update weight queue ht (queue t ++ [a])
  rw [List.map_append, List.sum_append, List.map_singleton, List.sum_singleton] at hupdate
  omega

theorem backlog_pop {a : α} {rest : List α} (ht : t ∈ ts) (hq : queue t = a :: rest) :
    backlog weight ts (Function.update queue t rest) + weight a = backlog weight ts queue := by
  have hupdate := backlog_update weight queue ht rest
  rw [hq, List.map_cons, List.sum_cons] at hupdate
  omega

end Agora.Lib
