import Mathlib.Data.Option.Basic

/-!
# Loops that end

A `while` loop is its body and a rank that every further turn lowers. It computes by counting turns,
so its runs can be evaluated, and `eval_eq` unrolls it.
-/

namespace Agora.Lib

variable {σ ρ σ' ρ' : Type}

/-- What the body of a loop decides: once more from a new state, or out with a result. -/
inductive Turn (σ ρ : Type) : Type
  | again (s : σ)
  | out (r : ρ)

structure Loop (σ ρ : Type) where
  body : σ → Turn σ ρ
  rank : σ → Nat
  decreases : ∀ s s', body s = .again s' → rank s' < rank s

namespace Loop

/-- At most `n` turns. -/
def run (body : σ → Turn σ ρ) : Nat → σ → Option ρ
  | 0, _ => none
  | n + 1, s =>
    match body s with
    | .again s' => run body n s'
    | .out r => some r

variable (L : Loop σ ρ)

theorem run_isSome (n : Nat) (s : σ) (h : L.rank s < n) : (run L.body n s).isSome := by
  induction n generalizing s with
  | zero => omega
  | succ n ih =>
    rw [run]
    cases hb : L.body s with
    | again s' => exact ih s' (by have := L.decreases s s' hb; omega)
    | out r => rfl

theorem run_mono (n : Nat) (s : σ) (r : ρ) (h : run L.body n s = some r) (m : Nat) (hm : n ≤ m) :
    run L.body m s = some r := by
  induction n generalizing s m with
  | zero => simp [run] at h
  | succ n ih =>
    obtain ⟨m, rfl⟩ : ∃ k, m = k + 1 := ⟨m - 1, by omega⟩
    rw [run] at h ⊢
    cases hb : L.body s with
    | again s' =>
      rw [hb] at h
      exact ih s' h m (by omega)
    | out r' =>
      rw [hb] at h
      exact h

def eval (s : σ) : ρ := (run L.body (L.rank s + 1) s).get (L.run_isSome _ s (by omega))

theorem run_eval (s : σ) : run L.body (L.rank s + 1) s = some (L.eval s) := by simp [eval]

theorem eval_out {s : σ} {r : ρ} (h : L.body s = .out r) : L.eval s = r := by
  have hrun := L.run_eval s
  rw [run, h] at hrun
  exact (Option.some.inj hrun).symm

theorem eval_again {s s' : σ} (h : L.body s = .again s') : L.eval s = L.eval s' := by
  have hrun := L.run_eval s
  rw [run, h] at hrun
  have hmore := L.run_mono _ _ _ (L.run_eval s') (L.rank s) (L.decreases s s' h)
  exact Option.some.inj (hrun.symm.trans hmore)

theorem eval_induct {motive : σ → Prop}
    (out : ∀ s r, L.body s = .out r → motive s)
    (again : ∀ s s', L.body s = .again s' → motive s' → motive s) (s : σ) : motive s := by
  induction hr : L.rank s using Nat.strongRecOn generalizing s with
  | ind n ih =>
    cases hb : L.body s with
    | out r => exact out s r hb
    | again s' => exact again s s' hb (ih _ (hr ▸ L.decreases s s' hb) s' rfl)

theorem eval_map (L' : Loop σ' ρ') (f : σ → σ') (g : ρ → ρ')
    (hout : ∀ s r, L.body s = .out r → L'.body (f s) = .out (g r))
    (hagain : ∀ s s', L.body s = .again s' → L'.body (f s) = .again (f s')) (s : σ) :
    L'.eval (f s) = g (L.eval s) := by
  induction s using L.eval_induct with
  | out s r h => rw [L.eval_out h, L'.eval_out (hout s r h)]
  | again s s' h ih => rw [L.eval_again h, L'.eval_again (hagain s s' h), ih]

end Loop

end Agora.Lib
