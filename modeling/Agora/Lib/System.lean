import Mathlib.Logic.Relation

/-!
# Transition systems

The runs of a system, restricted by a condition on their steps, and the rule for what holds in all
of them.
-/

namespace Agora.Lib

structure System (σ l : Type) where
  init : σ → Prop
  step : σ → l → Option σ

namespace System

variable {σ l : Type} (S : System σ l) {cond : σ → l → Prop}

/-- The states of the runs whose steps all meet `cond`, a condition on the state before the step. -/
inductive Reach (cond : σ → l → Prop) : σ → Prop
  | init {s} : S.init s → Reach cond s
  | step {s s' a} : Reach cond s → cond s a → S.step s a = some s' → Reach cond s'

abbrev Reachable (s : σ) : Prop := S.Reach (fun _ _ => True) s

/-- Takes the steps `as`; no result when one of them is not enabled or does not meet `cond`. -/
def run (cond : σ → l → Prop) [∀ s a, Decidable (cond s a)] (s : σ) : List l → Option σ
  | [] => some s
  | a :: as => if cond s a then (S.step s a).bind fun s' => run cond s' as else none

variable {S}

theorem Reach.run [∀ s a, Decidable (cond s a)] {s s' : σ} {as : List l} (h : S.Reach cond s)
    (hr : S.run cond s as = some s') : S.Reach cond s' := by
  induction as generalizing s with
  | nil =>
    obtain rfl := Option.some.inj hr
    exact h
  | cons a as ih =>
    unfold System.run at hr
    split at hr
    · rename_i hc
      obtain ⟨s₁, h₁, hr⟩ := Option.bind_eq_some_iff.mp hr
      exact ih (.step h hc h₁) hr
    · cases hr

theorem Reach.mono {cond' : σ → l → Prop} (hc : ∀ s a, cond s a → cond' s a) {s : σ}
    (h : S.Reach cond s) : S.Reach cond' s := by
  induction h with
  | init h₀ => exact .init h₀
  | step _ h₁ hs ih => exact .step ih (hc _ _ h₁) hs

/-- **The rule for invariants.** -/
theorem Reach.invariant {I : σ → Prop} (hinit : ∀ s, S.init s → I s)
    (hstep : ∀ s a s', I s → cond s a → S.step s a = some s' → I s') {s : σ}
    (h : S.Reach cond s) : I s := by
  induction h with
  | init h₀ => exact hinit _ h₀
  | step _ h₁ hs ih => exact hstep _ _ _ ih h₁ hs

/-- A run from `s` to `s'`, with steps that all meet `cond`. -/
def Leads (S : System σ l) (cond : σ → l → Prop) : σ → σ → Prop :=
  Relation.ReflTransGen fun s s' => ∃ a, cond s a ∧ S.step s a = some s'

theorem Leads.invariant {I : σ → Prop} (hstep : ∀ s a s', I s → cond s a → S.step s a = some s' → I s')
    {s s' : σ} (h : S.Leads cond s s') (hs : I s) : I s' := by
  induction h with
  | refl => exact hs
  | tail _ hlast ih =>
    obtain ⟨a, hc, hstep'⟩ := hlast
    exact hstep _ a _ ih hc hstep'

theorem Leads.mono {cond' : σ → l → Prop} (hc : ∀ s a, cond s a → cond' s a) {s s' : σ}
    (h : S.Leads cond s s') : S.Leads cond' s s' := by
  refine Relation.ReflTransGen.mono ?_ s s' h
  rintro s s' ⟨a, h₁, hs⟩
  exact ⟨a, hc s a h₁, hs⟩

theorem leads_of_run [∀ s a, Decidable (cond s a)] {s s' : σ} {as : List l}
    (hr : S.run cond s as = some s') : S.Leads cond s s' := by
  induction as generalizing s with
  | nil =>
    obtain rfl := Option.some.inj hr
    exact .refl
  | cons a as ih =>
    unfold System.run at hr
    split at hr
    · rename_i hc
      obtain ⟨s₁, h₁, hr⟩ := Option.bind_eq_some_iff.mp hr
      exact .head ⟨a, hc, h₁⟩ (ih hr)
    · cases hr

end System

end Agora.Lib
