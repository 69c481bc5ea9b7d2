import Mathlib.Data.Set.Insert
import Mathlib.Data.List.Infix

/-!
# Resources that are made once and ended once

A history of events, some of which make, use or end a resource. It is in order when nothing is used
before it is made or after it is ended; what is made and not ended is live.
-/

namespace Agora.Lib

theorem prefix_snoc {α : Type} {t u : List α} {a b : α} (h : u ++ [b] <+: t ++ [a]) :
    (u = t ∧ b = a) ∨ u ++ [b] <+: t := by
  rcases List.prefix_concat_iff.mp h with heq | hpre
  · obtain ⟨hu, hlast⟩ := List.append_inj' heq rfl
    exact .inl ⟨hu, List.singleton_inj.mp hlast⟩
  · exact .inr hpre

structure Usage (ρ α : Type) where
  makes : α → Option ρ
  uses : α → Option ρ
  ends : α → Option ρ
  uses_of_ends : ∀ a r, ends a = some r → uses a = some r

namespace Usage

variable {ρ α : Type} (U : Usage ρ α)

def Made (t : List α) (r : ρ) : Prop := ∃ a ∈ t, U.makes a = some r

def Ended (t : List α) (r : ρ) : Prop := ∃ a ∈ t, U.ends a = some r

/-- A history in order, with its live resources. -/
structure Ledger (t : List α) (live : Set ρ) : Prop where
  made : ∀ r ∈ live, U.Made t r
  open_ : ∀ r ∈ live, ¬ U.Ended t r
  ended : ∀ r, U.Made t r → r ∉ live → U.Ended t r
  first : ∀ u a r, u ++ [a] <+: t → U.uses a = some r → U.Made u r
  last : ∀ u a r, u ++ [a] <+: t → U.uses a = some r → ¬ U.Ended u r

section
variable {U} {t : List α} {live : Set ρ} {a : α} {r : ρ}

theorem made_snoc : U.Made (t ++ [a]) r ↔ U.Made t r ∨ U.makes a = some r := by
  simp [Made, or_and_right, exists_or]

theorem ended_snoc : U.Ended (t ++ [a]) r ↔ U.Ended t r ∨ U.ends a = some r := by
  simp [Ended, or_and_right, exists_or]

theorem Ledger.nil : U.Ledger [] ∅ := by
  have hnone : ∀ u (a : α), ¬ u ++ [a] <+: [] := fun u a h => by simp at h
  refine ⟨nofun, nofun, ?_, fun u a _ h => absurd h (hnone u a), fun u a _ h => absurd h (hnone u a)⟩
  rintro r ⟨a, ha, -⟩
  cases ha

theorem Ledger.made_of_ended (h : U.Ledger t live) (he : U.Ended t r) : U.Made t r := by
  obtain ⟨a, ha, hends⟩ := he
  obtain ⟨u, v, rfl⟩ := List.append_of_mem ha
  obtain ⟨b, hb, hmakes⟩ := h.first u a r ⟨v, by simp⟩ (U.uses_of_ends a r hends)
  exact ⟨b, List.mem_append_left _ hb, hmakes⟩

theorem Ledger.snoc {live' : Set ρ} (h : U.Ledger t live)
    (huse : ∀ r, U.uses a = some r → r ∈ live)
    (hlive : ∀ r, r ∈ live' ↔ (r ∈ live ∧ U.ends a ≠ some r) ∨ U.makes a = some r)
    (hnew : ∀ r, U.makes a = some r → ¬ U.Made t r ∧ U.ends a ≠ some r) :
    U.Ledger (t ++ [a]) live' := by
  refine ⟨fun r hr => ?_, fun r hr => ?_, fun r hr hnot => ?_, fun u b r hu hb => ?_,
    fun u b r hu hb => ?_⟩
  · rw [made_snoc]
    exact ((hlive r).mp hr).imp_left fun hr => h.made r hr.1
  · rw [ended_snoc]
    rintro (he | he)
    · rcases (hlive r).mp hr with hr | hr
      · exact h.open_ r hr.1 he
      · exact (hnew r hr).1 (h.made_of_ended he)
    · rcases (hlive r).mp hr with hr | hr
      · exact hr.2 he
      · exact (hnew r hr).2 he
  · rw [ended_snoc]
    by_cases hmakes : U.makes a = some r
    · exact absurd ((hlive r).mpr (.inr hmakes)) hnot
    · have hmade : U.Made t r := (made_snoc.mp hr).resolve_right hmakes
      by_cases hl : r ∈ live
      · right
        by_contra hends
        exact hnot ((hlive r).mpr (.inl ⟨hl, hends⟩))
      · exact .inl (h.ended r hmade hl)
  · rcases prefix_snoc hu with ⟨rfl, rfl⟩ | hpre
    · exact h.made r (huse r hb)
    · exact h.first u b r hpre hb
  · rcases prefix_snoc hu with ⟨rfl, rfl⟩ | hpre
    · exact h.open_ r (huse r hb)
    · exact h.last u b r hpre hb

theorem Ledger.note (h : U.Ledger t live) (hm : U.makes a = none) (hu : U.uses a = none) :
    U.Ledger (t ++ [a]) live := by
  refine h.snoc (fun r hr => nomatch hu.symm.trans hr) (fun r => ?_)
    fun r hr => nomatch hm.symm.trans hr
  rw [hm]
  have hends : U.ends a ≠ some r := fun he => nomatch hu.symm.trans (U.uses_of_ends a r he)
  simp [hends]

theorem Ledger.make (h : U.Ledger t ∅) (hm : U.makes a = some r) (hu : U.uses a = none)
    (hnew : ¬ U.Made t r) : U.Ledger (t ++ [a]) {r} := by
  have hends : ∀ r', U.ends a ≠ some r' := fun r' he => nomatch hu.symm.trans (U.uses_of_ends a r' he)
  refine h.snoc (fun r hr => nomatch hu.symm.trans hr) (fun r' => ?_) fun r' hr' => ?_
  · rw [hm]
    simp [eq_comm]
  · obtain rfl : r = r' := Option.some.inj (hm.symm.trans hr')
    exact ⟨hnew, hends r⟩

theorem Ledger.use (h : U.Ledger t {r}) (hm : U.makes a = none) (hu : U.uses a = some r)
    (he : U.ends a = none) : U.Ledger (t ++ [a]) {r} := by
  refine h.snoc (fun r' hr' => ?_) (fun r' => ?_) fun r' hr' => nomatch hm.symm.trans hr'
  · obtain rfl : r = r' := Option.some.inj (hu.symm.trans hr')
    rfl
  · rw [hm, he]
    simp

theorem Ledger.finish (h : U.Ledger t {r}) (hm : U.makes a = none) (he : U.ends a = some r) :
    U.Ledger (t ++ [a]) ∅ := by
  have hu := U.uses_of_ends a r he
  refine h.snoc (fun r' hr' => ?_) (fun r' => ?_) fun r' hr' => nomatch hm.symm.trans hr'
  · obtain rfl : r = r' := Option.some.inj (hu.symm.trans hr')
    rfl
  · rw [hm, he]
    simp [eq_comm]

theorem Ledger.ends_once [DecidableEq ρ] (h : U.Ledger t live) (hm : U.Made t r) (hr : r ∉ live) :
    t.countP (fun a => U.ends a = some r) = 1 := by
  obtain ⟨a, ha, he⟩ := h.ended r hm hr
  obtain ⟨u, v, rfl⟩ := List.append_of_mem ha
  have hbefore : u.countP (fun a => U.ends a = some r) = 0 := by
    rw [List.countP_eq_zero]
    intro b hb hends
    exact h.last u a r ⟨v, by simp⟩ (U.uses_of_ends a r he) ⟨b, hb, of_decide_eq_true hends⟩
  have hafter : v.countP (fun a => U.ends a = some r) = 0 := by
    rw [List.countP_eq_zero]
    intro b hb hends
    obtain ⟨v₁, v₂, rfl⟩ := List.append_of_mem hb
    refine h.last (u ++ a :: v₁) b r ⟨v₂, by simp⟩ (U.uses_of_ends b r (of_decide_eq_true hends)) ?_
    exact ⟨a, by simp, he⟩
  have hcons := List.countP_cons_of_pos (p := fun a => decide (U.ends a = some r)) (l := v)
    (decide_eq_true he)
  rw [List.countP_append, hcons, hbefore, hafter]

theorem Ledger.ends_never [DecidableEq ρ] (h : U.Ledger t live) (hr : r ∈ live) :
    t.countP (fun a => U.ends a = some r) = 0 := by
  rw [List.countP_eq_zero]
  exact fun a ha hends => h.open_ r hr ⟨a, ha, of_decide_eq_true hends⟩

end

end Usage

end Agora.Lib
