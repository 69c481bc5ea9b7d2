import Agora.Lib.Ledger

/-!
# What one event bars until another

A history of events, some of which raise a barrier and some of which lower it again. It is kept when
nothing comes while it is up that it stops.
-/

namespace Agora.Lib

structure Barrier (α : Type) where
  raises : α → Bool
  lowers : α → Bool
  stops : α → Bool

namespace Barrier

variable {α : Type} (B : Barrier α)

/-- Whether the barrier is up behind the event. -/
def after (up : Bool) (a : α) : Bool := B.raises a || (up && !B.lowers a)

def up (t : List α) : Bool := t.foldl B.after false

def Kept (t : List α) : Prop := ∀ u a, u ++ [a] <+: t → B.stops a = true → B.up u = false

/-- The event leaves the barrier where it is, and does not come to it while it is up. -/
def passes (up : Bool) (a : α) : Bool := !B.raises a && !B.lowers a && !(up && B.stops a)

variable {B} {t u v : List α} {a : α}

theorem up_snoc : B.up (t ++ [a]) = B.after (B.up t) a := List.foldl_concat ..

theorem passes_iff {up : Bool} : B.passes up a = true ↔
    (B.raises a = false ∧ B.lowers a = false) ∧ (B.stops a = true → up = false) := by
  unfold passes
  cases up with
  | false => simp
  | true => cases B.stops a <;> simp

theorem Kept.nil : B.Kept [] := fun u a h => by simp at h

theorem Kept.snoc (h : B.Kept t) (ha : B.stops a = true → B.up t = false) : B.Kept (t ++ [a]) := by
  intro u b hu hb
  rcases prefix_snoc hu with ⟨rfl, rfl⟩ | hpre
  · exact ha hb
  · exact h u b hpre hb

theorem up_behind (ha : B.raises a = true) (hv : ∀ b ∈ v, B.lowers b = false) :
    B.up (u ++ [a] ++ v) = true := by
  induction v using List.reverseRecOn with
  | nil =>
    rw [List.append_nil, up_snoc]
    simp [after, ha]
  | append_singleton v b ih =>
    have hb := hv b (by simp)
    have hup := ih fun b' hb' => hv b' (by simp [hb'])
    rw [← List.append_assoc, up_snoc, hup]
    simp [after, hb]

theorem up_passed (hv : ∀ b ∈ v, B.passes (B.up t) b = true) : B.up (t ++ v) = B.up t := by
  induction v using List.reverseRecOn with
  | nil => rw [List.append_nil]
  | append_singleton v b ih =>
    have hup := ih fun b' hb' => hv b' (by simp [hb'])
    obtain ⟨⟨hraises, hlowers⟩, -⟩ := passes_iff.mp (hv b (by simp))
    rw [← List.append_assoc, up_snoc, hup]
    simp [after, hraises, hlowers]

theorem Kept.passed (h : B.Kept t) (hv : ∀ b ∈ v, B.passes (B.up t) b = true) : B.Kept (t ++ v) := by
  induction v using List.reverseRecOn with
  | nil =>
    rw [List.append_nil]
    exact h
  | append_singleton v b ih =>
    have hbefore : ∀ b' ∈ v, B.passes (B.up t) b' = true := fun b' hb' => hv b' (by simp [hb'])
    obtain ⟨-, hstops⟩ := passes_iff.mp (hv b (by simp))
    rw [← List.append_assoc]
    refine (ih hbefore).snoc ?_
    rw [up_passed hbefore]
    exact hstops

/-- **Nothing that the barrier stops comes behind an event that raises it**, up to one that lowers it. -/
theorem Kept.behind (h : B.Kept (u ++ [a] ++ v)) (ha : B.raises a = true)
    (hv : ∀ b ∈ v, B.lowers b = false) : ∀ b ∈ v, B.stops b = false := by
  intro b hb
  obtain ⟨v₁, v₂, rfl⟩ := List.append_of_mem hb
  have hup : B.up (u ++ [a] ++ v₁) = true := up_behind ha fun b' hb' => hv b' (by simp [hb'])
  cases hstops : B.stops b with
  | false => rfl
  | true =>
    have hdown := h (u ++ [a] ++ v₁) b ⟨v₂, by simp⟩ hstops
    exact nomatch hup.symm.trans hdown

end Barrier

end Agora.Lib
