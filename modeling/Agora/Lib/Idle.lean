import Agora.Lib.Machine

/-!
# What holds whenever nothing is suspended

The invariant of a contract holds wherever user code runs. On a machine with one thread a stronger
property may be broken in a callback, as long as the program that was started from outside restores it
before it returns.
-/

namespace Agora.Lib.Machine

variable {σ Q ι κ ε l : Type}

/-- Every program that is started while nothing is suspended, and `I` holds, returns with `I`. -/
structure Settles (M : Machine Unit σ Q ι κ ε l) (C : Prog.Contract σ Q ι κ ε)
    (rely : Unit → σ → σ → Prop) (cond : Condition σ Q ι l) (I : σ → Prop) : Prop where
  keeps : M.Keeps C rely cond
  init : ∀ s, M.init s → I s
  entry : ∀ label s p, M.entry label s = some p → cond.label s label → C.inv s → I s →
    p.wp C (Owes rely () (M.idleOnly label) s) (rely ())
      (fun s₀ s' _ => (C.inv s' ∧ Owes rely () (M.idleOnly label) s s₀ s') ∧ I s') s s

/-- The suspended programs, as in `StackOk`; the lowest one returns with `I`. -/
def Rooted (C : Prog.Contract σ Q ι κ ε) (rely : Unit → σ → σ → Prop) (I : σ → Prop) (s : σ) :
    List (κ × Prog σ Q ι κ ε Unit) → Prop
  | [] => I s
  | f :: rest => ∃ start s₀, rely () s₀ s ∧ (rest ≠ [] → Rooted C rely I start rest) ∧
      ∀ s', C.inv s' → rely () s₀ s' → f.2.wp C (Owes rely () rest.isEmpty start) (rely ())
        (fun s₀ s'' _ => (C.inv s'' ∧ Owes rely () rest.isEmpty start s₀ s'') ∧ (rest = [] → I s''))
        s' s'

variable {M : Machine Unit σ Q ι κ ε l} {C : Prog.Contract σ Q ι κ ε} {rely : Unit → σ → σ → Prop}
  {cond : Condition σ Q ι l} {I : σ → Prop}

theorem Rooted.move {s s' : σ} {fs : List (κ × Prog σ Q ι κ ε Unit)} (hk : M.Keeps C rely cond)
    (hfs : fs ≠ []) (h : Rooted C rely I s fs) (hs : rely () s s') : Rooted C rely I s' fs := by
  cases fs with
  | nil => exact absurd rfl hfs
  | cons f rest =>
    obtain ⟨start, s₀, h₀, hrest, hw⟩ := h
    exact ⟨start, s₀, hk.trans _ _ _ _ h₀ hs, hrest, hw⟩

/-- What one segment promises about the stack. -/
abbrev RootedPost (C : Prog.Contract σ Q ι κ ε) (rely : Unit → σ → σ → Prop) (I : σ → Prop)
    (idle : Bool) (rest : List (κ × Prog σ Q ι κ ε Unit)) (start : σ) : σ → σ → Unit → Prop :=
  fun s₀ s _ => (C.inv s ∧ Owes rely () idle start s₀ s) ∧ (rest = [] → I s)

theorem settle_rooted (hk : M.Keeps C rely cond) {c : Config Unit σ Q ι κ ε} {idle : Bool}
    {rest : List (κ × Prog σ Q ι κ ε Unit)} {start : σ} {stop : Prog.Stop σ Q ι κ ε Unit}
    (hrest : rest ≠ [] → Rooted C rely I start rest) (hidle : idle = true → rest = [])
    (hstop : Prog.StopOk C (Owes rely () idle start) (rely ())
      (RootedPost C rely I idle rest start) c.st stop) :
    (settle c () rest stop).crashed = none →
      Rooted C rely I (settle c () rest stop).st ((settle c () rest stop).frames ()) := by
  intro hcrash
  cases stop with
  | faulted s e => cases hcrash
  | done s a =>
    obtain ⟨⟨-, howes⟩, hroot⟩ := hstop
    by_cases hempty : rest = []
    · subst hempty
      exact hroot rfl
    · have hbusy : idle = false := by
        cases idle with
        | false => rfl
        | true => exact absurd (hidle rfl) hempty
      exact (hrest hempty).move hk hempty (howes.2 hbusy)
  | called s v k =>
    obtain ⟨-, hgo⟩ := hstop
    refine ⟨start, s, hk.refl _ s, hrest, fun s' hi hr => ?_⟩
    have hw := hgo s' hi hr
    cases hbelow : rest.isEmpty with
    | true =>
      -- Nothing lies below, so nothing is owed at the end.
      exact Prog.wp_guar_mono (fun _ _ => Owes.weaken)
        (Prog.wp_mono hw fun _ _ _ ⟨⟨hi, ho⟩, hroot⟩ => ⟨⟨hi, ho.weaken⟩, hroot⟩)
    | false =>
      have hbusy : idle = false := by
        cases idle with
        | false => rfl
        | true =>
          rw [hidle rfl] at hbelow
          cases hbelow
      rw [hbusy] at hw
      exact hw

theorem Settles.step (hset : M.Settles C rely cond I) {c c' : Config Unit σ Q ι κ ε}
    {a : Action Unit ι l} (hok : RunOk C rely c) (h : c.crashed = none → Rooted C rely I c.st (c.frames ()))
    (hm : M.Meets cond c a) (hs : M.step c a = some c') :
    c'.crashed = none → Rooted C rely I c'.st (c'.frames ()) := by
  have hk := hset.keeps
  have hc := M.step_running hs
  have hinv := hok.inv hc
  have hroot := h hc
  cases a with
  | start label answers =>
    obtain ⟨p, stop, hp, he, rfl⟩ := M.step_start hs
    refine settle_rooted hk (fun _ => hroot) (M.step_start_idle hs)
      (Prog.exec_sound hk.allow ?_ (hm.2 p hp) he)
    by_cases hempty : c.frames () = []
    · rw [hempty] at hroot
      exact Prog.wp_mono (hset.entry label c.st p hp hm.1 hinv hroot)
        fun _ _ _ hpost => ⟨hpost.1, fun _ => hpost.2⟩
    · exact Prog.wp_mono (hk.entry label c.st p hp hm.1 hinv)
        fun _ _ _ hpost => ⟨hpost, fun hnone => absurd hnone hempty⟩
  | resume t answers =>
    obtain ⟨u, k, rest, stop, hstack, he, rfl⟩ := M.step_resume hs
    rw [hstack] at hroot
    obtain ⟨start, s₀, h₀, hrest, hw⟩ := hroot
    exact settle_rooted hk hrest (fun hi => List.isEmpty_iff.mp hi)
      (Prog.exec_sound hk.allow (hw c.st hinv h₀) (hm (u, k) (by simp [hstack])) he)

/-- **The rule for idle machines.** -/
theorem Settles.idle (hset : M.Settles C rely cond I) {c : Config Unit σ Q ι κ ε}
    (h : M.Reach cond c) (hc : c.crashed = none) (hframes : c.frames () = []) : I c.st := by
  have hboth : RunOk C rely c ∧ (c.crashed = none → Rooted C rely I c.st (c.frames ())) := by
    refine System.Reach.invariant (I := fun c => RunOk C rely c ∧
      (c.crashed = none → Rooted C rely I c.st (c.frames ()))) ?_ ?_ h
    · rintro c ⟨s, hs, rfl⟩
      exact ⟨hset.keeps.runOk (.init ⟨s, hs, rfl⟩), fun _ => hset.init s hs⟩
    · rintro c a c' ⟨hok, hroot⟩ hm hs
      exact ⟨step_ok hset.keeps hok hm hs, hset.step hok hroot hm hs⟩
  have hroot := hboth.2 hc
  rw [hframes] at hroot
  exact hroot

end Agora.Lib.Machine
