import Agora.Lib.Prog
import Agora.Lib.System
import Mathlib.Logic.Function.Basic

/-!
# Machines: threads that run programs and user code

Each thread has a stack of programs that are suspended in a callback. At any moment a thread may
start a program (user code calls an entry point, or the dispatcher of an idle thread runs one) or
return from the callback it is in. Steps of different threads interleave between segments.
-/

namespace Agora.Lib

variable {τ σ Q ι κ ε l : Type}

/-- The entry points `l` of the threads `τ`. -/
structure Machine (τ σ Q ι κ ε l : Type) where
  init : σ → Prop
  valid : Q → ι → Bool
  thread : l → τ
  /-- Only the dispatcher of an idle thread may start it, not user code in a callback. -/
  idleOnly : l → Bool
  entry : l → σ → Option (Prog σ Q ι κ ε Unit)

structure Config (τ σ Q ι κ ε : Type) where
  st : σ
  frames : τ → List (κ × Prog σ Q ι κ ε Unit)
  /-- The callback that the last step has started. -/
  calling : Option κ
  crashed : Option ε

inductive Action (τ ι l : Type)
  | start (label : l) (answers : List ι)
  | resume (t : τ) (answers : List ι)

def Config.initial (s : σ) : Config τ σ Q ι κ ε := ⟨s, fun _ => [], none, none⟩

namespace Machine

section
variable [DecidableEq τ] (M : Machine τ σ Q ι κ ε l)

/-- Puts the outcome of a segment of thread `t` into the configuration. -/
def settle (c : Config τ σ Q ι κ ε) (t : τ) (rest : List (κ × Prog σ Q ι κ ε Unit)) :
    Prog.Stop σ Q ι κ ε Unit → Config τ σ Q ι κ ε
  | .done s _ => ⟨s, Function.update c.frames t rest, none, none⟩
  | .called s u k => ⟨s, Function.update c.frames t ((u, k) :: rest), some u, none⟩
  | .faulted s e => ⟨s, Function.update c.frames t rest, none, some e⟩

def step (c : Config τ σ Q ι κ ε) (a : Action τ ι l) : Option (Config τ σ Q ι κ ε) :=
  if c.crashed.isSome then none
  else match a with
    | .start label answers =>
      if M.idleOnly label && !(c.frames (M.thread label)).isEmpty then none
      else match M.entry label c.st with
        | none => none
        | some p => (p.exec M.valid c.st answers).map
            (settle c (M.thread label) (c.frames (M.thread label)))
    | .resume t answers =>
      match c.frames t with
      | [] => none
      | (_, k) :: rest => (k.exec M.valid c.st answers).map (settle c t rest)

/-- A condition on the steps of a run: on the entry points that are started, and on the results of
the system calls. Both see the state before. -/
structure Condition (σ Q ι l : Type) where
  label : σ → l → Prop
  answer : σ → Q → ι → Prop

def anyStep : Condition σ Q ι l := ⟨fun _ _ => True, fun _ _ _ => True⟩

def Meets (cond : Condition σ Q ι l) (c : Config τ σ Q ι κ ε) : Action τ ι l → Prop
  | .start label answers => cond.label c.st label ∧
      ∀ p ∈ M.entry label c.st, p.Meets cond.answer c.st answers
  | .resume t answers => ∀ f ∈ (c.frames t).head?, f.2.Meets cond.answer c.st answers

instance (cond : Condition σ Q ι l) [∀ s a, Decidable (cond.label s a)]
    [∀ s q a, Decidable (cond.answer s q a)] (c : Config τ σ Q ι κ ε) :
    ∀ a : Action τ ι l, Decidable (M.Meets cond c a)
  | .start label answers => inferInstanceAs (Decidable (cond.label c.st label ∧
      ∀ p ∈ M.entry label c.st, p.Meets cond.answer c.st answers))
  | .resume t answers => inferInstanceAs (Decidable
      (∀ f ∈ (c.frames t).head?, f.2.Meets cond.answer c.st answers))

/-- The machine as a system of configurations. -/
def system : System (Config τ σ Q ι κ ε) (Action τ ι l) where
  init c := ∃ s, M.init s ∧ c = .initial s
  step := M.step

abbrev Reach (cond : Condition σ Q ι l) (c : Config τ σ Q ι κ ε) : Prop :=
  M.system.Reach (M.Meets cond) c

abbrev Reachable (c : Config τ σ Q ι κ ε) : Prop := M.Reach anyStep c

theorem meets_anyStep_prog {α : Type} (p : Prog σ Q ι κ ε α) (s : σ) (answers : List ι) :
    p.Meets (fun _ _ _ => True) s answers := by
  induction p generalizing s answers with
  | ret | fault | call => trivial
  | get k ih => exact ih s s answers
  | set s' k ih => exact ih s' answers
  | ask q k ih =>
    cases answers with
    | nil => trivial
    | cons a answers => exact ⟨trivial, ih a s answers⟩

omit [DecidableEq τ] in
theorem meets_anyStep (c : Config τ σ Q ι κ ε) (a : Action τ ι l) : M.Meets anyStep c a := by
  cases a with
  | start label answers => exact ⟨trivial, fun p _ => meets_anyStep_prog p _ _⟩
  | resume t answers => exact fun f _ => meets_anyStep_prog f.2 _ _

theorem step_running {c c' : Config τ σ Q ι κ ε} {a : Action τ ι l} (hs : M.step c a = some c') :
    c.crashed = none := by
  unfold step at hs
  split at hs
  · cases hs
  · rename_i hc
    simpa using hc

theorem step_start {c c' : Config τ σ Q ι κ ε} {label : l} {answers : List ι}
    (hs : M.step c (.start label answers) = some c') :
    ∃ p stop, M.entry label c.st = some p ∧ p.exec M.valid c.st answers = some stop ∧
      c' = settle c (M.thread label) (c.frames (M.thread label)) stop := by
  unfold step at hs
  split at hs
  · cases hs
  simp only at hs
  split at hs
  · cases hs
  split at hs
  · cases hs
  rename_i p hp
  obtain ⟨stop, he, rfl⟩ := Option.map_eq_some_iff.mp hs
  exact ⟨p, stop, hp, he, rfl⟩

theorem step_start_idle {c c' : Config τ σ Q ι κ ε} {label : l} {answers : List ι}
    (hs : M.step c (.start label answers) = some c') (hidle : M.idleOnly label = true) :
    c.frames (M.thread label) = [] := by
  unfold step at hs
  split at hs
  · cases hs
  simp only [hidle, Bool.true_and] at hs
  split at hs
  · cases hs
  · rename_i hempty
    simpa using hempty

theorem step_resume {c c' : Config τ σ Q ι κ ε} {t : τ} {answers : List ι}
    (hs : M.step c (.resume t answers) = some c') :
    ∃ u k rest stop, c.frames t = (u, k) :: rest ∧ k.exec M.valid c.st answers = some stop ∧
      c' = settle c t rest stop := by
  unfold step at hs
  split at hs
  · cases hs
  simp only at hs
  split at hs
  · cases hs
  · rename_i u k rest hframes
    obtain ⟨stop, he, rfl⟩ := Option.map_eq_some_iff.mp hs
    exact ⟨u, k, rest, stop, hframes, he, rfl⟩

theorem step_start_ends (C : Prog.Contract σ Q ι κ ε) (rely : σ → σ → Prop) (post : σ → Prop)
    {c c' : Config τ σ Q ι κ ε} {label : l} {answers : List ι}
    (hallow : ∀ s q a, C.allow s q a) (htolerates : ∀ e s, ¬ C.tolerates e s)
    (hs : M.step c (.start label answers) = some c')
    (hends : ∀ p, M.entry label c.st = some p →
      p.wp C (fun _ _ => False) rely (fun _ s _ => post s) c.st c.st) : post c'.st := by
  obtain ⟨p, stop, hp, he, rfl⟩ := M.step_start hs
  have hstop := Prog.exec_sound (fun s q a _ _ => hallow s q a)
    (hends p hp) (meets_anyStep_prog p c.st answers) he
  cases stop with
  | done s a => exact hstop
  | called s u k => exact hstop.1.2.1.elim
  | faulted s e => exact absurd hstop (htolerates e s)

theorem reach_of_run {cond : Condition σ Q ι l} [∀ c a, Decidable (M.Meets cond c a)] {s : σ}
    {c : Config τ σ Q ι κ ε} {as : List (Action τ ι l)} (h : M.init s)
    (hr : M.system.run (M.Meets cond) (.initial s) as = some c) : M.Reach cond c :=
  have hinit : M.Reach cond (.initial s) := .init ⟨s, h, rfl⟩
  hinit.run hr

theorem reachable_of_run {s : σ} {c : Config τ σ Q ι κ ε} {as : List (Action τ ι l)}
    (h : M.init s) (hr : M.system.run (fun _ _ => True) (.initial s) as = some c) :
    M.Reachable c := by
  have hinit : M.system.Reachable (.initial s) := .init ⟨s, h, rfl⟩
  exact (hinit.run hr).mono fun c a _ => M.meets_anyStep c a

end

/-! ## Invariants of every run -/

/-- What `label` owes at the end of each segment from `s₀` to `s'`. The other threads rely on each
segment. The programs below on its own thread only see it return: they rely on the way from `start`,
where it was started. The dispatcher of an idle thread has nothing below it. -/
def Owes (rely : τ → σ → σ → Prop) (t : τ) (idle : Bool) (start s₀ s' : σ) : Prop :=
  (∀ u, u ≠ t → rely u s₀ s') ∧ (idle = false → rely t start s')

/-- Every entry point keeps the contract `C`, for runs whose steps meet `cond`. -/
structure Keeps (M : Machine τ σ Q ι κ ε l) (C : Prog.Contract σ Q ι κ ε) (rely : τ → σ → σ → Prop)
    (cond : Condition σ Q ι l) : Prop where
  refl : ∀ t s, rely t s s
  trans : ∀ t s₁ s₂ s₃, rely t s₁ s₂ → rely t s₂ s₃ → rely t s₁ s₃
  init : ∀ s, M.init s → C.inv s
  allow : ∀ s q a, M.valid q a = true → cond.answer s q a → C.allow s q a
  entry : ∀ label s p, M.entry label s = some p → cond.label s label → C.inv s →
    p.wp C (Owes rely (M.thread label) (M.idleOnly label) s) (rely (M.thread label))
      (fun s₀ s' _ => C.inv s' ∧ Owes rely (M.thread label) (M.idleOnly label) s s₀ s') s s

section
variable {C : Prog.Contract σ Q ι κ ε} {rely : τ → σ → σ → Prop}

theorem Owes.weaken {t : τ} {idle : Bool} {start s s' : σ} (h : Owes rely t idle start s s') :
    Owes rely t true start s s' := ⟨h.1, nofun⟩

/-- The suspended programs of thread `t`. The top one goes on safely from any state that its callback
may lead to; those below it were suspended in the state where it was started. -/
def StackOk (C : Prog.Contract σ Q ι κ ε) (rely : τ → σ → σ → Prop) (t : τ) (s : σ) :
    List (κ × Prog σ Q ι κ ε Unit) → Prop
  | [] => True
  | f :: rest => ∃ start s₀, rely t s₀ s ∧ StackOk C rely t start rest ∧
      ∀ s', C.inv s' → rely t s₀ s' → f.2.wp C (Owes rely t rest.isEmpty start) (rely t)
        (fun s₀ s'' _ => C.inv s'' ∧ Owes rely t rest.isEmpty start s₀ s'') s' s'

theorem StackOk.move {t : τ} {s s' : σ} {fs : List (κ × Prog σ Q ι κ ε Unit)}
    (htrans : ∀ s₁ s₂ s₃, rely t s₁ s₂ → rely t s₂ s₃ → rely t s₁ s₃)
    (h : StackOk C rely t s fs) (hs : rely t s s') : StackOk C rely t s' fs := by
  cases fs with
  | nil => trivial
  | cons f rest =>
    obtain ⟨start, s₀, h₀, hrest, hw⟩ := h
    exact ⟨start, s₀, htrans _ _ _ h₀ hs, hrest, hw⟩

theorem wp_weaken {t : τ} {idle : Bool} {p : Prog σ Q ι κ ε Unit} {start s₀ s : σ}
    (h : p.wp C (Owes rely t idle start) (rely t)
      (fun s₀ s _ => C.inv s ∧ Owes rely t idle start s₀ s) s₀ s) :
    p.wp C (Owes rely t true start) (rely t)
      (fun s₀ s _ => C.inv s ∧ Owes rely t true start s₀ s) s₀ s :=
  Prog.wp_guar_mono (fun _ _ => Owes.weaken)
    (Prog.wp_mono h fun _ _ _ ⟨hi, ho⟩ => ⟨hi, ho.weaken⟩)

/-- The invariant of a run: of the state while it has not crashed, and of all that is suspended. -/
structure RunOk (C : Prog.Contract σ Q ι κ ε) (rely : τ → σ → σ → Prop)
    (c : Config τ σ Q ι κ ε) : Prop where
  crash : ∀ e, c.crashed = some e → C.tolerates e c.st
  inv : c.crashed = none → C.inv c.st
  frames : c.crashed = none → ∀ t, StackOk C rely t c.st (c.frames t)
  calling : ∀ u, c.calling = some u → C.pre u c.st

variable [DecidableEq τ] {M : Machine τ σ Q ι κ ε l}

theorem settle_ok {cond : Condition σ Q ι l} (hk : M.Keeps C rely cond)
    {c : Config τ σ Q ι κ ε} {t : τ} {idle : Bool} {rest : List (κ × Prog σ Q ι κ ε Unit)}
    {start : σ} {stop : Prog.Stop σ Q ι κ ε Unit}
    (hother : ∀ u, u ≠ t → StackOk C rely u c.st (c.frames u))
    (hrest : StackOk C rely t start rest) (hidle : idle = true → rest = [])
    (hstop : Prog.StopOk C (Owes rely t idle start) (rely t)
      (fun s₀ s _ => C.inv s ∧ Owes rely t idle start s₀ s) c.st stop) :
    RunOk C rely (settle c t rest stop) := by
  cases stop with
  | faulted s e =>
    refine ⟨fun e' he => ?_, fun h => by simp [settle] at h, fun h => by simp [settle] at h,
      fun u hu => by simp [settle] at hu⟩
    obtain rfl := Option.some.inj he
    exact hstop
  | done s a =>
    obtain ⟨hi, ho⟩ := hstop
    refine ⟨fun e he => by simp [settle] at he, fun _ => hi, fun _ u => ?_,
      fun u hu => by simp [settle] at hu⟩
    by_cases hu : u = t
    · subst hu
      simp only [settle, Function.update_self]
      cases hb : idle with
      | true =>
        rw [hidle hb]
        trivial
      | false => exact hrest.move (hk.trans u) (ho.2 hb)
    · simpa [settle, hu] using (hother u hu).move (hk.trans u) (ho.1 u hu)
  | called s v k =>
    obtain ⟨⟨hi, ho, hpre⟩, hgo⟩ := hstop
    refine ⟨fun e he => by simp [settle] at he, fun _ => hi, fun _ u => ?_, fun u hu => ?_⟩
    · by_cases hu : u = t
      · subst hu
        simp only [settle, Function.update_self]
        refine ⟨start, s, hk.refl u s, hrest, fun s' hi' hr' => ?_⟩
        have hw := hgo s' hi' hr'
        cases hb : idle with
        | true =>
          rw [hidle hb]
          rw [hb] at hw
          exact hw
        | false =>
          rw [hb] at hw
          cases hr : rest.isEmpty with
          | true => exact wp_weaken hw
          | false => exact hw
      · simpa [settle, hu] using (hother u hu).move (hk.trans u) (ho.1 u hu)
    · obtain rfl := Option.some.inj hu
      exact hpre

theorem step_ok {cond : Condition σ Q ι l} (hk : M.Keeps C rely cond)
    {c c' : Config τ σ Q ι κ ε} {a : Action τ ι l} (h : RunOk C rely c) (hm : M.Meets cond c a)
    (hs : M.step c a = some c') : RunOk C rely c' := by
  have hc := M.step_running hs
  have hst := h.frames hc
  cases a with
  | start label answers =>
    obtain ⟨p, stop, hp, he, rfl⟩ := M.step_start hs
    exact settle_ok hk (fun u _ => hst u) (hst _) (M.step_start_idle hs)
      (Prog.exec_sound hk.allow (hk.entry label c.st p hp hm.1 (h.inv hc)) (hm.2 p hp) he)
  | resume t answers =>
    obtain ⟨u, k, rest, stop, hstack, he, rfl⟩ := M.step_resume hs
    have hst' := hst t
    rw [hstack] at hst'
    obtain ⟨start, s₀, h₀, hrest, hw⟩ := hst'
    exact settle_ok hk (fun u _ => hst u) hrest (fun hi => List.isEmpty_iff.mp hi)
      (Prog.exec_sound hk.allow (hw c.st (h.inv hc) h₀) (hm (u, k) (by simp [hstack])) he)

/-- **The rule for machines.** Entry points that keep a contract keep it in every run. -/
theorem Keeps.runOk {cond : Condition σ Q ι l} (hk : M.Keeps C rely cond)
    {c : Config τ σ Q ι κ ε} (h : M.Reach cond c) : RunOk C rely c := by
  refine System.Reach.invariant ?_ ?_ h
  · rintro c ⟨s, hs, rfl⟩
    exact ⟨fun e he => by simp [Config.initial] at he, fun _ => hk.init _ hs, fun _ _ => trivial,
      fun u hu => by simp [Config.initial] at hu⟩
  · intro c a c' hok hm hs
    exact step_ok hk hok hm hs

omit [DecidableEq τ] in
/-- When no program relies on what a callback leaves alone, keeping the invariant is enough. -/
theorem Keeps.of_inv {cond : Condition σ Q ι l} (hinit : ∀ s, M.init s → C.inv s)
    (hallow : ∀ s q a, M.valid q a = true → cond.answer s q a → C.allow s q a)
    (hentry : ∀ label s p, M.entry label s = some p → cond.label s label → C.inv s →
      p.wp C (fun _ _ => True) (fun _ _ => True) (fun _ s _ => C.inv s) s s) :
    M.Keeps C (fun _ _ _ => True) cond where
  refl _ _ := trivial
  trans _ _ _ _ _ _ := trivial
  init := hinit
  allow := hallow
  entry label s p hp hc hi :=
    Prog.wp_guar_mono (fun _ _ _ => ⟨fun _ _ => trivial, fun _ => trivial⟩)
      (Prog.wp_mono (hentry label s p hp hc hi)
        fun _ _ _ h => ⟨h, fun _ _ => trivial, fun _ => trivial⟩)

end

end Machine

end Agora.Lib
