import Agora.Code.EventLoop

/-!
# What a step of the loop can do

One rule for each statement of the loop thread and for each step of a call of `queueInLoop` or
`quit`, with the place and the guard it is taken under.
-/

namespace Agora

variable {τ φ : Type}

namespace EventLoop

inductive Advances (s : EventLoop τ φ) (active : List Active) : EventLoop τ φ → Prop
  | enters (hpc : s.pc = .outside) (hnot : ¬ s.looping = true) :
    Advances s active { s with looping := true, pc := .entered }
  | clears (hpc : s.pc = .entered) : Advances s active { s with quit := false, pc := .testing }
  | stops (hpc : s.pc = .testing) (hquit : s.quit = true) : Advances s active { s with pc := .leaving }
  | goesOn (hpc : s.pc = .testing) (hquit : ¬ s.quit = true) :
    Advances s active { s with pc := .polling }
  | polls (hpc : s.pc = .polling) (hactive : ¬ (Active.wakeup ∈ active ∧ s.eventfd = 0)) :
    Advances s active { s with pc := .dispatching none active }
  | drains {current : Option Active} {rest : List Active}
    (hpc : s.pc = .dispatching current (.wakeup :: rest)) :
    Advances s active { s.handleRead with pc := .dispatching (some .wakeup) rest }
  | handles {current : Option Active} {rest : List Active}
    (hpc : s.pc = .dispatching current (.other :: rest)) :
    Advances s active { s with pc := .dispatching (some .other) rest }
  | dispatched {current : Option Active} (hpc : s.pc = .dispatching current []) :
    Advances s active { s with callingPendingFunctors := true, pc := .swapping }
  | swaps (hpc : s.pc = .swapping) :
    Advances s active { s with pendingFunctors := [], pc := .calling none s.pendingFunctors }
  | calls {current : Option φ} {functor : φ} {rest : List φ}
    (hpc : s.pc = .calling current (functor :: rest)) :
    Advances s active
      { s with pc := .calling (some functor) rest, executed := s.executed ++ [functor] }
  | called {current : Option φ} (hpc : s.pc = .calling current []) :
    Advances s active { s with callingPendingFunctors := false, pc := .destroying }
  | destroyed (hpc : s.pc = .destroying) : Advances s active { s with pc := .testing }
  | leaves (hpc : s.pc = .leaving) : Advances s active { s with looping := false, pc := .outside }

theorem advance_cases {s s' : EventLoop τ φ} {active : List Active}
    (hs : s.advance active = some s') : Advances s active s' := by
  unfold advance at hs
  cases hpc : s.pc with
  | outside =>
    rw [hpc] at hs
    simp only [Option.ite_none_left_eq_some, Option.some.injEq] at hs
    obtain ⟨hnot, rfl⟩ := hs
    exact .enters hpc hnot
  | entered =>
    rw [hpc] at hs
    obtain rfl := Option.some.inj hs
    exact .clears hpc
  | testing =>
    rw [hpc] at hs
    obtain rfl := Option.some.inj hs
    by_cases hquit : s.quit = true
    · rw [if_pos hquit]
      exact .stops hpc hquit
    · rw [if_neg hquit]
      exact .goesOn hpc hquit
  | polling =>
    rw [hpc] at hs
    simp only [Option.ite_none_left_eq_some, Option.some.injEq] at hs
    obtain ⟨hactive, rfl⟩ := hs
    exact .polls hpc hactive
  | dispatching current rest =>
    rw [hpc] at hs
    rcases rest with _ | ⟨_ | _, rest⟩
    · obtain rfl := Option.some.inj hs
      exact .dispatched hpc
    · obtain rfl := Option.some.inj hs
      exact .drains hpc
    · obtain rfl := Option.some.inj hs
      exact .handles hpc
  | swapping =>
    rw [hpc] at hs
    obtain rfl := Option.some.inj hs
    exact .swaps hpc
  | calling current rest =>
    rw [hpc] at hs
    rcases rest with _ | ⟨functor, rest⟩
    · obtain rfl := Option.some.inj hs
      exact .called hpc
    · obtain rfl := Option.some.inj hs
      exact .calls hpc
  | destroying =>
    rw [hpc] at hs
    obtain rfl := Option.some.inj hs
    exact .destroyed hpc
  | leaving =>
    rw [hpc] at hs
    obtain rfl := Option.some.inj hs
    exact .leaves hpc

variable [DecidableEq τ]

inductive Steps (s : EventLoop τ φ) : LoopLabel τ φ → EventLoop τ φ → Prop
  | advance {active : List Active} {s' : EventLoop τ φ} (hidle : s.queueing.isSome = false)
    (hs : s.advance active = some s') : Steps s (.advance active) s'
  | queueInLoop {cb : φ} (hidle : s.queueing.isSome = false) (huser : s.pc.inUserCode = true) :
    Steps s (.queueInLoop cb) { s.push cb with queueing := some s.queued.length }
  | wakesUp (hqueueing : s.queueing.isSome = true) (hcalling : s.callingPendingFunctors = true) :
    Steps s .wakeupIfCalling { s.wakeup with queueing := none }
  | wakesNot (hqueueing : s.queueing.isSome = true) (hcalling : ¬ s.callingPendingFunctors = true) :
    Steps s .wakeupIfCalling { s with queueing := none }
  | quit (hidle : s.queueing.isSome = false) (huser : s.pc.inUserCode = true) :
    Steps s .quit { s with quit := true }
  | queueInLoopFrom {t : τ} {cb : φ} (hcaller : s.callers t = .idle) :
    Steps s (.queueInLoopFrom t cb) ((s.push cb).moveCaller t (.pushed s.queued.length))
  | quitFrom {t : τ} (hcaller : s.callers t = .idle) :
    Steps s (.quitFrom t) ({ s with quit := true }.moveCaller t .quitSet)
  | wakeupFrom {t : τ} (hcaller : ¬ s.callers t = .idle) :
    Steps s (.wakeupFrom t) (s.wakeup.moveCaller t .idle)

theorem step_cases {s s' : EventLoop τ φ} {label : LoopLabel τ φ} (hs : s.step label = some s') :
    Steps s label s' := by
  unfold step at hs
  cases label with
  | advance active =>
    simp only [Option.ite_none_left_eq_some] at hs
    exact .advance (by simpa using hs.1) hs.2
  | queueInLoop cb =>
    simp only [Option.ite_none_left_eq_some, Option.some.injEq] at hs
    obtain ⟨hmay, rfl⟩ := hs
    exact .queueInLoop (by simp_all) (by simp_all)
  | wakeupIfCalling =>
    simp only [Option.ite_none_left_eq_some] at hs
    obtain ⟨hqueueing, hs⟩ := hs
    have hqueueing : s.queueing.isSome = true := by simpa [Option.isSome_iff_ne_none] using hqueueing
    split at hs
    · rename_i hcalling
      obtain rfl := Option.some.inj hs
      exact .wakesUp hqueueing hcalling
    · rename_i hcalling
      obtain rfl := Option.some.inj hs
      exact .wakesNot hqueueing hcalling
  | quit =>
    simp only [Option.ite_none_left_eq_some, Option.some.injEq] at hs
    obtain ⟨hmay, rfl⟩ := hs
    exact .quit (by simp_all) (by simp_all)
  | queueInLoopFrom t cb =>
    simp only [Option.ite_none_right_eq_some, Option.some.injEq] at hs
    obtain ⟨hcaller, rfl⟩ := hs
    exact .queueInLoopFrom hcaller
  | quitFrom t =>
    simp only [Option.ite_none_right_eq_some, Option.some.injEq] at hs
    obtain ⟨hcaller, rfl⟩ := hs
    exact .quitFrom hcaller
  | wakeupFrom t =>
    simp only [Option.ite_none_left_eq_some, Option.some.injEq] at hs
    obtain ⟨hcaller, rfl⟩ := hs
    exact .wakeupFrom hcaller

end EventLoop

end Agora
