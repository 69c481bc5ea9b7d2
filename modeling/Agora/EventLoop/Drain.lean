import Agora.EventLoop.Steps

/-!
# What is executed before `loop` returns

Functors are called in the order of their pushes. A push is known by its place in that order.
-/

namespace Agora

open Lib

variable {τ φ : Type}

/-- What is left of the batch that `doPendingFunctors` has taken. -/
def LoopPc.batch : LoopPc φ → List φ
  | .calling _ rest => rest
  | _ => []

/-- The queue will be swapped before `quit_` is tested, or `quit_` will be cleared before that. -/
def LoopPc.drainsNext : LoopPc φ → Bool
  | .outside | .entered | .polling | .dispatching _ _ | .swapping => true
  | .testing | .calling _ _ | .destroying | .leaving => false

def LoopLabel.quits : LoopLabel τ φ → Bool
  | .quit | .quitFrom _ => true
  | _ => false

namespace EventLoop

/-- How many functors have been taken from the queue. -/
def taken (s : EventLoop τ φ) : Nat := s.executed.length + s.pc.batch.length

/-- The `queueInLoop` call that made the push at this place has returned. -/
structure Returned (s : EventLoop τ φ) (place : Nat) : Prop where
  pushed : place < s.queued.length
  own : s.queueing ≠ some place
  others : ∀ t, s.callers t ≠ .pushed place

/-- The functor that was pushed at this place has been called, and every call so far was that of the
functor at its own place. -/
structure ExecutedOnce (s : EventLoop τ φ) (place : Nat) : Prop where
  called : place < s.executed.length
  inOrder : s.executed <+: s.queued

/-- Behind a `quit` the queue is still swapped, or all that was queued by then has been taken. -/
def QuitsDrained (s : EventLoop τ φ) (label : LoopLabel τ φ) : Prop :=
  label.quits = true → s.pc.drainsNext = true ∨ ∀ place, s.Returned place → place < s.taken

/-! ## The order -/

def Fifo (s : EventLoop τ φ) : Prop := s.queued = s.executed ++ s.pc.batch ++ s.pendingFunctors

theorem advance_fifo {s s' : EventLoop τ φ} {active : List Active} (h : Fifo s)
    (hs : s.advance active = some s') : Fifo s' := by
  unfold Fifo at *
  cases advance_cases hs with
  | swaps hpc | calls hpc =>
    rw [hpc] at h
    simpa [LoopPc.batch] using h
  | enters hpc | clears hpc | stops hpc | goesOn hpc | polls hpc | drains hpc | handles hpc
  | dispatched hpc | called hpc | destroyed hpc | leaves hpc =>
    rw [hpc] at h
    exact h

theorem push_fifo {s : EventLoop τ φ} (h : Fifo s) (cb : φ) : Fifo (s.push cb) := by
  unfold Fifo push at *
  simp only
  rw [h, List.append_assoc]

variable [DecidableEq τ]

theorem step_fifo {s s' : EventLoop τ φ} {label : LoopLabel τ φ} (h : Fifo s)
    (hs : s.step label = some s') : Fifo s' := by
  cases step_cases hs with
  | advance _ hs => exact advance_fifo h hs
  | queueInLoop | queueInLoopFrom => exact push_fifo h _
  | wakesUp | wakesNot | quit | quitFrom | wakeupFrom => exact h

theorem reach_fifo {cond : EventLoop τ φ → LoopLabel τ φ → Prop} {s : EventLoop τ φ}
    (h : (system τ φ).Reach cond s) : Fifo s := by
  refine System.Reach.invariant ?_ ?_ h
  · rintro s rfl
    rfl
  · intro s label s' hi _ hs
    exact step_fifo hi hs

/-! ## A push that has returned -/

omit [DecidableEq τ] in
theorem Returned.of_eq {s s' : EventLoop τ φ} {place : Nat} (h : s.Returned place)
    (hn : s.queued.length ≤ s'.queued.length) (hq : s'.queueing ≠ some place)
    (hc : ∀ t, s'.callers t ≠ .pushed place) : s'.Returned place :=
  ⟨Nat.lt_of_lt_of_le h.pushed hn, hq, hc⟩

omit [DecidableEq τ] in
theorem advance_calls {s s' : EventLoop τ φ} {active : List Active}
    (hs : s.advance active = some s') :
    s'.queued = s.queued ∧ s'.queueing = s.queueing ∧ s'.callers = s.callers := by
  cases advance_cases hs
  all_goals exact ⟨rfl, rfl, rfl⟩

theorem callers_moveCaller (s : EventLoop τ φ) (t u : τ) (pc : CallerPc) :
    (s.moveCaller t pc).callers u = if u = t then pc else s.callers u := by
  unfold moveCaller
  by_cases hu : u = t
  · subst hu
    simp
  · simp [hu]

theorem Returned.moved {s : EventLoop τ φ} {t : τ} {pc : CallerPc} {place : Nat}
    (h : s.Returned place) (hpc : pc ≠ .pushed place) : (s.moveCaller t pc).Returned place := by
  refine ⟨h.pushed, h.own, fun u => ?_⟩
  rw [callers_moveCaller]
  split
  · exact hpc
  · exact h.others u

theorem step_returned {s s' : EventLoop τ φ} {label : LoopLabel τ φ} {place : Nat}
    (h : s.Returned place) (hs : s.step label = some s') : s'.Returned place := by
  have hne : s.queued.length ≠ place := Nat.ne_of_gt h.pushed
  have hpush : ∀ cb : φ, s.queued.length ≤ (s.queued ++ [cb]).length := fun cb => by simp
  cases step_cases hs with
  | advance _ hs =>
    obtain ⟨hqueued, hqueueing, hcallers⟩ := advance_calls hs
    refine h.of_eq (Nat.le_of_eq (congrArg List.length hqueued.symm)) ?_ ?_
    · rw [hqueueing]
      exact h.own
    · rw [hcallers]
      exact h.others
  | queueInLoop => exact h.of_eq (hpush _) (fun heq => hne (Option.some.inj heq)) h.others
  | wakesUp | wakesNot => exact h.of_eq (Nat.le_refl _) nofun h.others
  | quit => exact h.of_eq (Nat.le_refl _) h.own h.others
  | queueInLoopFrom =>
    refine Returned.moved ?_ (fun heq => hne (CallerPc.pushed.inj heq))
    exact h.of_eq (hpush _) h.own h.others
  | quitFrom | wakeupFrom =>
    refine Returned.moved ?_ nofun
    exact h.of_eq (Nat.le_refl _) h.own h.others

/-! ## Drained before `loop` returns -/

/-- The functor at the place has been taken, or will be before `loop` returns. -/
structure Due (place : Nat) (s : EventLoop τ φ) : Prop where
  returned : s.Returned place
  drained : place < s.taken ∨ s.pc.drainsNext = true ∨ s.quit = false
  leaving : s.pc = .leaving → s.quit = true

omit [DecidableEq τ] in
theorem advance_due {s s' : EventLoop τ φ} {active : List Active} {place : Nat} (hfifo : Fifo s)
    (h : Due place s) (hr : s'.Returned place) (hs : s.advance active = some s') : Due place s' := by
  have hdrained := h.drained
  have hpushed := h.returned.pushed
  unfold Fifo at hfifo
  unfold taken at hdrained
  cases advance_cases hs with
  | clears => exact ⟨hr, .inr (.inr rfl), nofun⟩
  | stops hpc hquit =>
    rw [hpc] at hdrained
    refine ⟨hr, .inl ?_, fun _ => hquit⟩
    rcases hdrained with htaken | hnext | hoff
    · exact htaken
    · cases hnext
    · exact nomatch hquit.symm.trans hoff
  | swaps hpc =>
    -- The whole queue is taken.
    rw [hpc] at hfifo
    refine ⟨hr, .inl ?_, nofun⟩
    have hlength := congrArg List.length hfifo
    simp only [LoopPc.batch, List.append_nil, List.length_append] at hlength
    unfold taken
    simp only [LoopPc.batch]
    omega
  | calls hpc =>
    rw [hpc] at hdrained
    refine ⟨hr, hdrained.imp (fun htaken => ?_) (.imp nofun id), nofun⟩
    unfold taken
    simp only [LoopPc.batch, List.length_append, List.length_cons, List.length_nil] at htaken ⊢
    omega
  | called hpc | destroyed hpc =>
    rw [hpc] at hdrained
    exact ⟨hr, hdrained.imp id (.imp nofun id), nofun⟩
  | enters | goesOn | polls | drains | handles | dispatched | leaves =>
    exact ⟨hr, .inr (.inl rfl), nofun⟩

theorem quit_due {s s' : EventLoop τ φ} {label : LoopLabel τ φ} {place : Nat}
    (h : s.Returned place) (hquit : label.quits = true) (hc : QuitsDrained s label)
    (hs : s.step label = some s') : Due place s' := by
  have hr := step_returned h hs
  have hdrained : place < s.taken ∨ s.pc.drainsNext = true ∨ s'.quit = false := by
    rcases hc hquit with hnext | htaken
    · exact .inr (.inl hnext)
    · exact .inl (htaken place h)
  cases step_cases hs with
  | quit | quitFrom => exact ⟨hr, hdrained, fun _ => rfl⟩
  | advance | queueInLoop | wakesUp | wakesNot | queueInLoopFrom | wakeupFrom => cases hquit

theorem step_due {s s' : EventLoop τ φ} {label : LoopLabel τ φ} {place : Nat} (hfifo : Fifo s)
    (h : Due place s) (hc : QuitsDrained s label) (hs : s.step label = some s') : Due place s' := by
  have hr := step_returned h.returned hs
  cases step_cases hs with
  | advance _ hs => exact advance_due hfifo h hr hs
  | quit | quitFrom => exact quit_due h.returned rfl hc hs
  | queueInLoop | wakesUp | wakesNot | queueInLoopFrom | wakeupFrom =>
    exact ⟨hr, h.drained, h.leaving⟩

/-! ## Results -/

/-- **What was queued before `quit` is executed before `loop` returns**, once and in the order of the
pushes, as long as every `quit` comes while the queue is still to be swapped, or finds nothing in it
whose push has returned. -/
theorem queued_before_quit_executed {s₁ s₂ s₃ : EventLoop τ φ} {label : LoopLabel τ φ} {place : Nat}
    (h : (system τ φ).Reach QuitsDrained s₁) (hplace : s₁.Returned place)
    (hquit : label.quits = true) (hc : QuitsDrained s₁ label) (hs : s₁.step label = some s₂)
    (hl : (system τ φ).Leads QuitsDrained s₂ s₃) (hleaving : s₃.pc = .leaving) :
    s₃.ExecutedOnce place := by
  have hstep : ∀ s label s', Fifo s ∧ Due place s → QuitsDrained s label →
      (system τ φ).step s label = some s' → Fifo s' ∧ Due place s' :=
    fun _ _ _ hi hc hs => ⟨step_fifo hi.1 hs, step_due hi.1 hi.2 hc hs⟩
  obtain ⟨hfifo, hdue⟩ := System.Leads.invariant hstep hl
    ⟨step_fifo (reach_fifo h) hs, quit_due hplace hquit hc hs⟩
  refine ⟨?_, ?_⟩
  · have hquit := hdue.leaving hleaving
    have hdrained := hdue.drained
    unfold taken at hdrained
    rw [hleaving] at hdrained
    rcases hdrained with htaken | hnext | hoff
    · exact htaken
    · cases hnext
    · exact nomatch hquit.symm.trans hoff
  · unfold Fifo at hfifo
    rw [hfifo, List.append_assoc]
    exact List.prefix_append _ _

/-- The functor is queued and `quit` is called while the loop thread is at `poll`. -/
theorem queued_before_quit_executed_polling :
    ∃ s₁ s₃, (system Unit Nat).run (fun s label => label.quits = true → s.pc.drainsNext = true) new
        [.advance [], .advance [], .advance [], .queueInLoopFrom () 1, .wakeupFrom ()] = some s₁ ∧
      (system Unit Nat).run (fun s label => label.quits = true → s.pc.drainsNext = true) s₁
        [.quitFrom (), .wakeupFrom (), .advance [.wakeup], .advance [], .advance [], .advance [],
          .advance [], .advance [], .advance [], .advance []] = some s₃ ∧
      s₃.pc = .leaving ∧ s₃.ExecutedOnce 0 := by
  have hweaker : ∀ (s : EventLoop Unit Nat) (label : LoopLabel Unit Nat),
      (label.quits = true → s.pc.drainsNext = true) → QuitsDrained s label :=
    fun _ _ h hquit => .inl (h hquit)
  have hrun₁ : (system Unit Nat).run (fun s label => label.quits = true → s.pc.drainsNext = true) new
      [.advance [], .advance [], .advance [], .queueInLoopFrom () 1, .wakeupFrom ()] = some _ := rfl
  have hinit : (system Unit Nat).Reach (fun s label => label.quits = true → s.pc.drainsNext = true) new :=
    .init rfl
  refine ⟨_, _, hrun₁, rfl, rfl, ?_⟩
  refine queued_before_quit_executed ((hinit.run hrun₁).mono hweaker)
    ⟨by decide, nofun, fun _ => nofun⟩ (rfl : LoopLabel.quits (.quitFrom ()) = true)
    (fun _ => .inl rfl) rfl (System.Leads.mono hweaker (System.leads_of_run (rfl : System.run _ _ _
      [.wakeupFrom (), .advance [.wakeup], .advance [], .advance [], .advance [], .advance [],
        .advance [], .advance [], .advance []] = some _))) rfl

/-- A functor is queued behind the swap, and `quit` comes before `quit_` is tested: `loop` returns
without calling it. -/
theorem queued_before_quit_lost :
    ∃ s₁ s₂ s₃ : EventLoop Unit Nat, (system Unit Nat).Reachable s₁ ∧ s₁.Returned 1 ∧
      s₁.step (.quitFrom ()) = some s₂ ∧ (system Unit Nat).Leads (fun _ _ => True) s₂ s₃ ∧
      s₃.pc = .leaving ∧ ¬ s₃.ExecutedOnce 1 := by
  have hrun₁ : (system Unit Nat).run (fun _ _ => True) new
      [.advance [], .advance [], .advance [], .queueInLoopFrom () 1, .wakeupFrom (),
        .advance [.wakeup], .advance [], .advance [], .advance [], .advance [],
        .queueInLoopFrom () 2, .wakeupFrom ()] = some _ := rfl
  have hinit : (system Unit Nat).Reachable new := .init rfl
  refine ⟨_, _, _, hinit.run hrun₁, ⟨by decide, nofun, fun _ => nofun⟩, rfl,
    System.leads_of_run (rfl : System.run _ _ _
      [.wakeupFrom (), .advance [], .advance [], .advance []] = some _), rfl, fun hexecuted => ?_⟩
  exact absurd hexecuted.called (by decide)

end EventLoop

end Agora
