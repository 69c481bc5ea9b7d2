import Agora.EventLoop.Drain

/-!
# The order of the functors

The accounting of one run: what was called, what is left of the batch and what is still queued are
the pushes of the run, each once and in their order.
-/

namespace Agora

open Lib

variable {τ φ : Type}

/-- What the step pushes to `pendingFunctors_`. -/
def LoopLabel.pushes : LoopLabel τ φ → List φ
  | .queueInLoop cb | .queueInLoopFrom _ cb => [cb]
  | _ => []

def OutsideLabel.pushes : OutsideLabel τ φ → List φ
  | .inLoop label => label.pushes
  | .queueInLoopOutside cb => [cb]

namespace EventLoop

/-- The step is the swap of `doPendingFunctors`, which takes the next batch. -/
def Swaps (s : EventLoop τ φ) (label : OutsideLabel τ φ) : Prop :=
  s.pc = .swapping ∧ ∃ active, label = .inLoop (.advance active)

/-! ## What is called or left of the batch -/

theorem advance_batch {s s' : EventLoop τ φ} {active : List Active} (hpc : s.pc ≠ .swapping)
    (hs : s.advance active = some s') :
    s'.executed ++ s'.pc.batch = s.executed ++ s.pc.batch := by
  cases advance_cases hs with
  | swaps hat => exact absurd hat hpc
  | calls hat =>
    rw [hat]
    simp [LoopPc.batch]
  | enters hat | clears hat | stops hat | goesOn hat | polls hat | drains hat | handles hat
  | dispatched hat | called hat | destroyed hat | leaves hat =>
    rw [hat]
    rfl

theorem advance_swap {s s' : EventLoop τ φ} {active : List Active} (hpc : s.pc = .swapping)
    (hs : s.advance active = some s') :
    s'.executed = s.executed ∧ s'.pc.batch = s.pendingFunctors ∧ s'.pendingFunctors = [] := by
  unfold advance at hs
  rw [hpc] at hs
  obtain rfl := Option.some.inj hs
  exact ⟨rfl, rfl, rfl⟩

variable [DecidableEq τ]

/-- Only the loop thread's own next statement changes what is called or left of the batch. -/
theorem step_batch {s s' : EventLoop τ φ} {label : LoopLabel τ φ}
    (hlabel : ∀ active, label ≠ .advance active) (hs : s.step label = some s') :
    s'.executed = s.executed ∧ s'.pc = s.pc ∧ s'.queued = s.queued ++ label.pushes := by
  cases step_cases hs with
  | advance => exact absurd rfl (hlabel _)
  | queueInLoop | queueInLoopFrom => exact ⟨rfl, rfl, rfl⟩
  | wakesUp | wakesNot | quit | quitFrom | wakeupFrom => exact ⟨rfl, rfl, (List.append_nil _).symm⟩

theorem threadStep_outside {s s' : EventLoop τ φ} {cb : φ}
    (hs : s.threadStep (.queueInLoopOutside cb) = some s') :
    s' = { s.push cb with queueing := some s.queued.length } := by
  unfold threadStep at hs
  simp only [Option.ite_none_left_eq_some, Option.some.injEq] at hs
  exact hs.2.symm

theorem threadStep_batch {s s' : EventLoop τ φ} {label : OutsideLabel τ φ} (hswap : ¬ s.Swaps label)
    (hs : s.threadStep label = some s') :
    s'.executed ++ s'.pc.batch = s.executed ++ s.pc.batch := by
  cases label with
  | queueInLoopOutside cb =>
    obtain rfl := threadStep_outside hs
    rfl
  | inLoop label =>
    change s.step label = some s' at hs
    cases label with
    | advance active =>
      cases step_cases hs with
      | advance _ hs => exact advance_batch (fun hpc => hswap ⟨hpc, active, rfl⟩) hs
    | queueInLoop _ | wakeupIfCalling | quit | queueInLoopFrom _ _ | quitFrom _ | wakeupFrom _ =>
      obtain ⟨hexecuted, hpc, -⟩ := step_batch (by nofun) hs
      rw [hexecuted, hpc]

theorem threadStep_swap {s s' : EventLoop τ φ} {label : OutsideLabel τ φ} (hswap : s.Swaps label)
    (hs : s.threadStep label = some s') :
    s'.executed = s.executed ∧ s'.pc.batch = s.pendingFunctors ∧ s'.pendingFunctors = [] := by
  obtain ⟨hpc, active, rfl⟩ := hswap
  change s.step (.advance active) = some s' at hs
  cases step_cases hs with
  | advance _ hs => exact advance_swap hpc hs

/-! ## The pushes of a run -/

theorem threadStep_queued {s s' : EventLoop τ φ} {label : OutsideLabel τ φ}
    (hs : s.threadStep label = some s') : s'.queued = s.queued ++ label.pushes := by
  cases label with
  | queueInLoopOutside cb =>
    obtain rfl := threadStep_outside hs
    rfl
  | inLoop label =>
    change s.step label = some s' at hs
    cases label with
    | advance active =>
      cases step_cases hs with
      | advance _ hs =>
        rw [(advance_calls hs).1]
        exact (List.append_nil _).symm
    | queueInLoop _ | wakeupIfCalling | quit | queueInLoopFrom _ _ | quitFrom _ | wakeupFrom _ =>
      exact (step_batch (by nofun) hs).2.2

theorem run_queued {s s' : EventLoop τ φ} {labels : List (OutsideLabel τ φ)}
    (hr : (threads τ φ).run (fun _ _ => True) s labels = some s') :
    s'.queued = s.queued ++ labels.flatMap OutsideLabel.pushes := by
  induction labels generalizing s with
  | nil =>
    obtain rfl := Option.some.inj hr
    exact (List.append_nil _).symm
  | cons label labels ih =>
    unfold System.run at hr
    simp only [if_true] at hr
    obtain ⟨s₁, hs, hr⟩ := Option.bind_eq_some_iff.mp hr
    rw [ih hr, threadStep_queued hs, List.append_assoc, List.flatMap_cons]

theorem threadStep_fifo {s s' : EventLoop τ φ} {label : OutsideLabel τ φ} (h : Fifo s)
    (hs : s.threadStep label = some s') : Fifo s' := by
  cases label with
  | inLoop label => exact step_fifo h hs
  | queueInLoopOutside cb =>
    obtain rfl := threadStep_outside hs
    exact push_fifo h cb

theorem threads_fifo {s : EventLoop τ φ} (h : (threads τ φ).Reachable s) : Fifo s := by
  refine System.Reach.invariant ?_ ?_ h
  · rintro s rfl
    rfl
  · intro s label s' hi _ hs
    exact threadStep_fifo hi hs

/-! ## Results -/

/-- **Every queued functor runs once and in order.** After any run, what was called so far, what is
left of the batch and `pendingFunctors_` are together exactly the pushes of the run. Until the next
swap only the functors of the batch are called, none that is pushed from then on (its place lies
behind), and the swap takes the whole queue when nothing is left of the batch before. -/
theorem functors_in_order {s : EventLoop τ φ} {labels : List (OutsideLabel τ φ)}
    (hr : (threads τ φ).run (fun _ _ => True) new labels = some s) :
    labels.flatMap OutsideLabel.pushes = s.executed ++ s.pc.batch ++ s.pendingFunctors ∧
      (∀ s', (threads τ φ).Leads (fun s label => ¬ s.Swaps label) s s' →
        s'.executed ++ s'.pc.batch = s.executed ++ s.pc.batch ∧
        ∀ place, (labels.flatMap OutsideLabel.pushes).length ≤ place → s'.executed.length ≤ place) ∧
      ∀ label s', s.Swaps label → s.threadStep label = some s' →
        s.pc.batch = [] ∧ s'.executed = s.executed ∧ s'.pc.batch = s.pendingFunctors ∧
        s'.pendingFunctors = [] := by
  have hinit : (threads τ φ).Reachable new := .init rfl
  have hfifo : Fifo s := threads_fifo (hinit.run hr)
  have hqueued : s.queued = labels.flatMap OutsideLabel.pushes := run_queued hr
  refine ⟨hqueued ▸ hfifo, fun s' hl => ?_, fun label s' hswap hs => ?_⟩
  · have hbatch : s'.executed ++ s'.pc.batch = s.executed ++ s.pc.batch :=
      System.Leads.invariant (I := fun s' => s'.executed ++ s'.pc.batch = s.executed ++ s.pc.batch)
        (fun _ _ _ hi hc hs => (threadStep_batch hc hs).trans hi) hl rfl
    refine ⟨hbatch, fun place hplace => ?_⟩
    have htaken := congrArg List.length hbatch
    have hall := congrArg List.length hfifo
    rw [hqueued] at hall
    simp only [List.length_append] at htaken hall
    omega
  · refine ⟨?_, threadStep_swap hswap hs⟩
    rw [hswap.1]
    rfl

/-- A push before `loop` is entered, one from another thread, and one from the first functor while
the second is still to be called. -/
theorem functors_in_order_pushed : ∃ s : EventLoop Unit Nat,
    (threads Unit Nat).run (fun _ _ => True) new
      [.queueInLoopOutside 1, .inLoop .wakeupIfCalling, .inLoop (.advance []),
        .inLoop (.queueInLoopFrom () 2), .inLoop (.wakeupFrom ()), .inLoop (.advance []),
        .inLoop (.advance []), .inLoop (.advance []), .inLoop (.advance []), .inLoop (.advance []),
        .inLoop (.advance []), .inLoop (.queueInLoop 3)] = some s ∧
    s.pc = .calling (some 1) [2] ∧ [1, 2, 3] = s.executed ++ s.pc.batch ++ s.pendingFunctors := by
  have hrun : (threads Unit Nat).run (fun _ _ => True) new
      [.queueInLoopOutside 1, .inLoop .wakeupIfCalling, .inLoop (.advance []),
        .inLoop (.queueInLoopFrom () 2), .inLoop (.wakeupFrom ()), .inLoop (.advance []),
        .inLoop (.advance []), .inLoop (.advance []), .inLoop (.advance []), .inLoop (.advance []),
        .inLoop (.advance []), .inLoop (.queueInLoop 3)] = some _ := rfl
  exact ⟨_, hrun, rfl, (functors_in_order hrun).1⟩

end EventLoop

end Agora
