import Agora.EventLoop.Steps

/-!
# No lost wakeup

From the swap of the queue to the next `poll`, whatever is in the queue has been announced: the
eventfd counter is positive, or another thread is about to make it so.
-/

namespace Agora

open Lib

variable {τ φ : Type}

/-- The loop thread polls before it swaps the queue again. -/
def LoopPc.pollsNext : LoopPc φ → Bool
  | .dispatching _ _ | .swapping => false
  | _ => true

/-- `callingPendingFunctors_` is set. -/
def LoopPc.inPendingFunctors : LoopPc φ → Bool
  | .swapping | .calling _ _ => true
  | _ => false

namespace EventLoop

/-- The next `poll` returns at once, or as soon as another thread has gone on. -/
def Woken (s : EventLoop τ φ) : Prop := 0 < s.eventfd ∨ ∃ t, s.callers t ≠ .idle

structure WakeupInv (s : EventLoop τ φ) : Prop where
  flag : s.callingPendingFunctors = s.pc.inPendingFunctors
  queueing : s.queueing.isSome = true → s.pc.inUserCode = true ∧ s.pc ≠ .destroying
  pending : s.pc.pollsNext = true → s.pendingFunctors ≠ [] → Woken s ∨ s.queueing.isSome = true
  quit : s.pc = .polling → s.quit = true → Woken s

/-! ## The steps -/

theorem wakeup_pos (s : EventLoop τ φ) : 0 < s.wakeup.eventfd := by
  unfold wakeup
  simp only
  omega

theorem new_inv : WakeupInv (new : EventLoop τ φ) := by
  refine ⟨rfl, ?_, ?_, ?_⟩
  · intro h; cases h
  · intro _ h; exact absurd rfl h
  · intro h; cases h

theorem advance_inv {s s' : EventLoop τ φ} {active : List Active} (hq : s.queueing.isSome = false)
    (h : WakeupInv s) (hs : s.advance active = some s') : WakeupInv s' := by
  have hflag := h.flag
  have hpending := h.pending
  have hnot : ¬ s.queueing.isSome = true := by rw [hq]; nofun
  cases advance_cases hs with
  | goesOn hpc hquit =>
    rw [hpc] at hflag hpending
    exact ⟨hflag, fun hc => absurd hc hnot, fun _ => hpending rfl, fun _ hc => absurd hc hquit⟩
  | swaps hpc =>
    rw [hpc] at hflag
    exact ⟨hflag, fun hc => absurd hc hnot, fun _ hc => absurd rfl hc, nofun⟩
  | polls hpc | drains hpc | handles hpc =>
    rw [hpc] at hflag
    exact ⟨hflag, fun hc => absurd hc hnot, nofun, nofun⟩
  | dispatched => exact ⟨rfl, fun hc => absurd hc hnot, nofun, nofun⟩
  | called hpc =>
    rw [hpc] at hpending
    exact ⟨rfl, fun hc => absurd hc hnot, fun _ => hpending rfl, nofun⟩
  | enters hpc | clears hpc | stops hpc | calls hpc | destroyed hpc | leaves hpc =>
    rw [hpc] at hflag hpending
    exact ⟨hflag, fun hc => absurd hc hnot, fun _ => hpending rfl, nofun⟩

theorem queueInLoop_inv {s : EventLoop τ φ} {cb : φ} {place : Nat} (hu : s.pc.inUserCode = true)
    (hd : s.pc ≠ .destroying) (h : WakeupInv s) :
    WakeupInv { s.push cb with queueing := some place } := by
  refine ⟨h.flag, fun _ => ⟨hu, hd⟩, fun _ _ => .inr rfl, ?_⟩
  intro hp
  rw [show s.pc = .polling from hp] at hu
  cases hu

/-- In the handlers the flag is clear, and the swap is still to come. -/
theorem wakesNot_inv {s : EventLoop τ φ} (h : WakeupInv s) (hq : s.queueing.isSome = true)
    (hc : ¬ s.callingPendingFunctors = true) : WakeupInv { s with queueing := none } := by
  obtain ⟨hu, hd⟩ := h.queueing hq
  have hflag := h.flag
  have hp : s.pc.pollsNext = false ∧ s.pc ≠ .polling := by
    cases hpc : s.pc <;> rw [hpc] at hu hd hflag
    case dispatching => exact ⟨rfl, nofun⟩
    case calling => exact absurd hflag hc
    case destroying => exact absurd rfl hd
    all_goals cases hu
  refine ⟨h.flag, nofun, ?_, fun hpc => absurd hpc hp.2⟩
  intro hpc
  rw [show s.pc.pollsNext = true from hpc] at hp
  cases hp.1

theorem caller_inv {s s' : EventLoop τ φ} (h : WakeupInv s) (hw : Woken s') (hpc : s'.pc = s.pc)
    (hflag : s'.callingPendingFunctors = s.callingPendingFunctors)
    (hq : s'.queueing = s.queueing) : WakeupInv s' := by
  refine ⟨?_, ?_, fun _ _ => .inl hw, fun _ _ => hw⟩
  · rw [hflag, hpc, h.flag]
  · rw [hq, hpc]
    exact h.queueing

/-! ## Runs -/

/-- No functor is queued on the loop thread while it destroys the executed batch. -/
def NoQueueWhileDestroying (s : EventLoop τ φ) : LoopLabel τ φ → Prop
  | .queueInLoop _ => s.pc ≠ .destroying
  | _ => True

instance [DecidableEq φ] (s : EventLoop τ φ) :
    ∀ label, Decidable (NoQueueWhileDestroying s label)
  | .queueInLoop _ => inferInstanceAs (Decidable (s.pc ≠ .destroying))
  | .advance _ | .wakeupIfCalling | .quit | .queueInLoopFrom .. | .quitFrom _ | .wakeupFrom _ =>
    isTrue trivial

variable [DecidableEq τ]

theorem moveCaller_woken (s : EventLoop τ φ) (t : τ) {pc : CallerPc} (h : pc ≠ .idle) :
    Woken (s.moveCaller t pc) := by
  right
  refine ⟨t, ?_⟩
  unfold moveCaller
  simpa using h

theorem step_inv {s s' : EventLoop τ φ} {label : LoopLabel τ φ} (h : WakeupInv s)
    (hc : NoQueueWhileDestroying s label) (hs : s.step label = some s') : WakeupInv s' := by
  cases step_cases hs with
  | advance hidle hs => exact advance_inv hidle h hs
  | queueInLoop _ huser => exact queueInLoop_inv huser hc h
  | wakesUp =>
    -- In the functors the flag is set and the loop thread wakes itself.
    exact ⟨h.flag, nofun, fun _ _ => .inl (.inl (wakeup_pos s)), fun _ _ => .inl (wakeup_pos s)⟩
  | wakesNot hqueueing hcalling => exact wakesNot_inv h hqueueing hcalling
  | quit _ huser =>
    refine ⟨h.flag, h.queueing, h.pending, ?_⟩
    intro hp
    rw [show s.pc = .polling from hp] at huser
    cases huser
  | queueInLoopFrom => exact caller_inv h (moveCaller_woken _ _ nofun) rfl rfl rfl
  | quitFrom => exact caller_inv h (moveCaller_woken _ _ nofun) rfl rfl rfl
  | wakeupFrom => exact caller_inv h (.inl (wakeup_pos s)) rfl rfl rfl

theorem reach_inv {s : EventLoop τ φ} (h : (system τ φ).Reach NoQueueWhileDestroying s) :
    WakeupInv s := by
  refine System.Reach.invariant ?_ ?_ h
  · rintro s rfl
    exact new_inv
  · intro s label s' hi hc hs
    exact step_inv hi hc hs

/-- When the loop thread is at `poll`, a queued functor or a request to quit has been announced. -/
def NoLostWakeup (s : EventLoop τ φ) : Prop :=
  s.pc = .polling → s.pendingFunctors ≠ [] ∨ s.quit = true → Woken s

/-- **No wakeup is lost**, unless the destructor of an executed functor queues. -/
theorem no_lost_wakeup {s : EventLoop τ φ} (h : (system τ φ).Reach NoQueueWhileDestroying s) :
    NoLostWakeup s := by
  have hi := reach_inv h
  intro hpc hor
  rcases hor with hp | hq
  · rcases hi.pending (by rw [hpc]; rfl) hp with hw | hqueueing
    · exact hw
    · have hu := (hi.queueing hqueueing).1
      rw [hpc] at hu
      cases hu
  · exact hi.quit hpc hq

/-- A functor queues another one; the loop thread is at `poll` again with both pushes announced. -/
theorem no_lost_wakeup_nested :
    ∃ s, (system Unit Nat).run NoQueueWhileDestroying new
        [.advance [], .advance [], .advance [], .queueInLoopFrom () 1, .wakeupFrom (),
          .advance [.wakeup], .advance [], .advance [], .advance [], .advance [],
          .queueInLoop 2, .wakeupIfCalling, .advance [], .advance [], .advance []] = some s ∧
      s.pendingFunctors = [2] ∧ Woken s := by
  have hrun : (system Unit Nat).run NoQueueWhileDestroying new
      [.advance [], .advance [], .advance [], .queueInLoopFrom () 1, .wakeupFrom (),
        .advance [.wakeup], .advance [], .advance [], .advance [], .advance [],
        .queueInLoop 2, .wakeupIfCalling, .advance [], .advance [], .advance []] = some _ := rfl
  have hinit : (system Unit Nat).Reach NoQueueWhileDestroying new := .init rfl
  exact ⟨_, hrun, rfl, no_lost_wakeup (hinit.run hrun) rfl (.inl nofun)⟩

/-- The destructor of an executed functor queues: the loop thread is back at `poll` with the functor
in the queue, the counter at zero and no other thread in a call. -/
theorem wakeup_lost_by_destructor :
    ¬ ∀ s : EventLoop Unit Nat, (system Unit Nat).Reachable s → NoLostWakeup s := by
  intro hall
  have hrun : (system Unit Nat).run (fun _ _ => True) new
      [.advance [], .advance [], .advance [], .queueInLoopFrom () 1, .wakeupFrom (),
        .advance [.wakeup], .advance [], .advance [], .advance [], .advance [], .advance [],
        .queueInLoop 2, .wakeupIfCalling, .advance [], .advance []] = some _ := rfl
  have hinit : (system Unit Nat).Reachable new := .init rfl
  have hw := hall _ (hinit.run hrun) rfl (.inl nofun)
  rcases hw with hpos | ⟨t, ht⟩
  · exact absurd hpos (by decide)
  · exact ht rfl

end EventLoop

end Agora
