import Agora.Code.EventLoopThread
import Agora.EventLoop.Steps

/-! # Whether a request to stop the thread is kept -/

namespace Agora

open Lib

variable {τ φ : Type}

namespace EventLoop

/-! ## What a step of the loop does to `quit_` -/

theorem advance_quit {s s' : EventLoop τ φ} {active : List Active} (hs : s.advance active = some s')
    (hpc : s.pc ≠ .entered) : s'.quit = s.quit ∧ (s'.pc = .entered → s.pc = .outside) ∧
      (s'.pc = .outside → s.pc = .leaving) ∧ (s.pc = .leaving → s'.pc = .outside) := by
  cases advance_cases hs with
  | clears hat => exact absurd hat hpc
  | enters hat => exact ⟨rfl, fun _ => hat, nofun, fun hl => nomatch hat.symm.trans hl⟩
  | leaves hat => exact ⟨rfl, nofun, fun _ => hat, fun _ => rfl⟩
  | stops hat | goesOn hat | polls hat | drains hat | handles hat | dispatched hat | swaps hat
  | calls hat | called hat | destroyed hat =>
    exact ⟨rfl, nofun, nofun, fun hl => nomatch hat.symm.trans hl⟩

theorem step_quit [DecidableEq τ] {s s' : EventLoop τ φ} {label : LoopLabel τ φ}
    (hs : s.step label = some s') (hl : ∀ active, label ≠ .advance active) :
    s'.pc = s.pc ∧ (s.quit = true → s'.quit = true) := by
  cases step_cases hs with
  | advance => exact absurd rfl (hl _)
  | quit | quitFrom => exact ⟨rfl, fun _ => rfl⟩
  | queueInLoop | wakesUp | wakesNot | queueInLoopFrom | wakeupFrom => exact ⟨rfl, id⟩

end EventLoop

namespace EventLoopThread

/-- The worker is blocked in `poll` with nothing to wake it, and the owner waits for it. -/
def Hangs (s : EventLoopThread τ φ) : Prop :=
  s.owner = .joining ∧ s.loop.pc = .polling ∧ s.loop.quit = false ∧ s.loop.eventfd = 0

structure StopKept (s : EventLoopThread τ φ) : Prop where
  kept : s.quitSet = true → s.loop.quit = true
  joins : ¬ s.Hangs

/-- The destructor sets `quit_` when `loop` has cleared it. -/
def QuitsBehindStart (s : EventLoopThread τ φ) : ThreadLabel τ φ → Prop
  | .quit => s.worker ≠ .published ∧ s.loop.pc ≠ .entered
  | _ => True

instance [DecidableEq φ] (s : EventLoopThread τ φ) : ∀ label, Decidable (s.QuitsBehindStart label)
  | .quit => inferInstanceAs (Decidable (_ ≠ _ ∧ _ ≠ _))
  | .startLoop | .startedLoop | .publish | .loop _ | .clear | .exit | .destroy | .wakeup | .join =>
    isTrue trivial

/-! ## The invariant -/

/-- `quit_` will be cleared before it is tested. -/
def clears (s : EventLoopThread τ φ) : Prop :=
  s.worker = .absent ∨ s.worker = .constructing ∨ s.worker = .published ∨ s.loop.pc = .entered

structure StopInv (s : EventLoopThread τ φ) : Prop where
  kept : s.quitSet = true → s.loop.quit = true ∧ ¬ s.clears
  /-- The loop thread is in `loop` between the call and the return. -/
  running : s.loop.pc = .outside ↔ s.worker ≠ .looping
  pointer : s.loop_ = true ↔ s.worker = .published ∨ s.worker = .looping ∨ s.worker = .returned
  outside : s.owner = .outside → s.worker = .absent
  absent : s.worker = .absent → s.owner = .outside ∨ s.owner = .joined
  constructing : s.worker = .constructing → s.owner = .waiting
  /-- It joins behind `quit`, or because the thread has left `loop`. -/
  joining : s.owner = .joining → s.quitSet = true ∨ s.worker = .cleared ∨ s.worker = .exited
  waking : s.owner = .waking → s.quitSet = true

variable {s s' : EventLoopThread τ φ}

theorem StopInv.stopKept (h : StopInv s) : StopKept s := by
  refine ⟨fun hset => (h.kept hset).1, ?_⟩
  rintro ⟨howner, hpc, hquit, -⟩
  rcases h.joining howner with hset | hleft
  · exact nomatch (h.kept hset).1.symm.trans hquit
  · have hout := h.running.mpr (by rcases hleft with hw | hw <;> rw [hw] <;> nofun)
    exact nomatch hout.symm.trans hpc

theorem StopInv.not_set (h : StopInv s) (hc : s.clears) : s.quitSet = false := by
  by_contra hset
  exact (h.kept (eq_true_of_ne_false hset)).2 hc

theorem new_inv : StopInv (new : EventLoopThread τ φ) := by
  refine ⟨nofun, ⟨fun _ => nofun, fun _ => rfl⟩, ?_, fun _ => rfl, fun _ => .inl rfl, nofun, nofun,
    nofun⟩
  simp [new]

variable [DecidableEq τ]

/-! ## The steps -/

omit [DecidableEq τ] in
theorem StopInv.worked {loop : EventLoop (Option τ) φ} {worker : WorkerPc} (h : StopInv s)
    (hmay : s.worker = .published ∨ s.worker = .looping) (hw : worker = .looping ∨ worker = .returned)
    (hpc : loop.pc = .outside ↔ worker ≠ .looping)
    (hkept : s.quitSet = true → loop.quit = true ∧ loop.pc ≠ .entered) :
    StopInv { s with loop := loop, worker := worker } := by
  have hthere : s.worker ≠ .absent ∧ s.worker ≠ .cleared ∧ s.worker ≠ .exited := by
    rcases hmay with hl | hl <;> rw [hl] <;> exact ⟨nofun, nofun, nofun⟩
  refine ⟨fun hset => ⟨(hkept hset).1, ?_⟩, hpc, ?_, fun howner => ?_, fun hl => ?_, fun hl => ?_,
    fun howner => ?_, h.waking⟩
  · rintro (hl | hl | hl | hl)
    · rcases hw with rfl | rfl <;> cases hl
    · rcases hw with rfl | rfl <;> cases hl
    · rcases hw with rfl | rfl <;> cases hl
    · exact (hkept hset).2 hl
  · have hpointer : s.loop_ = true := h.pointer.mpr (hmay.imp id .inl)
    exact ⟨fun _ => .inr hw, fun _ => hpointer⟩
  · exact absurd (h.outside howner) hthere.1
  · rcases hw with rfl | rfl <;> cases hl
  · rcases hw with rfl | rfl <;> cases hl
  · exact .inl ((h.joining howner).resolve_right fun hleft => hleft.elim hthere.2.1 hthere.2.2)

omit [DecidableEq τ] in
theorem advance_inv {active : List Active} {loop : EventLoop (Option τ) φ} (h : StopInv s)
    (hmay : s.worker = .published ∨ s.worker = .looping) (hs : s.loop.advance active = some loop) :
    StopInv { s with loop := loop, worker := s.afterLoop (.advance active) } := by
  by_cases hentered : s.loop.pc = .entered
  · -- `quit_` is cleared: the destructor has not set it yet.
    have hnot := h.not_set (.inr (.inr (.inr hentered)))
    unfold EventLoop.advance at hs
    rw [hentered] at hs
    have hafter : s.afterLoop (.advance active) = .looping := by
      unfold afterLoop
      rw [hentered]
      rfl
    rw [hafter]
    obtain rfl := Option.some.inj hs
    refine h.worked hmay (.inl rfl) ⟨nofun, fun hne => absurd rfl hne⟩ fun hset => ?_
    exact nomatch hnot.symm.trans hset
  · obtain ⟨hquit, henters, hout, hleaves⟩ := EventLoop.advance_quit hs hentered
    have hkept : s.quitSet = true → loop.quit = true ∧ loop.pc ≠ .entered := by
      intro hset
      obtain ⟨hon, hpast⟩ := h.kept hset
      refine ⟨hquit.trans hon, fun hl => ?_⟩
      have hpublished := hmay.resolve_right (h.running.mp (henters hl))
      exact hpast (.inr (.inr (.inl hpublished)))
    rcases hleaving : s.loop.pc.isLeaving with _ | _
    · have hafter : s.afterLoop (.advance active) = .looping := by
        unfold afterLoop
        rw [hleaving]
        rfl
      have hnot : s.loop.pc ≠ .leaving := by
        intro hl
        rw [hl] at hleaving
        cases hleaving
      rw [hafter]
      exact h.worked hmay (.inl rfl) ⟨fun hl => absurd (hout hl) hnot, fun hne => absurd rfl hne⟩ hkept
    · have hafter : s.afterLoop (.advance active) = .returned := by
        unfold afterLoop
        rw [hleaving]
        rfl
      have hat : s.loop.pc = .leaving := by
        rcases hpc : s.loop.pc with _ | _ | _ | _ | _ | _ | _ | _ | _
        all_goals first | rfl | (rw [hpc] at hleaving; cases hleaving)
      rw [hafter]
      exact h.worked hmay (.inr rfl) ⟨fun _ => nofun, fun _ => hleaves hat⟩ hkept

theorem call_inv {label : LoopLabel (Option τ) φ} {loop : EventLoop (Option τ) φ} (h : StopInv s)
    (hl : ∀ active, label ≠ .advance active) (hs : s.loop.step label = some loop) :
    StopInv { s with loop := loop } := by
  obtain ⟨hpc, hquit⟩ := EventLoop.step_quit hs hl
  refine ⟨fun hset => ?_, ?_, h.pointer, h.outside, h.absent, h.constructing, h.joining, h.waking⟩
  · obtain ⟨hon, hpast⟩ := h.kept hset
    refine ⟨hquit hon, ?_⟩
    unfold clears at hpast ⊢
    rw [hpc]
    exact hpast
  · rw [hpc]
    exact h.running

theorem loop_inv {label : LoopLabel (Option τ) φ} {loop : EventLoop (Option τ) φ} (h : StopInv s)
    (hmay : s.mayStep label = true) (hs : s.loop.step label = some loop) :
    StopInv { s with loop := loop, worker := s.afterLoop label } := by
  cases label with
  | advance active =>
    cases EventLoop.step_cases hs with
    | advance _ hs => exact advance_inv h (by simpa [mayStep] using hmay) hs
  | queueInLoop _ | wakeupIfCalling | quit | queueInLoopFrom _ _ | quitFrom _ | wakeupFrom _ =>
    exact call_inv h (by intro active heq; cases heq) hs

omit [DecidableEq τ] in
theorem StopInv.there (h : StopInv s) (hout : s.owner ≠ .outside) (hjoined : s.owner ≠ .joined)
    (hwaiting : s.owner ≠ .waiting) : s.worker ≠ .absent ∧ s.worker ≠ .constructing :=
  ⟨fun hl => (h.absent hl).elim hout hjoined, fun hl => hwaiting (h.constructing hl)⟩

omit [DecidableEq τ] in
theorem StopInv.ownerMoves {owner : OwnerPc} (h : StopInv s)
    (hthere : s.worker ≠ .absent ∧ s.worker ≠ .constructing) (hout : owner ≠ .outside)
    (hjoining : owner = .joining → s.quitSet = true ∨ s.worker = .cleared ∨ s.worker = .exited)
    (hwaking : owner = .waking → s.quitSet = true) : StopInv { s with owner := owner } :=
  ⟨h.kept, h.running, h.pointer, fun howner => absurd howner hout, fun hl => absurd hl hthere.1,
    fun hl => absurd hl hthere.2, hjoining, hwaking⟩

theorem step_inv {label : ThreadLabel τ φ} (h : StopInv s) (hc : s.QuitsBehindStart label)
    (hs : s.step label = some s') : StopInv s' := by
  unfold step at hs
  cases label with
  | startLoop =>
    simp only [Option.ite_none_right_eq_some, Option.some.injEq] at hs
    obtain ⟨howner, rfl⟩ := hs
    have habsent := h.outside howner
    have hnot := h.not_set (.inl habsent)
    have hpointer := h.pointer
    rw [habsent] at hpointer
    refine ⟨fun hset => (nomatch hnot.symm.trans hset), ⟨fun _ => nofun, fun _ => ?_⟩, ?_, nofun,
      nofun, fun _ => rfl, nofun, nofun⟩
    · exact h.running.mpr (by rw [habsent]; nofun)
    · simpa using hpointer
  | startedLoop =>
    simp only [Option.ite_none_right_eq_some, Option.some.injEq, Bool.and_eq_true,
      decide_eq_true_eq] at hs
    obtain ⟨⟨howner, hloop⟩, rfl⟩ := hs
    have hworker := h.pointer.mp hloop
    refine ⟨h.kept, h.running, h.pointer, nofun, fun hl => ?_, fun hl => ?_, nofun, nofun⟩
    · have hl : s.worker = .absent := hl
      rw [hl] at hworker
      rcases hworker with hw | hw | hw <;> cases hw
    · have hl : s.worker = .constructing := hl
      rw [hl] at hworker
      rcases hworker with hw | hw | hw <;> cases hw
  | publish =>
    simp only [Option.ite_none_right_eq_some, Option.some.injEq] at hs
    obtain ⟨hworker, rfl⟩ := hs
    have hwaiting := h.constructing hworker
    have hnot := h.not_set (.inr (.inl hworker))
    refine ⟨fun hset => (nomatch hnot.symm.trans hset), ⟨fun _ => nofun, fun _ => ?_⟩,
      ⟨fun _ => .inl rfl, fun _ => rfl⟩, fun howner => ?_, nofun, nofun, fun howner => ?_, h.waking⟩
    · exact h.running.mpr (by rw [hworker]; nofun)
    · exact nomatch hwaiting.symm.trans howner
    · exact nomatch hwaiting.symm.trans howner
  | loop label =>
    simp only [Option.ite_none_right_eq_some, Option.map_eq_some_iff] at hs
    obtain ⟨hmay, loop, hloop, rfl⟩ := hs
    exact loop_inv h hmay hloop
  | clear =>
    simp only [Option.ite_none_right_eq_some, Option.some.injEq] at hs
    obtain ⟨hworker, rfl⟩ := hs
    have hout := h.running.mpr (by rw [hworker]; nofun)
    refine ⟨fun hset => ⟨(h.kept hset).1, ?_⟩, ⟨fun _ => nofun, fun _ => hout⟩, by simp,
      fun howner => ?_, nofun, nofun, fun _ => .inr (.inl rfl), h.waking⟩
    · rintro (hl | hl | hl | hl)
      · cases hl
      · cases hl
      · cases hl
      · exact nomatch hout.symm.trans hl
    · exact nomatch hworker.symm.trans (h.outside howner)
  | exit =>
    simp only [Option.ite_none_right_eq_some, Option.some.injEq] at hs
    obtain ⟨hworker, rfl⟩ := hs
    have hout := h.running.mpr (by rw [hworker]; nofun)
    have hpointer := h.pointer
    rw [hworker] at hpointer
    refine ⟨fun hset => ⟨(h.kept hset).1, ?_⟩, ⟨fun _ => nofun, fun _ => hout⟩, by simpa using hpointer,
      fun howner => ?_, nofun, nofun, fun _ => .inr (.inr rfl), h.waking⟩
    · rintro (hl | hl | hl | hl)
      · cases hl
      · cases hl
      · cases hl
      · exact nomatch hout.symm.trans hl
    · exact nomatch hworker.symm.trans (h.outside howner)
  | destroy =>
    simp only at hs
    split at hs
    · rename_i howner
      obtain rfl := Option.some.inj hs
      exact ⟨h.kept, h.running, h.pointer, nofun, fun _ => .inr rfl,
        fun hl => (nomatch (h.constructing hl).symm.trans howner), nofun, nofun⟩
    · simp only [Option.ite_none_right_eq_some, Option.some.injEq] at hs
      obtain ⟨⟨howner, -⟩, rfl⟩ := hs
      have hthere := h.there (by rw [howner]; nofun) (by rw [howner]; nofun) (by rw [howner]; nofun)
      by_cases hloop : s.loop_ = true
      · rw [if_pos hloop]
        exact h.ownerMoves hthere nofun nofun nofun
      · have hleft : s.worker = .cleared ∨ s.worker = .exited := by
          have hpointer := mt h.pointer.mpr hloop
          rcases hw : s.worker with _ | _ | _ | _ | _ | _ | _ <;> simp_all
        rw [if_neg hloop]
        exact h.ownerMoves hthere nofun (fun _ => .inr hleft) nofun
  | quit =>
    simp only [ne_eq, Option.ite_none_left_eq_some, not_not] at hs
    obtain ⟨howner, hs⟩ := hs
    have hthere := h.there (by rw [howner]; nofun) (by rw [howner]; nofun) (by rw [howner]; nofun)
    split at hs
    · obtain rfl := Option.some.inj hs
      exact h.ownerMoves hthere nofun nofun nofun
    · obtain ⟨loop, hloop, rfl⟩ := Option.map_eq_some_iff.mp hs
      have hcalled := call_inv h (by intro active heq; cases heq) hloop
      have hpc := (EventLoop.step_quit hloop (by intro active heq; cases heq)).1
      have hset : loop.quit = true := by
        cases EventLoop.step_cases hloop
        rfl
      refine ⟨fun _ => ⟨hset, ?_⟩, hcalled.running, h.pointer, nofun, fun hl => absurd hl hthere.1,
        fun hl => absurd hl hthere.2, nofun, fun _ => rfl⟩
      rintro (hl | hl | hl | hl)
      · exact hthere.1 hl
      · exact hthere.2 hl
      · exact hc.1 hl
      · exact hc.2 (hpc.symm.trans hl)
  | wakeup =>
    simp only [ne_eq, Option.ite_none_left_eq_some, not_not] at hs
    obtain ⟨howner, hs⟩ := hs
    have hthere := h.there (by rw [howner]; nofun) (by rw [howner]; nofun) (by rw [howner]; nofun)
    split at hs
    · obtain rfl := Option.some.inj hs
      exact h.ownerMoves hthere nofun nofun nofun
    · obtain ⟨loop, hloop, rfl⟩ := Option.map_eq_some_iff.mp hs
      have hcalled := call_inv h (by intro active heq; cases heq) hloop
      exact hcalled.ownerMoves hthere nofun (fun _ => .inl (h.waking howner)) nofun
  | join =>
    simp only [Option.ite_none_right_eq_some, Option.some.injEq] at hs
    obtain ⟨⟨howner, -⟩, rfl⟩ := hs
    have hthere := h.there (by rw [howner]; nofun) (by rw [howner]; nofun) (by rw [howner]; nofun)
    exact h.ownerMoves hthere nofun nofun nofun

/-! ## Results -/

/-- **A stop request is never overwritten**, and no join hangs, as long as the destructor's `quit` comes
when `loop` has cleared `quit_`. -/
theorem stop_request_kept {s : EventLoopThread τ φ} (h : (system τ φ).Reach QuitsBehindStart s) :
    StopKept s := by
  have hinv : StopInv s := by
    refine System.Reach.invariant ?_ ?_ h
    · rintro s rfl
      exact new_inv
    · intro s label s' hi hc hs
      exact step_inv hi hc hs
  exact hinv.stopKept

/-- The destructor comes while the thread is at `poll`. -/
theorem stop_request_kept_polling :
    ∃ s, (system Unit Nat).run QuitsBehindStart new
        [.startLoop, .publish, .startedLoop, .loop (.advance []), .loop (.advance []),
          .loop (.advance []), .destroy, .quit, .wakeup] = some s ∧
      s.owner = .joining ∧ s.quitSet = true ∧ StopKept s := by
  have hrun : (system Unit Nat).run QuitsBehindStart new
      [.startLoop, .publish, .startedLoop, .loop (.advance []), .loop (.advance []),
        .loop (.advance []), .destroy, .quit, .wakeup] = some _ := rfl
  have hinit : (system Unit Nat).Reach QuitsBehindStart new := .init rfl
  exact ⟨_, hrun, rfl, rfl, stop_request_kept (hinit.run hrun)⟩

/-- The destructor comes between `loop_` being set and `loop` being called: `loop` clears `quit_`, the
wakeup is drained once, and the join never ends. -/
theorem stop_request_overwritten :
    ∃ s : EventLoopThread Unit Nat, (system Unit Nat).Reachable s ∧ s.quitSet = true ∧ s.Hangs ∧
      ¬ StopKept s := by
  have hrun : (system Unit Nat).run (fun _ _ => True) new
      [.startLoop, .publish, .startedLoop, .destroy, .quit, .wakeup, .loop (.advance []),
        .loop (.advance []), .loop (.advance []), .loop (.advance [.wakeup]), .loop (.advance []),
        .loop (.advance []), .loop (.advance []), .loop (.advance []), .loop (.advance []),
        .loop (.advance [])] = some _ := rfl
  have hinit : (system Unit Nat).Reachable new := .init rfl
  refine ⟨_, hinit.run hrun, rfl, ⟨rfl, rfl, rfl, rfl⟩, fun hkept => ?_⟩
  exact absurd (hkept.kept rfl) (by decide)

end EventLoopThread

end Agora
