import Agora.TimerQueue.Cancel

/-! # A one-shot timer runs at most once -/

open Agora.Lib Agora.Lib.Prog

namespace Agora.TimerQueue

/-- If this call creates the `n`-th timer, it creates a one-shot timer. -/
def createsOneShot (n : Nat) (s : TimerQueue) : TimerLabel → Prop
  | .addTimer _ _ interval | .addTimerElsewhere _ _ interval => s.numCreated + 1 = n → interval = none
  | _ => True

instance (n : Nat) (s : TimerQueue) : ∀ label, Decidable (createsOneShot n s label)
  | .addTimer _ _ interval | .addTimerElsewhere _ _ interval =>
    inferInstanceAs (Decidable (s.numCreated + 1 = n → interval = none))
  | .returnElsewhere _ | .cancel _ | .cancelElsewhere _ | .functor | .handleRead | .expire => .isTrue trivial

/-- The runs in which the `n`-th timer is a one-shot timer. -/
def oneShot (n : Nat) : Machine.Condition TimerQueue Unit Int TimerLabel :=
  ⟨createsOneShot n, fun _ _ _ => True⟩

instance (n : Nat) (s : TimerQueue) (label : TimerLabel) : Decidable ((oneShot n).label s label) :=
  inferInstanceAs (Decidable (createsOneShot n s label))

instance (n : Nat) (s : TimerQueue) (q : Unit) (a : Int) : Decidable ((oneShot n).answer s q a) :=
  .isTrue trivial

/-- Behind its only callback the timer is over. -/
structure OnceOk (n : Nat) (s : TimerQueue) : Prop where
  oneShot : ∀ timer t, s.heap timer = some t → t.sequence = n → t.repeats = false
  once : s.trace.count (.run n) ≤ 1
  ended : 0 < s.trace.count (.run n) → s.Over n

variable {n : Nat} {s s' : TimerQueue}

theorem OnceOk.quiet (h : OnceOk n s) (ht : s'.trace.count (.run n) = s.trace.count (.run n))
    (hover : s.Over n → s'.Over n)
    (hheap : ∀ timer t, s'.heap timer = some t → t.sequence = n → t.repeats = false) : OnceOk n s' := by
  refine ⟨hheap, ?_, fun hpos => ?_⟩
  · rw [ht]
    exact h.once
  · rw [ht] at hpos
    exact hover (h.ended hpos)

theorem OnceOk.created {timer : Nat} {expiration : Int} {interval : Option Int} (h : OnceOk n s)
    (hinterval : s.numCreated + 1 = n → interval = none) (ht : s'.trace = s.trace)
    (hn : s'.numCreated = s.numCreated + 1) (hd : s'.done = s.done)
    (hh : s'.heap = Function.update s.heap timer (some ⟨expiration, interval, s.numCreated + 1⟩)) :
    OnceOk n s' := by
  refine h.quiet (by rw [ht]) (fun hover => hover.created hn hh hd) fun timer' t ht' hseq => ?_
  rw [hh] at ht'
  by_cases heq : timer' = timer
  · subst heq
    rw [Function.update_self] at ht'
    obtain rfl := Option.some.inj ht'
    simp [Timer.repeats, hinterval hseq]
  · rw [Function.update_of_ne heq] at ht'
    exact h.oneShot timer' t ht' hseq

theorem OnceOk.cancelled (h : OnceOk n s) (id : TimerId) (now : Int) : OnceOk n (s.cancelled id now) := by
  refine h.quiet ?_ (fun hover => hover.cancelled id now) fun timer t ht hseq => ?_
  · rw [cancelled_trace]
    simp
  · exact h.oneShot timer t (heap_of_cancelled ht).1 hseq

theorem OnceOk.run (h : OnceOk n s) (ho : Owned s) {entry : Entry} {rest : List Entry} {t : Timer}
    (hw : s.waiting = entry :: rest) (ht : s.heap entry.2 = some t) :
    OnceOk n { s with
      waiting := rest
      done := s.done ++ [entry]
      trace := s.trace ++ [.run t.sequence] } := by
  have hdone : ∀ timer, timer ∈ s.done.map Prod.snd → timer ∈ (s.done ++ [entry]).map Prod.snd := by
    intro timer hin
    rw [List.map_append]
    exact List.mem_append_left _ hin
  by_cases hseq : t.sequence = n
  · have hnone : s.trace.count (.run n) = 0 := by
      by_contra hsome
      exact (h.ended (by omega)).not_waiting ho hw ht hseq
    have hone : (s.trace ++ [TimerEvent.run t.sequence]).count (.run n) = 1 := by
      simp [hnone, hseq]
    refine ⟨h.oneShot, by rw [hone], fun _ => ?_⟩
    refine ⟨hseq ▸ (ho.names.created _ t ht).2, fun timer t' ht' hseq' => ?_⟩
    obtain rfl : timer = entry.2 := ho.names.unique _ _ _ _ ht' ht (hseq'.trans hseq.symm)
    refine ⟨h.oneShot _ t' ht' hseq', ?_⟩
    simp
  · refine h.quiet (by simp [hseq]) (fun hover => ?_) h.oneShot
    exact hover.of_heap (Nat.le_refl _) (fun _ _ ht _ => ht) hdone

theorem OnceOk.again (h : OnceOk n s) {now : Int} {entry : Entry} {rest : List Entry} {t : Timer}
    (hd : s.done = entry :: rest) (ht : s.heap entry.2 = some t) (hrepeats : t.repeats = true) :
    OnceOk n { s with
      done := rest
      heap := Function.update s.heap entry.2 (some (t.restart now))
      timers := Entry.insert ((t.restart now).expiration, entry.2) s.timers } := by
  have hother : ∀ timer t', Function.update s.heap entry.2 (some (t.restart now)) timer = some t' →
      t'.sequence = n → timer ≠ entry.2 ∧ s.heap timer = some t' := by
    intro timer t' ht' hseq
    by_cases heq : timer = entry.2
    · subst heq
      obtain rfl : t.restart now = t' := by simpa using ht'
      have honce := h.oneShot entry.2 t ht ((t.restart_sequence now).symm.trans hseq)
      cases hrepeats.symm.trans honce
    · exact ⟨heq, by simpa [heq] using ht'⟩
  refine h.quiet rfl (fun hover => hover.drop hd rfl rfl hother) fun timer t' ht' hseq => ?_
  exact h.oneShot timer t' (hother timer t' ht' hseq).2 hseq

theorem OnceOk.dropped (h : OnceOk n s) {entry : Entry} {rest : List Entry}
    (hd : s.done = entry :: rest) :
    OnceOk n { s with done := rest, heap := Function.update s.heap entry.2 none } := by
  have hother : ∀ timer t', Function.update s.heap entry.2 none timer = some t' → t'.sequence = n →
      timer ≠ entry.2 ∧ s.heap timer = some t' := by
    intro timer t' ht' _
    by_cases heq : timer = entry.2
    · subst heq
      simp at ht'
    · exact ⟨heq, by simpa [heq] using ht'⟩
  refine h.quiet rfl (fun hover => hover.drop hd rfl rfl hother) fun timer t' ht' hseq => ?_
  exact h.oneShot timer t' (hother timer t' ht' hseq).2 hseq

theorem OnceOk.move {m : Option TimerLabel} (h : OnceOk n s) (ho : Owned s) (hm : Move s m s')
    (hl : ∀ label, m = some label → createsOneShot n s label) : OnceOk n s' := by
  cases hm with
  | addTimer timer expiration now interval hv => exact h.created (hl _ rfl) rfl rfl rfl rfl
  | addTimerElsewhere timer expiration interval hv => exact h.created (hl _ rfl) rfl rfl rfl rfl
  | returnElsewhere timer t _ => exact h.quiet rfl (fun hover => hover) h.oneShot
  | cancel id now _ => exact h.cancelled id now
  | cancelElsewhere id _ => exact h.quiet rfl (fun hover => hover) h.oneShot
  | functorAdd timer t rest now _ _ => exact h.quiet rfl (fun hover => hover) h.oneShot
  | functorCancel id rest now _ =>
    have hrest : OnceOk n { s with pendingFunctors := rest } := h.quiet rfl (fun hover => hover) h.oneShot
    exact hrest.cancelled id now
  | expire armed _ => exact h.quiet rfl (fun hover => hover) h.oneShot
  | expired now _ _ _ => exact h.quiet rfl (fun hover => hover) h.oneShot
  | run entry rest t hw ht => exact h.run ho hw ht
  | again now entry rest t _ hd ht hrepeats => exact h.again hd ht hrepeats
  | dropped entry rest t _ hd _ _ => exact h.dropped hd
  | finished now _ _ => exact h.quiet rfl (fun hover => hover) h.oneShot

theorem new_onceOk : OnceOk n new := ⟨by simp [new], by simp [new], by simp [new]⟩

/-! ## Result -/

/-- **A one-shot timer runs at most once**, whatever the callbacks add and cancel, in its own pass or later, and
whoever gets its address next. -/
theorem oneShot_runs_once {c : Config Unit TimerQueue Unit Int Nat Fault} (h : machine.Reach (oneShot n) c) :
    c.st.trace.count (.run n) ≤ 1 :=
  (invariant_of_move new_onceOk (fun _ _ _ ho hk hl hm => hk.move ho hm hl) h).2.2.once

/-- The second timer is the first one's heir at its address, and both have run. -/
theorem oneShot_runs_once_heir :
    ∃ c, machine.system.run (machine.Meets (oneShot 1)) (.initial new)
        [.start (.addTimer 8 0 none) [0], .start .handleRead [10], .resume () [],
          .start (.addTimer 8 20 (some 10)) [10], .start .handleRead [30], .resume () [40],
          .start .handleRead [50], .resume () [50]] = some c ∧
      c.st.trace = [.run 1, .run 2, .run 2] ∧ c.st.trace.count (.run 1) ≤ 1 := by
  have hrun : (machine.system.run (machine.Meets (oneShot 1)) (.initial new)
        [.start (.addTimer 8 0 none) [0], .start .handleRead [10], .resume () [],
          .start (.addTimer 8 20 (some 10)) [10], .start .handleRead [30], .resume () [40],
          .start .handleRead [50], .resume () [50]]).map
      (fun c => c.st.trace) = some [.run 1, .run 2, .run 2] := by decide +kernel
  obtain ⟨c, hc, htrace⟩ := Option.map_eq_some_iff.mp hrun
  exact ⟨c, hc, htrace, oneShot_runs_once (machine.reach_of_run rfl hc)⟩

end Agora.TimerQueue
