import Agora.Lib.Ledger
import Agora.TimerQueue.Moves

/-! # What a cancelled timer does -/

open Agora.Lib Agora.Lib.Prog

namespace Agora.TimerQueue

/-- Once `cancelInLoop` has run for an id, the callback of its timer is not started again. -/
def CancelsFinal (s : TimerQueue) : Prop :=
  ∀ u id, u ++ [.run id.sequence] <+: s.trace → .cancelInLoop id ∉ u

/-- `cancelInLoop` finds the timer in `timers_`, or has nothing to do: the timer is gone, or it is a
one-shot timer that the running pass has started. -/
def inReach (s : TimerQueue) (id : TimerId) : Bool :=
  match s.heap id.timer with
  | none => true
  | some t => t.sequence != id.sequence || (s.timers.any fun entry => entry.2 == id.timer) ||
      !t.repeats && s.done.any fun entry => entry.2 == id.timer

def cancelsInReach (s : TimerQueue) : TimerLabel → Prop
  | .cancel id => s.inReach id = true
  | .functor => ∀ f ∈ s.pendingFunctors.head?, ∀ id, f = .cancelInLoop id → s.inReach id = true
  | _ => True

instance (s : TimerQueue) : ∀ label, Decidable (s.cancelsInReach label)
  | .cancel _ => inferInstanceAs (Decidable (_ = true))
  | .functor => decidable_of_iff
      ((match s.pendingFunctors.head? with
        | some (.cancelInLoop id) => s.inReach id
        | _ => true) = true) (by
          unfold cancelsInReach
          rcases s.pendingFunctors.head? with _ | (_ | _) <;> simp)
  | .addTimer .. | .addTimerElsewhere .. | .returnElsewhere _ | .cancelElsewhere _ | .handleRead | .expire =>
    isTrue trivial

/-- Every `cancelInLoop` comes when its timer is in reach. -/
def reachable : Machine.Condition TimerQueue Unit Int TimerLabel :=
  ⟨cancelsInReach, fun _ _ _ => True⟩

instance (s : TimerQueue) (label : TimerLabel) : Decidable (reachable.label s label) :=
  inferInstanceAs (Decidable (s.cancelsInReach label))

instance (s : TimerQueue) (q : Unit) (a : Int) : Decidable (reachable.answer s q a) := isTrue trivial

/-! ## The invariant -/

/-- No timer has the sequence any more, but for a one-shot timer behind its last callback. -/
def Over (s : TimerQueue) (sequence : Nat) : Prop :=
  sequence ≤ s.numCreated ∧ ∀ timer t, s.heap timer = some t → t.sequence = sequence →
    t.repeats = false ∧ timer ∈ s.done.map Prod.snd

structure CancelOk (s : TimerQueue) : Prop where
  ended : ∀ id, .cancelInLoop id ∈ s.trace → s.Over id.sequence
  final : s.CancelsFinal

variable {s s' : TimerQueue}

theorem Over.of_heap {sequence : Nat} (h : s.Over sequence) (hn : s.numCreated ≤ s'.numCreated)
    (hh : ∀ timer t, s'.heap timer = some t → t.sequence = sequence → s.heap timer = some t)
    (hd : ∀ timer, timer ∈ s.done.map Prod.snd → timer ∈ s'.done.map Prod.snd) : s'.Over sequence := by
  refine ⟨Nat.le_trans h.1 hn, fun timer t ht hseq => ?_⟩
  obtain ⟨honce, hdone⟩ := h.2 timer t (hh timer t ht hseq) hseq
  exact ⟨honce, hd timer hdone⟩

theorem Over.drop {sequence : Nat} {entry : Entry} {rest : List Entry} (h : s.Over sequence)
    (hd : s.done = entry :: rest) (hd' : s'.done = rest) (hn : s'.numCreated = s.numCreated)
    (hh : ∀ timer t, s'.heap timer = some t → t.sequence = sequence →
      timer ≠ entry.2 ∧ s.heap timer = some t) : s'.Over sequence := by
  refine ⟨hn ▸ h.1, fun timer t ht hseq => ?_⟩
  obtain ⟨hne, ht⟩ := hh timer t ht hseq
  obtain ⟨honce, hdone⟩ := h.2 timer t ht hseq
  rw [hd, List.map_cons, List.mem_cons] at hdone
  rw [hd']
  exact ⟨honce, hdone.resolve_left hne⟩

theorem Over.cancelled {sequence : Nat} (h : s.Over sequence) (id : TimerId) (now : Int) :
    (s.cancelled id now).Over sequence := by
  refine h.of_heap ?_ (fun timer t ht _ => (heap_of_cancelled ht).1) fun timer hdone => ?_
  · unfold TimerQueue.cancelled
    split <;> exact Nat.le_refl _
  · rwa [(cancelled_same s id now).2]

theorem Over.not_waiting {sequence : Nat} (h : s.Over sequence) (ho : Owned s) {entry : Entry}
    {rest : List Entry} {t : Timer} (hw : s.waiting = entry :: rest) (ht : s.heap entry.2 = some t) :
    t.sequence ≠ sequence := by
  intro hseq
  obtain ⟨-, hdone⟩ := h.2 entry.2 t ht hseq
  have hone := List.nodup_iff_count_le_one.mp ho.places.nodup entry.2
  have hpos := List.count_pos_iff.mpr hdone
  rw [count_places, hw, List.map_cons, List.count_cons_self] at hone
  omega

theorem Owned.over_cancelled {id : TimerId} (h : Owned s) (hid : s.known id = true)
    (hr : s.inReach id = true) (now : Int) : (s.cancelled id now).Over id.sequence := by
  obtain ⟨hle, hat⟩ := h.names.ids id hid
  refine ⟨?_, fun timer t ht hseq => ?_⟩
  · unfold TimerQueue.cancelled
    split <;> exact hle
  obtain ⟨ht, hleft⟩ := heap_of_cancelled ht
  obtain rfl := hat timer t ht hseq
  have hmissing : s.finds id = false := eq_false_of_ne_true fun hfound => hleft hfound rfl
  have hzero : id.timer ≠ 0 := by
    intro hz
    rw [hz] at ht
    exact nomatch h.names.null.symm.trans ht
  have hnone : (s.timers.any fun entry => entry.2 == id.timer) = false := by
    unfold finds at hmissing
    simpa [hzero] using hmissing
  unfold inReach at hr
  rw [ht] at hr
  simp only [hseq, bne_self_eq_false, hnone, Bool.false_or, Bool.and_eq_true, Bool.not_eq_true',
    List.any_eq_true, beq_iff_eq] at hr
  obtain ⟨honce, entry, hin, heq⟩ := hr
  rw [(cancelled_same s id now).2]
  exact ⟨honce, List.mem_map.mpr ⟨entry, hin, heq⟩⟩

theorem cancelled_trace (s : TimerQueue) (id : TimerId) (now : Int) :
    (s.cancelled id now).trace = s.trace ++ [.cancelInLoop id] := by
  unfold cancelled
  split <;> rfl

theorem CancelsFinal.snoc_cancel (h : s.CancelsFinal) {id : TimerId}
    (ht : s'.trace = s.trace ++ [.cancelInLoop id]) : s'.CancelsFinal := by
  intro u id' hu
  rw [ht] at hu
  rcases prefix_snoc hu with ⟨-, heq⟩ | hpre
  · cases heq
  · exact h u id' hpre

theorem CancelOk.cancelled {id : TimerId} (h : CancelOk s) (ho : Owned s) (hid : s.known id = true)
    (hr : s.inReach id = true) (now : Int) : CancelOk (s.cancelled id now) := by
  refine ⟨fun id' hin => ?_, h.final.snoc_cancel (cancelled_trace s id now)⟩
  rw [cancelled_trace] at hin
  rcases List.mem_append.mp hin with hin | hin
  · exact (h.ended id' hin).cancelled id now
  · obtain rfl : id' = id := by simpa using hin
    exact ho.over_cancelled hid hr now

theorem CancelOk.of_over (h : CancelOk s) (ht : s'.trace = s.trace)
    (hover : ∀ sequence, s.Over sequence → s'.Over sequence) : CancelOk s' := by
  refine ⟨fun id hin => hover _ (h.ended id (ht ▸ hin)), ?_⟩
  intro u id hu
  exact h.final u id (ht ▸ hu)

theorem Over.created {sequence timer : Nat} {expiration : Int} {interval : Option Int}
    (h : s.Over sequence) (hn : s'.numCreated = s.numCreated + 1)
    (hh : s'.heap = Function.update s.heap timer (some ⟨expiration, interval, s.numCreated + 1⟩))
    (hd : s'.done = s.done) : s'.Over sequence := by
  have hle := h.1
  refine h.of_heap (by omega) (fun timer' t ht hseq => ?_) fun _ hin => hd ▸ hin
  rw [hh] at ht
  by_cases heq : timer' = timer
  · subst heq
    rw [Function.update_self] at ht
    obtain rfl := Option.some.inj ht
    simp only at hseq
    omega
  · rwa [Function.update_of_ne heq] at ht

theorem CancelOk.move {m : Option TimerLabel} (h : CancelOk s) (ho : Owned s)
    (hm : Move s m s') (hr : ∀ label, m = some label → s.cancelsInReach label) : CancelOk s' := by
  cases hm with
  | addTimer timer expiration now interval hv =>
    exact h.of_over rfl fun _ hover => hover.created rfl rfl rfl
  | addTimerElsewhere timer expiration interval hv =>
    exact h.of_over rfl fun _ hover => hover.created rfl rfl rfl
  | returnElsewhere timer t _ => exact h.of_over rfl fun _ hover => hover
  | cancel id now hid => exact h.cancelled ho hid (hr _ rfl) now
  | cancelElsewhere id _ => exact h.of_over rfl fun _ hover => hover
  | functorAdd timer t rest _ _ _ => exact h.of_over rfl fun _ hover => hover
  | functorCancel id rest now hq =>
    have hid := ho.names.queued id (hq ▸ List.mem_cons_self)
    have hreach : s.inReach id = true := hr _ rfl _ (by rw [hq]; rfl) id rfl
    have hrest : CancelOk { s with pendingFunctors := rest } := h.of_over rfl fun _ hover => hover
    exact hrest.cancelled (ho.popCancel hq) hid hreach now
  | expire armed _ => exact h.of_over rfl fun _ hover => hover
  | expired now _ _ _ => exact h.of_over rfl fun _ hover => hover
  | run entry rest t hw ht =>
    refine ⟨fun id hin => ?_, fun u id hu hin => ?_⟩
    · have hin : .cancelInLoop id ∈ s.trace := by simpa using hin
      refine (h.ended id hin).of_heap (Nat.le_refl _) (fun _ _ ht _ => ht) fun timer hdone => ?_
      rw [List.map_append]
      exact List.mem_append_left _ hdone
    · rcases prefix_snoc hu with ⟨rfl, hlast⟩ | hpre
      · have hseq : id.sequence = t.sequence := by simpa using hlast
        exact (h.ended id hin).not_waiting ho hw ht hseq.symm
      · exact h.final u id hpre hin
  | again now entry rest t _ hd ht hrepeats =>
    refine h.of_over rfl fun sequence hover => hover.drop hd rfl rfl fun timer t' ht' hseq => ?_
    by_cases heq : timer = entry.2
    · subst heq
      obtain rfl : t.restart now = t' := by simpa using ht'
      have honce := (hover.2 entry.2 t ht ((t.restart_sequence now).symm.trans hseq)).1
      exact nomatch hrepeats.symm.trans honce
    · exact ⟨heq, by simpa [heq] using ht'⟩
  | dropped entry rest t _ hd _ _ =>
    refine h.of_over rfl fun sequence hover => hover.drop hd rfl rfl fun timer t' ht' _ => ?_
    by_cases heq : timer = entry.2
    · subst heq
      simp at ht'
    · exact ⟨heq, by simpa [heq] using ht'⟩
  | finished now _ _ => exact h.of_over rfl fun _ hover => hover

theorem new_cancelOk : CancelOk new := by
  refine ⟨fun id hin => ?_, fun u id hu => ?_⟩
  · cases hin
  · simp [new] at hu

/-! ## Results -/

/-- **Cancellation is final** in every run whose cancels come when their timers are in reach. -/
theorem cancel_final {c : Config Unit TimerQueue Unit Int Nat Fault}
    (h : machine.Reach reachable c) : c.st.CancelsFinal :=
  (invariant_of_move new_cancelOk (fun _ _ _ ho hk hl hm => hk.move ho hm hl) h).2.2.final

/-- A timer cancels one that is not due yet, and itself. -/
theorem cancel_final_in_callback :
    ∃ c, machine.system.run (machine.Meets reachable) (.initial new)
        [.start (.addTimer 8 0 none) [0], .start (.addTimer 16 50 (some 10)) [],
          .start .handleRead [10], .start (.cancel ⟨16, 2⟩) [], .start (.cancel ⟨8, 1⟩) [],
          .resume () [], .start (.addTimer 16 20 none) [10], .start .handleRead [60]] = some c ∧
      c.st.trace = [.run 1, .cancelInLoop ⟨16, 2⟩, .cancelInLoop ⟨8, 1⟩, .run 3] ∧
      c.st.CancelsFinal := by
  have hrun : (machine.system.run (machine.Meets reachable) (.initial new)
        [.start (.addTimer 8 0 none) [0], .start (.addTimer 16 50 (some 10)) [],
          .start .handleRead [10], .start (.cancel ⟨16, 2⟩) [], .start (.cancel ⟨8, 1⟩) [],
          .resume () [], .start (.addTimer 16 20 none) [10], .start .handleRead [60]]).map
      (fun c => c.st.trace) =
        some [.run 1, .cancelInLoop ⟨16, 2⟩, .cancelInLoop ⟨8, 1⟩, .run 3] := by decide +kernel
  obtain ⟨c, hc, htrace⟩ := Option.map_eq_some_iff.mp hrun
  exact ⟨c, hc, htrace, cancel_final (machine.reach_of_run rfl hc)⟩

/-- Two timers expire in one pass, and the first cancels the second: it is not in `timers_` any more,
and it runs. -/
theorem cancelled_timer_runs :
    ¬ ∀ c : Config Unit TimerQueue Unit Int Nat Fault,
      machine.Reachable c → c.st.CancelsFinal := by
  intro hall
  have hrun : (machine.system.run (fun _ _ => True) (.initial new)
        [.start (.addTimer 8 0 none) [0], .start (.addTimer 16 0 none) [],
          .start .handleRead [10], .start (.cancel ⟨16, 2⟩) [], .resume () []]).map
      (fun c => c.st.trace) = some [.run 1, .cancelInLoop ⟨16, 2⟩, .run 2] := by decide +kernel
  obtain ⟨c, hc, htrace⟩ := Option.map_eq_some_iff.mp hrun
  have hfinal := hall c (machine.reachable_of_run rfl hc)
  refine hfinal [.run 1, .cancelInLoop ⟨16, 2⟩] ⟨16, 2⟩ ?_ (by simp)
  rw [htrace]
  exact List.prefix_refl _

end Agora.TimerQueue
