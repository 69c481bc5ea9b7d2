import Agora.TimerQueue.Armed

/-! # Who owns a timer -/

open Agora.Lib Agora.Lib.Prog

namespace Agora.TimerQueue

/-- Every entry of `timers_` has its timer's expiration as key. -/
def Keyed (s : TimerQueue) : Prop :=
  ∀ entry ∈ s.timers, ∃ t, s.heap entry.2 = some t ∧ t.expiration = entry.1

variable {s s' : TimerQueue}

theorem PlacesOk.timer_ne (h : PlacesOk s) {entry : Entry} (hin : entry ∈ s.timers) {timer : Nat}
    (hother : 0 < (s.waiting.map Prod.snd).count timer + (s.done.map Prod.snd).count timer +
      (s.pendingFunctors.filterMap addedBy).count timer) : entry.2 ≠ timer := by
  rintro rfl
  exact h.not_in_timers_of entry.2 hother entry.1 hin

theorem PlacesOk.timer_ne_new (h : PlacesOk s) {entry : Entry} (hin : entry ∈ s.timers) {timer : Nat}
    (hnew : s.heap timer = none) : entry.2 ≠ timer := by
  rintro rfl
  exact h.not_in_timers hnew entry.1 hin

theorem PlacesOk.timer_ne_erased (h : PlacesOk s) {timer : Nat}
    (hany : (s.timers.any fun e => e.2 == timer) = true) {entry : Entry}
    (hin : entry ∈ s.timers.eraseP fun e => e.2 == timer) : entry.2 ≠ timer := by
  rintro rfl
  have hone := List.nodup_iff_count_le_one.mp h.nodup entry.2
  have hleft : entry.2 ∈ (s.timers.eraseP fun e => e.2 == entry.2).map Prod.snd :=
    List.mem_map.mpr ⟨entry, hin, rfl⟩
  have hpos := List.count_pos_iff.mpr hleft
  rw [count_places, count_eraseP hany entry.2, if_pos rfl] at hone
  omega

/-! ## The keys -/

theorem Keyed.of_heap (h : Keyed s) (ht : ∀ entry ∈ s'.timers, entry ∈ s.timers)
    (hh : ∀ entry ∈ s'.timers, s'.heap entry.2 = s.heap entry.2) : Keyed s' := by
  intro entry hin
  rw [hh entry hin]
  exact h entry (ht entry hin)

theorem Keyed.insert (h : Keyed s) {timer : Nat} {t : Timer}
    (ht : s'.timers = Entry.insert (t.expiration, timer) s.timers) (hnew : s'.heap timer = some t)
    (hh : ∀ entry ∈ s.timers, s'.heap entry.2 = s.heap entry.2) : Keyed s' := by
  intro entry hin
  rw [ht] at hin
  rcases Entry.mem_insert hin with rfl | hold
  · exact ⟨t, hnew, rfl⟩
  · rw [hh entry hold]
    exact h entry hold

theorem Keyed.cancelled (h : Keyed s) (ho : PlacesOk s) (id : TimerId) (now : Int) :
    Keyed (s.cancelled id now) := by
  unfold TimerQueue.cancelled
  split
  · rename_i hfound
    obtain ⟨-, hany⟩ := Bool.and_eq_true_iff.mp hfound
    refine h.of_heap (fun entry hin => List.mem_of_mem_eraseP hin) fun entry hin => ?_
    exact Function.update_of_ne (ho.timer_ne_erased hany hin) _ _
  · exact h

theorem Keyed.move {m : Option TimerLabel} (h : Keyed s) (ho : Owned s) (hm : Move s m s') :
    Keyed s' := by
  cases hm with
  | addTimer timer expiration now interval hv =>
    refine h.insert rfl (Function.update_self _ _ _) fun entry hin => ?_
    exact Function.update_of_ne (ho.places.timer_ne_new hin (vacant_heap hv)) _ _
  | addTimerElsewhere timer expiration interval hv =>
    refine h.of_heap (fun _ hin => hin) fun entry hin => ?_
    exact Function.update_of_ne (ho.places.timer_ne_new hin (vacant_heap hv)) _ _
  | returnElsewhere timer t _ => exact h
  | cancel id now _ => exact h.cancelled ho.places id now
  | cancelElsewhere id _ => exact h
  | functorAdd timer t rest now _ ht => exact h.insert rfl ht fun _ _ => rfl
  | functorCancel id rest now hq =>
    exact Keyed.cancelled (s := { s with pendingFunctors := rest }) h (ho.popCancel hq).places id now
  | expire armed _ => exact h
  | expired now _ _ _ =>
    exact h.of_heap (fun _ hin => (List.dropWhile_sublist _).subset hin) fun _ _ => rfl
  | run entry rest t _ _ => exact h
  | again now entry rest t _ hd _ _ =>
    refine h.insert rfl (Function.update_self _ _ _) fun other hin => Function.update_of_ne ?_ _ _
    exact ho.places.timer_ne hin (by rw [hd, List.map_cons, List.count_cons_self]; omega)
  | dropped entry rest t _ hd _ _ =>
    refine h.of_heap (fun _ hin => hin) fun other hin => Function.update_of_ne ?_ _ _
    exact ho.places.timer_ne hin (by rw [hd, List.map_cons, List.count_cons_self]; omega)
  | finished now _ _ => exact h

/-! ## Results -/

/-- **Each timer has one owner.** In every run, a timer that is allocated is in exactly one of the
`places`, and one that was deleted is in none; the keys of `timers_` are the expirations of its
timers, only a running `handleRead` has a batch, and no two timers are the same. Nothing is deleted or
run that was deleted before: the only fault is that of an `addTimer` on another thread, which reads the
sequence of its timer when the loop may have run and deleted it. -/
theorem timers_in_one_place {c : Config Unit TimerQueue Unit Int Nat Fault}
    (h : machine.Reachable c) :
    (∀ e, c.crashed = some e → e = .deletedSequence) ∧
      (∀ timer, c.st.places.count timer = if (c.st.heap timer).isSome then 1 else 0) ∧
      Keyed c.st ∧ (c.st.handling = false → c.st.waiting = [] ∧ c.st.done = []) ∧
      ∀ timer timer' t t', c.st.heap timer = some t → c.st.heap timer' = some t' →
        t.sequence = t'.sequence → timer = timer' := by
  obtain ⟨hcrash, ho, hkeyed⟩ := @invariant_of_move (fun _ _ => True) Keyed nofun
    (fun _ _ _ ho hk _ hm => hk.move ho hm) c h
  refine ⟨hcrash, fun timer => ?_, hkeyed, ho.idle, ho.names.unique⟩
  have hone := List.nodup_iff_count_le_one.mp ho.places.nodup timer
  split
  · rename_i hlive
    have hpos := List.count_pos_iff.mpr ((ho.places.live timer).mpr hlive)
    omega
  · rename_i hdead
    exact List.count_eq_zero.mpr fun hin => hdead ((ho.places.live timer).mp hin)

/-- In the callback of a timer another thread adds one, and the callback cancels both its own and an
id whose address was used again. -/
theorem timers_in_one_place_in_callback :
    ∃ c, machine.system.run (fun _ _ => True) (.initial new)
        [.start (.addTimer 16 90 none) [0], .start (.cancel ⟨16, 1⟩) [],
          .start (.addTimer 8 50 (some 10)) [0], .start (.addTimer 16 70 none) [],
          .start .handleRead [60], .start (.addTimerElsewhere 24 40 none) [],
          .start (.cancel ⟨8, 2⟩) [], .start (.returnElsewhere 24) [], .start (.cancel ⟨16, 1⟩) []] = some c ∧
      c.st.places = [8, 24] ∧ (∀ e, c.crashed = some e → e = .deletedSequence) ∧ Keyed c.st := by
  have hrun : (machine.system.run (fun _ _ => True) (.initial new)
        [.start (.addTimer 16 90 none) [0], .start (.cancel ⟨16, 1⟩) [],
          .start (.addTimer 8 50 (some 10)) [0], .start (.addTimer 16 70 none) [],
          .start .handleRead [60], .start (.addTimerElsewhere 24 40 none) [],
          .start (.cancel ⟨8, 2⟩) [], .start (.returnElsewhere 24) [], .start (.cancel ⟨16, 1⟩) []]).map
      (fun c => c.st.places) = some [8, 24] := by decide +kernel
  obtain ⟨c, hc, hplaces⟩ := Option.map_eq_some_iff.mp hrun
  have hone := timers_in_one_place (machine.reachable_of_run rfl hc)
  exact ⟨c, hc, hplaces, hone.1, hone.2.2.1⟩

/-- The loop inserts, runs and deletes a timer before the thread that added it reads its sequence. -/
example : (machine.system.run (fun _ _ => True) (.initial new)
    [.start (.addTimerElsewhere 8 0 none) [], .start .functor [0], .start .handleRead [10], .resume () [],
      .start (.returnElsewhere 8) []]).map (fun c => c.crashed) = some (some .deletedSequence) := by
  decide +kernel

end Agora.TimerQueue
