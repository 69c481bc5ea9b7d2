import Agora.TimerQueue.Armed

/-! # What a cancel leaves alone -/

open Agora.Lib Agora.Lib.Prog

namespace Agora.TimerQueue

/-- The id that `cancelInLoop` is about to run for. -/
def cancels (s : TimerQueue) : TimerLabel → Option TimerId
  | .cancel id => some id
  | .functor =>
    match s.pendingFunctors with
    | .cancelInLoop id :: _ => some id
    | _ => none
  | _ => none

/-- What `cancelInLoop` finds in `timers_` at the address of the id, if anything, is its timer. -/
def findsOwn (s : TimerQueue) (id : TimerId) : Bool :=
  !s.finds id || (s.heap id.timer).any fun t => t.sequence == id.sequence

def ownId : Machine.Condition TimerQueue Unit Int TimerLabel :=
  ⟨fun s label => ∀ id ∈ s.cancels label, s.findsOwn id = true, fun _ _ _ => True⟩

instance (s : TimerQueue) (label : TimerLabel) : Decidable (ownId.label s label) :=
  inferInstanceAs (Decidable (∀ id ∈ s.cancels label, s.findsOwn id = true))

instance (s : TimerQueue) (q : Unit) (a : Int) : Decidable (ownId.answer s q a) := isTrue trivial

/-- All timers with another sequence are as they were: not deleted, with their expirations, in their
places, and the timerfd is armed for them. -/
structure Spares (id : TimerId) (s s' : TimerQueue) : Prop where
  heap : ∀ timer t, s.heap timer = some t → t.sequence ≠ id.sequence → s'.heap timer = some t
  timers : ∀ entry ∈ s.timers, ∀ t, s.heap entry.2 = some t → t.sequence ≠ id.sequence →
    entry ∈ s'.timers
  waiting : s'.waiting = s.waiting
  done : s'.done = s.done
  queued : s'.pendingFunctors.filterMap addedBy = s.pendingFunctors.filterMap addedBy
  armed : s'.handling = false → ∀ first ∈ s'.timers.head?, s'.ArmedFor first.1

/-- Every timer that was ever created is there, or was cancelled by an id of its own, or has run. -/
def NoneLost (s : TimerQueue) : Prop :=
  ∀ sequence, 0 < sequence → sequence ≤ s.numCreated →
    (∃ timer t, s.heap timer = some t ∧ t.sequence = sequence) ∨
    (∃ id, .cancelInLoop id ∈ s.trace ∧ id.sequence = sequence) ∨ .run sequence ∈ s.trace

/-! ## One cancel -/

variable {s s' : TimerQueue}

theorem findsOwn_heap {id : TimerId} (h : s.findsOwn id = true) (hfound : s.finds id = true)
    {t : Timer} (ht : s.heap id.timer = some t) : t.sequence = id.sequence := by
  unfold findsOwn at h
  rw [hfound, ht] at h
  simpa using h

theorem cancelled_spares {id : TimerId} (harm : ArmOk s) (hown : s.findsOwn id = true) (now : Int) :
    Spares id s (s.cancelled id now) := by
  have hother : ∀ timer t, s.heap timer = some t → t.sequence ≠ id.sequence →
      s.finds id = true → timer ≠ id.timer := by
    rintro _ t ht hne hfound rfl
    exact hne (findsOwn_heap hown hfound ht)
  refine ⟨fun timer t ht hne => ?_, fun entry hin t ht hne => ?_, (cancelled_same s id now).1,
    (cancelled_same s id now).2, ?_, (harm.cancelled id now).armed⟩
  · rw [cancelled_heap]
    split
    · rename_i hfound
      rwa [Function.update_of_ne (hother timer t ht hne hfound)]
    · exact ht
  · unfold cancelled
    split
    · rename_i hfound
      refine (List.mem_eraseP_of_neg ?_).mpr hin
      simpa using hother entry.2 t ht hne hfound
    · exact hin
  · unfold cancelled
    split <;> rfl

theorem findsOwn_of_kept {id : TimerId} {now : Int}
    (hlive : s.finds id = true → ∃ t, s.heap id.timer = some t)
    (h : ∀ timer t, s.heap timer = some t → t.sequence ≠ id.sequence →
      (s.cancelled id now).heap timer = some t) : s.findsOwn id = true := by
  by_contra hother
  unfold findsOwn at hother
  simp only [Bool.or_eq_true, not_or, Bool.not_eq_true', Bool.not_eq_false] at hother
  obtain ⟨hfound, hother⟩ := hother
  obtain ⟨t, ht⟩ := hlive hfound
  have hne : t.sequence ≠ id.sequence := by
    intro heq
    rw [ht] at hother
    simp [heq] at hother
  have hkept := h id.timer t ht hne
  rw [cancelled_heap, if_pos hfound, Function.update_self] at hkept
  cases hkept

theorem cancels_step {c c' : Config Unit TimerQueue Unit Int Nat Fault} {label : TimerLabel}
    {answers : List Int} {id : TimerId} (ho : Owned c.st) (hid : id ∈ c.st.cancels label)
    (hs : machine.step c (.start label answers) = some c') :
    ∃ now rest, rest.filterMap addedBy = c.st.pendingFunctors.filterMap addedBy ∧
      c'.st = cancelled { c.st with pendingFunctors := rest } id now := by
  refine machine.step_start_ends (moveContract fun _ => False) SameBatch
    (fun s => ∃ now rest, rest.filterMap addedBy = c.st.pendingFunctors.filterMap addedBy ∧
      s = cancelled { c.st with pendingFunctors := rest } id now)
    (fun _ _ _ => trivial) (fun _ _ h => h.2.2) hs fun p hp => ?_
  cases label with
  | cancel id' =>
    obtain rfl : id' = id := Option.some.inj hid
    simp only [machine, entry] at hp
    split at hp
    · obtain rfl := Option.some.inj hp
      exact cancelInLoop_ends ho fun now => ⟨now, c.st.pendingFunctors, rfl, rfl⟩
    · cases hp
  | functor =>
    rcases hq : c.st.pendingFunctors with _ | ⟨_ | id', rest⟩
    · simp only [cancels, hq] at hid
      cases hid
    · simp only [cancels, hq] at hid
      cases hid
    · simp only [cancels, hq] at hid
      obtain rfl : id' = id := Option.some.inj hid
      simp only [machine, entry, hq] at hp
      obtain rfl := Option.some.inj hp
      rw [wp_bind, wp_modify]
      exact cancelInLoop_ends (ho.popCancel hq) fun now => ⟨now, rest, rfl, rfl⟩
  | addTimer | addTimerElsewhere | returnElsewhere | cancelElsewhere | handleRead | expire => cases hid

/-! ## No timer is lost -/

structure LostOk (s : TimerQueue) : Prop where
  none : s.NoneLost
  ran : ∀ entry ∈ s.done, ∀ t, s.heap entry.2 = some t → .run t.sequence ∈ s.trace

theorem LostOk.of_heap (h : LostOk s) (hn : s'.numCreated = s.numCreated)
    (ht : ∀ e ∈ s.trace, e ∈ s'.trace)
    (hh : ∀ timer t, s.heap timer = some t →
      (∃ t', s'.heap timer = some t' ∧ t'.sequence = t.sequence) ∨
        (∃ id, .cancelInLoop id ∈ s'.trace ∧ id.sequence = t.sequence) ∨ .run t.sequence ∈ s'.trace)
    (hd : ∀ entry ∈ s'.done, ∀ t', s'.heap entry.2 = some t' → .run t'.sequence ∈ s'.trace) :
    LostOk s' := by
  refine ⟨fun sequence hpos hle => ?_, hd⟩
  rcases h.none sequence hpos (hn ▸ hle) with ⟨timer, t, hlive, rfl⟩ | ⟨id, hin, rfl⟩ | hran
  · rcases hh timer t hlive with ⟨t', hlive', hseq⟩ | hcancelled | hran
    · exact .inl ⟨timer, t', hlive', hseq⟩
    · exact .inr (.inl hcancelled)
    · exact .inr (.inr hran)
  · exact .inr (.inl ⟨id, ht _ hin, rfl⟩)
  · exact .inr (.inr (ht _ hran))

theorem LostOk.same (h : LostOk s) (hn : s'.numCreated = s.numCreated) (ht : s'.trace = s.trace)
    (hh : s'.heap = s.heap) (hd : s'.done = s.done) : LostOk s' := by
  refine h.of_heap hn (fun e he => ht ▸ he) (fun timer t hlive => ?_) fun entry hin t hlive => ?_
  · exact .inl ⟨t, hh ▸ hlive, rfl⟩
  · rw [hd] at hin
    rw [hh] at hlive
    rw [ht]
    exact h.ran entry hin t hlive

theorem LostOk.create (h : LostOk s) {timer : Nat} {expiration : Int} {interval : Option Int}
    (ho : Owned s) (hv : s.vacant timer = true) (hn : s'.numCreated = s.numCreated + 1)
    (hh : s'.heap = Function.update s.heap timer (some ⟨expiration, interval, s.numCreated + 1⟩))
    (ht : s'.trace = s.trace) (hd : s'.done = s.done) : LostOk s' := by
  have hold : ∀ timer' t, s.heap timer' = some t → s'.heap timer' = some t := by
    intro timer' t hlive
    have hne : timer' ≠ timer := by
      rintro rfl
      exact nomatch (vacant_heap hv).symm.trans hlive
    rw [hh, Function.update_of_ne hne]
    exact hlive
  refine ⟨fun sequence hpos hle => ?_, fun entry hin t' hlive' => ?_⟩
  · by_cases hnew : sequence = s.numCreated + 1
    · exact .inl ⟨timer, _, by rw [hh, Function.update_self], hnew.symm⟩
    · rw [ht]
      rcases h.none sequence hpos (by omega) with ⟨timer', t, hlive, hseq⟩ | hgone
      · exact .inl ⟨timer', t, hold timer' t hlive, hseq⟩
      · exact .inr hgone
  · rw [hd] at hin
    obtain ⟨t, hlive⟩ := ho.live_of_batch (.inr hin)
    obtain rfl : t = t' := Option.some.inj ((hold _ _ hlive).symm.trans hlive')
    rw [ht]
    exact h.ran entry hin t hlive

theorem LostOk.cancelled {id : TimerId} (h : LostOk s) (hown : s.findsOwn id = true) (now : Int) :
    LostOk (s.cancelled id now) := by
  have htrace : (s.cancelled id now).trace = s.trace ++ [.cancelInLoop id] := by
    unfold TimerQueue.cancelled
    split <;> rfl
  have hn : (s.cancelled id now).numCreated = s.numCreated := by
    unfold TimerQueue.cancelled
    split <;> rfl
  refine h.of_heap hn (fun e he => ?_) (fun timer t hlive => ?_) fun entry hin t' hlive' => ?_
  · rw [htrace]
    exact List.mem_append_left _ he
  · rw [htrace, cancelled_heap]
    split
    · rename_i hfound
      by_cases heq : timer = id.timer
      · subst heq
        exact .inr (.inl ⟨id, by simp, (findsOwn_heap hown hfound hlive).symm⟩)
      · rw [Function.update_of_ne heq]
        exact .inl ⟨t, hlive, rfl⟩
    · exact .inl ⟨t, hlive, rfl⟩
  · rw [(cancelled_same s id now).2] at hin
    rw [htrace]
    exact List.mem_append_left _ (h.ran entry hin t' (heap_of_cancelled hlive').1)

theorem LostOk.move {m : Option TimerLabel} (h : LostOk s) (ho : Owned s) (hm : Move s m s')
    (hown : ∀ label, m = some label → ∀ id ∈ s.cancels label, s.findsOwn id = true) : LostOk s' := by
  cases hm with
  | addTimer timer expiration now interval hv => exact h.create ho hv rfl rfl rfl rfl
  | addTimerElsewhere timer expiration interval hv => exact h.create ho hv rfl rfl rfl rfl
  | returnElsewhere timer t _ => exact h.same rfl rfl rfl rfl
  | cancel id now _ => exact h.cancelled (hown _ rfl id rfl) now
  | cancelElsewhere id _ => exact h.same rfl rfl rfl rfl
  | functorAdd timer t rest now _ _ => exact h.same rfl rfl rfl rfl
  | functorCancel id rest now hq =>
    have hfound : s.findsOwn id = true := hown _ rfl id (by unfold cancels; rw [hq]; rfl)
    have hrest : LostOk { s with pendingFunctors := rest } := h.same rfl rfl rfl rfl
    exact hrest.cancelled hfound now
  | expire armed _ => exact h.same rfl rfl rfl rfl
  | expired now _ _ _ => exact h.same rfl rfl rfl rfl
  | run entry rest t hw ht =>
    refine h.of_heap rfl (fun e he => List.mem_append_left _ he)
      (fun timer t hlive => .inl ⟨t, hlive, rfl⟩) fun entry' hin t' hlive' => ?_
    rcases List.mem_append.mp hin with hin | hin
    · exact List.mem_append_left _ (h.ran entry' hin t' hlive')
    · obtain rfl : entry' = entry := by simpa using hin
      obtain rfl : t = t' := Option.some.inj (ht.symm.trans hlive')
      exact List.mem_append_right _ (by simp)
  | again now entry rest t _ hd ht _ =>
    refine h.of_heap rfl (fun e he => he) (fun timer t' hlive => .inl ?_) fun entry' hin t' hlive' => ?_
    · by_cases heq : timer = entry.2
      · subst heq
        obtain rfl : t = t' := Option.some.inj (ht.symm.trans hlive)
        exact ⟨_, Function.update_self _ _ _, t.restart_sequence now⟩
      · exact ⟨t', by simpa [heq] using hlive, rfl⟩
    · have hin : entry' ∈ s.done := hd ▸ List.mem_cons_of_mem _ hin
      by_cases heq : entry'.2 = entry.2
      · obtain rfl : t.restart now = t' := by simpa [heq] using hlive'
        rw [t.restart_sequence]
        exact h.ran entry' hin t (heq ▸ ht)
      · exact h.ran entry' hin t' (by simpa [heq] using hlive')
  | dropped entry rest t _ hd ht _ =>
    refine h.of_heap rfl (fun e he => he) (fun timer t' hlive => ?_) fun entry' hin t' hlive' => ?_
    · by_cases heq : timer = entry.2
      · subst heq
        exact .inr (.inr (h.ran entry (hd ▸ List.mem_cons_self) t' hlive))
      · exact .inl ⟨t', by simpa [heq] using hlive, rfl⟩
    · have hin : entry' ∈ s.done := hd ▸ List.mem_cons_of_mem _ hin
      by_cases heq : entry'.2 = entry.2
      · simp [heq] at hlive'
      · exact h.ran entry' hin t' (by simpa [heq] using hlive')
  | finished now _ _ => exact h.same rfl rfl rfl rfl

theorem new_lostOk : LostOk new := ⟨fun _ hpos hle => absurd hpos (by simpa [new] using hle), nofun⟩

/-! ## Results -/

/-- **A cancel affects only its own timer** if and only if it finds no other one at the address of its
id. In runs whose cancels are all like that, no timer is lost. -/
theorem cancel_spares_others {c c' : Config Unit TimerQueue Unit Int Nat Fault} {label : TimerLabel}
    {answers : List Int} {id : TimerId} (h : machine.Reachable c) (hid : id ∈ c.st.cancels label)
    (hs : machine.step c (.start label answers) = some c') :
    (Spares id c.st c'.st ↔ c.st.findsOwn id = true) ∧
      (machine.Reach ownId c → c.st.NoneLost) := by
  obtain ⟨ho, harm⟩ := armOk_of_reachable h
  obtain ⟨now, rest, hqueued, hst⟩ := cancels_step ho hid hs
  refine ⟨?_, fun hown =>
    (invariant_of_move new_lostOk (fun _ _ _ ho hk hl hm => hk.move ho hm hl) hown).2.2.none⟩
  rw [hst]
  constructor
  · intro hspares
    have hlive : c.st.finds id = true → ∃ t, c.st.heap id.timer = some t := fun hfound =>
      ho.live_of_any (Bool.and_eq_true_iff.mp hfound).2
    have hown : ({ c.st with pendingFunctors := rest } : TimerQueue).findsOwn id = true :=
      findsOwn_of_kept hlive hspares.heap
    exact hown
  · intro hown
    have hpopped : ArmOk { c.st with pendingFunctors := rest } := harm.same rfl rfl rfl rfl
    have hown : ({ c.st with pendingFunctors := rest } : TimerQueue).findsOwn id = true := hown
    have hspares := cancelled_spares hpopped hown now
    exact { hspares with queued := hspares.queued.trans hqueued }

/-- The first timer is over, its address is used again, and both timers are still there when the later
one at the address is cancelled. -/
theorem cancel_spares_recycled :
    ∃ c c', machine.system.run (machine.Meets ownId) (.initial new)
        [.start (.addTimer 8 0 none) [0], .start .handleRead [10], .resume () [],
          .start (.addTimer 8 100 none) [20], .start (.addTimer 16 200 none) []] = some c ∧
      machine.step c (.start (.cancel ⟨8, 2⟩) [30]) = some c' ∧ c'.st.timers = [(200, 16)] ∧
      Spares ⟨8, 2⟩ c.st c'.st ∧ c.st.NoneLost := by
  have hrun : ((machine.system.run (machine.Meets ownId) (.initial new)
        [.start (.addTimer 8 0 none) [0], .start .handleRead [10], .resume () [],
          .start (.addTimer 8 100 none) [20], .start (.addTimer 16 200 none) []]).map
      fun c => (c.st.findsOwn ⟨8, 2⟩,
        (machine.step c (.start (.cancel ⟨8, 2⟩) [30])).map fun c' => c'.st.timers)) =
        some (true, some [(200, 16)]) := by decide +kernel
  obtain ⟨c, hc, heq⟩ := Option.map_eq_some_iff.mp hrun
  obtain ⟨c', hc', htimers⟩ := Option.map_eq_some_iff.mp (congrArg Prod.snd heq)
  have hreach : machine.Reach ownId c := machine.reach_of_run rfl hc
  have hany : machine.Reachable c := hreach.mono fun c a _ => machine.meets_anyStep c a
  obtain ⟨hspares, hlost⟩ := cancel_spares_others hany rfl hc'
  exact ⟨c, c', hc, hc', htimers, hspares.mpr (congrArg Prod.fst heq), hlost hreach⟩

/-- The id of a timer that is over cancels the one that has its address now. -/
theorem stale_id_cancels_another :
    ¬ ∀ c c' : Config Unit TimerQueue Unit Int Nat Fault, ∀ label answers,
      ∀ id ∈ c.st.cancels label, machine.Reachable c →
        machine.step c (.start label answers) = some c' → Spares id c.st c'.st := by
  intro hall
  have hrun : ((machine.system.run (fun _ _ => True) (.initial new)
        [.start (.addTimer 8 0 none) [0], .start .handleRead [10], .resume () [],
          .start (.addTimer 8 100 none) [20]]).map
      fun c => (c.st.heap 8, (machine.step c (.start (.cancel ⟨8, 1⟩) [])).map
        fun c' => c'.st.heap 8)) = some (some ⟨100, none, 2⟩, some none) := by decide +kernel
  obtain ⟨c, hc, heq⟩ := Option.map_eq_some_iff.mp hrun
  obtain ⟨c', hc', hgone⟩ := Option.map_eq_some_iff.mp (congrArg Prod.snd heq)
  have hspares := hall c c' _ _ ⟨8, 1⟩ rfl (machine.reachable_of_run rfl hc) hc'
  have hkept := hspares.heap 8 ⟨100, none, 2⟩ (congrArg Prod.fst heq) (by decide)
  rw [hgone] at hkept
  cases hkept

end Agora.TimerQueue
