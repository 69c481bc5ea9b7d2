import Agora.Code.TimerQueue
import Mathlib.Data.List.Nodup

/-!
# Where the timers are

A timer is in one place from its allocation until it is deleted: in `timers_`, in the batch of the
running `handleRead`, or in a queued `addTimerInLoop`. Every function moves timers between these.
-/

open Agora.Lib Agora.Lib.Prog

namespace Agora

theorem Timer.restart_sequence (t : Timer) (now : Int) : (t.restart now).sequence = t.sequence := by
  unfold Timer.restart
  split <;> rfl

/-! ## The order of the entries -/

theorem Entry.eq_of_not_before {a b : Entry} (h : a.before b = false) (h' : b.before a = false) :
    a = b := by
  unfold Entry.before at h h'
  obtain ⟨e, x⟩ := a
  obtain ⟨f, y⟩ := b
  simp only [Bool.or_eq_false_iff, decide_eq_false_iff_not, Bool.and_eq_false_iff, beq_eq_false_iff_ne]
    at h h'
  obtain rfl : e = f := by omega
  obtain rfl : x = y := by omega
  rfl

theorem Entry.insert_perm {e : Entry} {l : List Entry} (h : e ∉ l) :
    (Entry.insert e l).Perm (e :: l) := by
  induction l with
  | nil => exact .refl _
  | cons x xs ih =>
    have hne : e ≠ x := fun heq => h (heq ▸ List.mem_cons_self)
    have hnot : e ∉ xs := fun hin => h (List.mem_cons_of_mem x hin)
    unfold Entry.insert
    split
    · exact .refl _
    split
    · exact ((ih hnot).cons x).trans (.swap e x xs)
    · rename_i hb hb'
      exact absurd (Entry.eq_of_not_before (by simpa using hb) (by simpa using hb')) hne

namespace TimerQueue

def addedBy : TimerFunctor → Option Nat
  | .addTimerInLoop timer => some timer
  | .cancelInLoop _ => none

/-- The addresses of all timers, place by place. -/
def places (s : TimerQueue) : List Nat :=
  s.timers.map Prod.snd ++ s.waiting.map Prod.snd ++ s.done.map Prod.snd ++
    s.pendingFunctors.filterMap addedBy

/-! ## The moves -/

/-- `resetTimerfd` at this clock reading. -/
def armedAt (s : TimerQueue) (expiration now : Int) : TimerQueue :=
  { s with armed := some ⟨now, howMuchTimeFromNow expiration now⟩, unread := false }

def rearmed (s : TimerQueue) (now : Int) : TimerQueue :=
  { s with
    armed := s.timers.head?.elim s.armed fun first => some ⟨now, howMuchTimeFromNow first.1 now⟩
    unread := s.timers.isEmpty && s.unread }

/-- `addTimerInLoop` -/
def added (s : TimerQueue) (timer : Nat) (expiration now : Int) : TimerQueue :=
  { s with
    timers := Entry.insert (expiration, timer) s.timers
    armed := if s.earliestChanged expiration then some ⟨now, howMuchTimeFromNow expiration now⟩
      else s.armed
    unread := !s.earliestChanged expiration && s.unread }

theorem rearmed_nil {s : TimerQueue} (h : s.timers = []) (now : Int) : s.rearmed now = s := by
  unfold rearmed
  rw [h]
  obtain ⟨_, _, _, _, _, _, _, _, _, _, _, _⟩ := s
  obtain rfl := h
  rfl

theorem rearmed_cons {s : TimerQueue} {first : Entry} {rest : List Entry}
    (h : s.timers = first :: rest) (now : Int) : s.rearmed now = s.armedAt first.1 now := by
  unfold rearmed armedAt
  rw [h]
  rfl

theorem added_earliest {s : TimerQueue} {expiration : Int}
    (h : s.earliestChanged expiration = true) (timer : Nat) (now : Int) :
    s.added timer expiration now =
      armedAt { s with timers := Entry.insert (expiration, timer) s.timers } expiration now := by
  unfold added armedAt
  rw [h]
  rfl

theorem added_later {s : TimerQueue} {expiration : Int}
    (h : s.earliestChanged expiration = false) (timer : Nat) (now : Int) :
    s.added timer expiration now = { s with timers := Entry.insert (expiration, timer) s.timers } := by
  unfold added
  rw [h]
  rfl

/-- Whether `cancelInLoop` finds an entry. -/
def finds (s : TimerQueue) (id : TimerId) : Bool :=
  id.timer != 0 && s.timers.any fun entry => entry.2 == id.timer

def cancelled (s : TimerQueue) (id : TimerId) (now : Int) : TimerQueue :=
  if s.finds id then
    rearmed { s with
      timers := s.timers.eraseP fun entry => entry.2 == id.timer
      heap := Function.update s.heap id.timer none
      trace := s.trace ++ [.cancelInLoop id] } now
  else { s with trace := s.trace ++ [.cancelInLoop id] }

theorem cancelled_heap (s : TimerQueue) (id : TimerId) (now : Int) :
    (s.cancelled id now).heap =
      if s.finds id then Function.update s.heap id.timer none else s.heap := by
  unfold cancelled
  split <;> rfl

theorem heap_of_cancelled {s : TimerQueue} {id : TimerId} {now : Int} {timer : Nat} {t : Timer}
    (h : (s.cancelled id now).heap timer = some t) :
    s.heap timer = some t ∧ (s.finds id = true → timer ≠ id.timer) := by
  rw [cancelled_heap] at h
  split at h
  · by_cases heq : timer = id.timer
    · subst heq
      simp at h
    · exact ⟨by simpa [heq] using h, fun _ => heq⟩
  · rename_i hmissing
    exact ⟨h, fun hfound => absurd hfound hmissing⟩

/-- What is done in one segment: a whole function for its label, or one part of a pass. `now` is the
clock reading. -/
inductive Move (s : TimerQueue) : Option TimerLabel → TimerQueue → Prop
  | addTimer (timer : Nat) (expiration now : Int) (interval : Option Int) :
      s.vacant timer = true → Move s (some (.addTimer timer expiration interval))
        (added { s with
          numCreated := s.numCreated + 1
          heap := Function.update s.heap timer (some ⟨expiration, interval, s.numCreated + 1⟩)
          ids := s.ids ++ [⟨timer, s.numCreated + 1⟩] } timer expiration now)
  | addTimerElsewhere (timer : Nat) (expiration : Int) (interval : Option Int) :
      s.vacant timer = true → Move s (some (.addTimerElsewhere timer expiration interval))
        { s with
          numCreated := s.numCreated + 1
          heap := Function.update s.heap timer (some ⟨expiration, interval, s.numCreated + 1⟩)
          pendingFunctors := s.pendingFunctors ++ [.addTimerInLoop timer]
          returning := s.returning ++ [timer] }
  | returnElsewhere (timer : Nat) (t : Timer) : s.heap timer = some t →
      Move s (some (.returnElsewhere timer))
        { s with returning := s.returning.erase timer, ids := s.ids ++ [⟨timer, t.sequence⟩] }
  | cancel (id : TimerId) (now : Int) :
      s.known id = true → Move s (some (.cancel id)) (s.cancelled id now)
  | cancelElsewhere (id : TimerId) : s.known id = true → Move s (some (.cancelElsewhere id))
      { s with pendingFunctors := s.pendingFunctors ++ [.cancelInLoop id] }
  | functorAdd (timer : Nat) (t : Timer) (rest : List TimerFunctor) (now : Int) :
      s.pendingFunctors = .addTimerInLoop timer :: rest → s.heap timer = some t →
      Move s (some .functor) (added { s with pendingFunctors := rest } timer t.expiration now)
  | functorCancel (id : TimerId) (rest : List TimerFunctor) (now : Int) :
      s.pendingFunctors = .cancelInLoop id :: rest →
      Move s (some .functor) (cancelled { s with pendingFunctors := rest } id now)
  | expire (armed : Arming) : s.armed = some armed →
      Move s (some .expire) { s with armed := none, unread := true }
  /-- A pass begins: `readTimerfd` and `getExpired`. -/
  | expired (now : Int) : s.handling = false → s.waiting = [] → s.done = [] → Move s none
      { s with
        handling := true
        unread := false
        waiting := s.timers.takeWhile fun entry => entry.before (sentry now)
        timers := s.timers.dropWhile fun entry => entry.before (sentry now) }
  | run (entry : Entry) (rest : List Entry) (t : Timer) : s.waiting = entry :: rest →
      s.heap entry.2 = some t → Move s none
        { s with
          waiting := rest
          done := s.done ++ [entry]
          trace := s.trace ++ [.run t.sequence] }
  /-- `reset` of a repeating timer, and of a one-shot timer -/
  | again (now : Int) (entry : Entry) (rest : List Entry) (t : Timer) : s.waiting = [] →
      s.done = entry :: rest → s.heap entry.2 = some t → t.repeats = true → Move s none
        { s with
          done := rest
          heap := Function.update s.heap entry.2 (some (t.restart now))
          timers := Entry.insert ((t.restart now).expiration, entry.2) s.timers }
  | dropped (entry : Entry) (rest : List Entry) (t : Timer) : s.waiting = [] →
      s.done = entry :: rest → s.heap entry.2 = some t → t.repeats = false → Move s none
        { s with done := rest, heap := Function.update s.heap entry.2 none }
  | finished (now : Int) : s.waiting = [] → s.done = [] →
      Move s none { s.rearmed now with handling := false }

/-! ## Each timer is in one place -/

structure PlacesOk (s : TimerQueue) : Prop where
  nodup : s.places.Nodup
  live : ∀ timer, timer ∈ s.places ↔ (s.heap timer).isSome = true

/-- What the addresses and the sequences of the timers and of the ids have to do with each other. -/
structure NamesOk (s : TimerQueue) : Prop where
  created : ∀ timer t, s.heap timer = some t → 0 < t.sequence ∧ t.sequence ≤ s.numCreated
  unique : ∀ timer timer' t t', s.heap timer = some t → s.heap timer' = some t' →
    t.sequence = t'.sequence → timer = timer'
  null : s.heap 0 = none
  ids : ∀ id, s.known id = true → id.sequence ≤ s.numCreated ∧
    ∀ timer t, s.heap timer = some t → t.sequence = id.sequence → timer = id.timer
  queued : ∀ id, .cancelInLoop id ∈ s.pendingFunctors → s.known id = true

structure Owned (s : TimerQueue) : Prop where
  places : PlacesOk s
  names : NamesOk s
  idle : s.handling = false → s.waiting = [] ∧ s.done = []

variable {s s' : TimerQueue}

theorem PlacesOk.grow {timer : Nat} {t : Timer} (h : PlacesOk s) (hnew : s.heap timer = none)
    (hp : s'.places.Perm (timer :: s.places)) (hh : s'.heap = Function.update s.heap timer (some t)) :
    PlacesOk s' := by
  refine ⟨?_, fun timer' => ?_⟩
  · rw [hp.nodup_iff, List.nodup_cons, h.live]
    exact ⟨by simp [hnew], h.nodup⟩
  · rw [hp.mem_iff, List.mem_cons, h.live, hh]
    by_cases heq : timer' = timer
    · subst heq
      simp
    · simp [heq]

theorem PlacesOk.shrink {timer : Nat} (h : PlacesOk s) (hp : s.places.Perm (timer :: s'.places))
    (hh : s'.heap = Function.update s.heap timer none) : PlacesOk s' := by
  have hnodup := hp.nodup_iff.mp h.nodup
  obtain ⟨hnot, hnodup⟩ := List.nodup_cons.mp hnodup
  refine ⟨hnodup, fun timer' => ?_⟩
  rw [hh]
  by_cases heq : timer' = timer
  · subst heq
    simp [hnot]
  · rw [Function.update_of_ne heq, ← h.live, hp.mem_iff, List.mem_cons]
    simp [heq]

theorem PlacesOk.same (h : PlacesOk s) (hp : s'.places.Perm s.places)
    (hh : ∀ timer, (s'.heap timer).isSome = (s.heap timer).isSome) : PlacesOk s' :=
  ⟨hp.nodup_iff.mpr h.nodup, fun timer => by rw [hp.mem_iff, h.live, hh]⟩

theorem PlacesOk.not_in_timers (h : PlacesOk s) {timer : Nat} (hnew : s.heap timer = none)
    (expiration : Int) : (expiration, timer) ∉ s.timers := by
  intro hmem
  have hin : timer ∈ s.places := by
    unfold TimerQueue.places
    simp only [List.mem_append, List.mem_map]
    exact .inl (.inl (.inl ⟨_, hmem, rfl⟩))
  have hsome := (h.live timer).mp hin
  rw [hnew] at hsome
  cases hsome

theorem NamesOk.of_heap (h : NamesOk s) (hn : s'.numCreated = s.numCreated) (hi : s'.ids = s.ids)
    (hh : ∀ timer t', s'.heap timer = some t' →
      ∃ t, s.heap timer = some t ∧ t.sequence = t'.sequence)
    (hq : ∀ id, .cancelInLoop id ∈ s'.pendingFunctors →
      .cancelInLoop id ∈ s.pendingFunctors ∨ s.known id = true) : NamesOk s' := by
  have hknown : ∀ id, s'.known id = s.known id := fun id => by unfold known; rw [hi]
  refine ⟨fun timer t' ht' => ?_, fun timer₁ timer₂ t₁ t₂ h₁ h₂ heq => ?_, ?_, fun id hid => ?_,
    fun id hid => ?_⟩
  · obtain ⟨t, ht, hseq⟩ := hh timer t' ht'
    rw [← hseq, hn]
    exact h.created timer t ht
  · obtain ⟨u₁, hu₁, hs₁⟩ := hh timer₁ t₁ h₁
    obtain ⟨u₂, hu₂, hs₂⟩ := hh timer₂ t₂ h₂
    exact h.unique timer₁ timer₂ u₁ u₂ hu₁ hu₂ (hs₁.trans (heq.trans hs₂.symm))
  · rcases hz : s'.heap 0 with _ | t'
    · rfl
    · obtain ⟨t, ht, -⟩ := hh 0 t' hz
      exact nomatch h.null.symm.trans ht
  · rw [hknown] at hid
    obtain ⟨hle, hat⟩ := h.ids id hid
    refine ⟨hn ▸ hle, fun timer t' ht' heq => ?_⟩
    obtain ⟨t, ht, hseq⟩ := hh timer t' ht'
    exact hat timer t ht (hseq.trans heq)
  · rw [hknown]
    rcases hq id hid with hin | hin
    · exact h.queued id hin
    · exact hin

theorem NamesOk.create (h : NamesOk s) {timer : Nat} {expiration : Int} {interval : Option Int}
    (hv : s.vacant timer = true) (hn : s'.numCreated = s.numCreated + 1)
    (hh : s'.heap = Function.update s.heap timer (some ⟨expiration, interval, s.numCreated + 1⟩))
    (hi : ∀ id ∈ s'.ids, id ∈ s.ids ∨ id = ⟨timer, s.numCreated + 1⟩) (hold : s.ids ⊆ s'.ids)
    (hq : ∀ id, .cancelInLoop id ∈ s'.pendingFunctors → .cancelInLoop id ∈ s.pendingFunctors) :
    NamesOk s' := by
  have hcases : ∀ timer' t, s'.heap timer' = some t →
      timer' = timer ∧ t.sequence = s.numCreated + 1 ∨ s.heap timer' = some t := by
    intro timer' t ht
    rw [hh] at ht
    by_cases heq : timer' = timer
    · subst heq
      rw [Function.update_self] at ht
      obtain rfl := Option.some.inj ht
      exact .inl ⟨rfl, rfl⟩
    · rw [Function.update_of_ne heq] at ht
      exact .inr ht
  have hknown : ∀ id, s'.known id = true →
      id = ⟨timer, s.numCreated + 1⟩ ∨ s.known id = true := by
    intro id hid
    unfold known at hid ⊢
    have hin := hi id
    simp only [Bool.or_eq_true, decide_eq_true_eq] at hid ⊢
    tauto
  refine ⟨fun timer' t ht => ?_, fun timer₁ timer₂ t₁ t₂ h₁ h₂ heq => ?_, ?_, fun id hid => ?_,
    fun id hid => ?_⟩
  · rw [hn]
    rcases hcases timer' t ht with ⟨-, hseq⟩ | ht
    · omega
    · have := h.created timer' t ht
      omega
  · rcases hcases timer₁ t₁ h₁ with ⟨rfl, hs₁⟩ | h₁
    · rcases hcases timer₂ t₂ h₂ with ⟨rfl, -⟩ | h₂
      · rfl
      · have := h.created timer₂ t₂ h₂
        omega
    · rcases hcases timer₂ t₂ h₂ with ⟨rfl, hs₂⟩ | h₂
      · have := h.created timer₁ t₁ h₁
        omega
      · exact h.unique timer₁ timer₂ t₁ t₂ h₁ h₂ heq
  · have hne : (0 : Nat) ≠ timer := by
      rintro rfl
      simp [vacant] at hv
    rw [hh, Function.update_of_ne hne]
    exact h.null
  · rw [hn]
    rcases hknown id hid with rfl | hknown
    · refine ⟨Nat.le_refl _, fun timer' t ht heq => ?_⟩
      rcases hcases timer' t ht with ⟨rfl, -⟩ | ht
      · rfl
      · have hle := (h.created timer' t ht).2
        simp only at heq
        omega
    · obtain ⟨hle, hat⟩ := h.ids id hknown
      refine ⟨by omega, fun timer' t ht heq => ?_⟩
      rcases hcases timer' t ht with ⟨-, hseq⟩ | ht
      · omega
      · exact hat timer' t ht heq
  · have hknown := h.queued id (hq id hid)
    unfold known at hknown ⊢
    simp only [Bool.or_eq_true, decide_eq_true_eq] at hknown ⊢
    exact hknown.imp_left (@hold id)

theorem NamesOk.name (h : NamesOk s) {timer : Nat} {t : Timer} (ht : s.heap timer = some t)
    (hn : s'.numCreated = s.numCreated) (hh : s'.heap = s.heap)
    (hi : s'.ids = s.ids ++ [⟨timer, t.sequence⟩]) (hq : s'.pendingFunctors = s.pendingFunctors) :
    NamesOk s' := by
  have hknown : ∀ id, s'.known id = true ↔ s.known id = true ∨ id = ⟨timer, t.sequence⟩ := by
    intro id
    unfold known
    rw [hi]
    simp only [Bool.or_eq_true, decide_eq_true_eq, List.mem_append, List.mem_singleton]
    tauto
  refine ⟨hh ▸ hn ▸ h.created, hh ▸ h.unique, hh ▸ h.null, fun id hid => ?_, fun id hid => ?_⟩
  · rw [hn, hh]
    rcases (hknown id).mp hid with hid | rfl
    · exact h.ids id hid
    · exact ⟨(h.created timer t ht).2, fun timer' t' ht' heq => h.unique _ _ _ _ ht' ht heq⟩
  · exact (hknown id).mpr (.inl (h.queued id (hq ▸ hid)))

theorem vacant_heap {timer : Nat} (h : s.vacant timer = true) : s.heap timer = none := by
  unfold vacant at h
  simp only [Bool.and_eq_true, Option.isNone_iff_eq_none] at h
  exact h.2

theorem count_places (s : TimerQueue) (timer : Nat) :
    s.places.count timer = (s.timers.map Prod.snd).count timer + (s.waiting.map Prod.snd).count timer +
      (s.done.map Prod.snd).count timer + (s.pendingFunctors.filterMap addedBy).count timer := by
  unfold TimerQueue.places
  simp only [List.count_append]

theorem PlacesOk.not_in_timers_of (h : PlacesOk s) (timer : Nat)
    (hother : 0 < (s.waiting.map Prod.snd).count timer + (s.done.map Prod.snd).count timer +
      (s.pendingFunctors.filterMap addedBy).count timer) (expiration : Int) :
    (expiration, timer) ∉ s.timers := by
  intro hmem
  have hone := List.nodup_iff_count_le_one.mp h.nodup timer
  have hin : timer ∈ s.timers.map Prod.snd := List.mem_map.mpr ⟨_, hmem, rfl⟩
  have hpos := List.count_pos_iff.mpr hin
  rw [count_places] at hone
  omega

theorem count_insert {e : Entry} {l : List Entry} (he : e ∉ l) (timer : Nat) :
    ((Entry.insert e l).map Prod.snd).count timer =
      (l.map Prod.snd).count timer + if e.2 = timer then 1 else 0 := by
  rw [((Entry.insert_perm he).map Prod.snd).count_eq, List.map_cons, List.count_cons]
  simp

theorem count_eraseP {timer : Nat} {l : List Entry} (h : (l.any fun e => e.2 == timer) = true)
    (timer' : Nat) :
    (l.map Prod.snd).count timer' =
      ((l.eraseP fun e => e.2 == timer).map Prod.snd).count timer' +
        if timer = timer' then 1 else 0 := by
  obtain ⟨e, he, heq⟩ := List.any_eq_true.mp h
  obtain ⟨e', l₁, l₂, -, heq', rfl, herase⟩ :=
    List.exists_of_eraseP (p := fun e : Entry => e.2 == timer) he heq
  have heq' : e'.2 = timer := by simpa using heq'
  rw [herase]
  simp only [List.map_append, List.map_cons, heq', List.count_append, List.count_cons, beq_iff_eq]
  omega

theorem Owned.same (h : Owned s) (hp : s'.places.Perm s.places)
    (hn : s'.numCreated = s.numCreated) (hi : s'.ids = s.ids) (hh : s'.heap = s.heap)
    (hq : ∀ id, .cancelInLoop id ∈ s'.pendingFunctors →
      .cancelInLoop id ∈ s.pendingFunctors ∨ s.known id = true)
    (hidle : s'.handling = false → s'.waiting = [] ∧ s'.done = []) : Owned s' :=
  ⟨h.places.same hp fun _ => by rw [hh],
    h.names.of_heap hn hi (fun timer t ht => ⟨t, hh ▸ ht, rfl⟩) hq, hidle⟩

theorem Owned.rearmed (h : Owned s) (now : Int) : Owned (s.rearmed now) :=
  h.same (.refl _) rfl rfl rfl (fun _ => .inl) h.idle

/-- Outside of a pass there is nothing to run and nothing to reset. -/
theorem Owned.handling_of_waiting (h : Owned s) {entry : Entry} {rest : List Entry}
    (hw : s.waiting = entry :: rest) : s.handling = true := by
  by_contra hoff
  have hnone := (h.idle (by simpa using hoff)).1
  rw [hw] at hnone
  cases hnone

theorem Owned.handling_of_done (h : Owned s) {entry : Entry} {rest : List Entry}
    (hd : s.done = entry :: rest) : s.handling = true := by
  by_contra hoff
  have hnone := (h.idle (by simpa using hoff)).2
  rw [hd] at hnone
  cases hnone

theorem Owned.cancelled (h : Owned s) (id : TimerId) (now : Int) : Owned (s.cancelled id now) := by
  unfold TimerQueue.cancelled
  split
  · rename_i hfound
    obtain ⟨-, hany⟩ := Bool.and_eq_true_iff.mp hfound
    refine Owned.rearmed ?_ now
    refine ⟨h.places.shrink (List.perm_iff_count.mpr fun timer => ?_) rfl,
      h.names.of_heap rfl rfl (fun timer t ht => ?_) fun _ => .inl, h.idle⟩
    · rw [List.count_cons, count_places, count_places, count_eraseP hany timer]
      simp only [beq_iff_eq]
      omega
    · by_cases heq : timer = id.timer
      · subst heq
        simp at ht
      · exact ⟨t, by simpa [heq] using ht, rfl⟩
  · exact h.same (.refl _) rfl rfl rfl (fun _ => .inl) h.idle

theorem Owned.popCancel {id : TimerId} {rest : List TimerFunctor} (h : Owned s)
    (hq : s.pendingFunctors = .cancelInLoop id :: rest) : Owned { s with pendingFunctors := rest } := by
  refine h.same (List.perm_iff_count.mpr fun timer => ?_) rfl rfl rfl (fun id' hid' => .inl ?_) h.idle
  · rw [count_places, count_places, hq]
    simp [List.filterMap_cons, addedBy]
  · rw [hq]
    exact List.mem_cons_of_mem _ hid'

theorem Owned.move {m : Option TimerLabel} (h : Owned s) (hm : Move s m s') : Owned s' := by
  cases hm with
  | addTimer timer expiration now interval hv =>
    have hnew := vacant_heap hv
    refine ⟨h.places.grow hnew (List.perm_iff_count.mpr fun timer' => ?_) rfl,
      h.names.create hv rfl rfl (fun _ hid => (List.mem_append.mp hid).imp_right List.mem_singleton.mp)
        (List.subset_append_left _ _) fun _ => id, h.idle⟩
    unfold added
    rw [List.count_cons, count_places, count_places,
      count_insert (h.places.not_in_timers hnew expiration)]
    simp only [beq_iff_eq]
    omega
  | addTimerElsewhere timer expiration interval hv =>
    refine ⟨h.places.grow (vacant_heap hv) (List.perm_iff_count.mpr fun timer' => ?_) rfl,
      h.names.create hv rfl rfl (fun _ => .inl) (List.Subset.refl _) fun id hid => by simpa using hid, h.idle⟩
    rw [List.count_cons, count_places, count_places]
    simp [addedBy, List.count_cons]
    omega
  | returnElsewhere timer t ht =>
    exact ⟨h.places.same (.refl _) fun _ => rfl, h.names.name ht rfl rfl rfl rfl, h.idle⟩
  | cancel id now _ => exact h.cancelled id now
  | cancelElsewhere id hid =>
    refine h.same (List.perm_iff_count.mpr fun timer => ?_) rfl rfl rfl (fun id' hid' => ?_) h.idle
    · rw [count_places, count_places]
      simp [List.filterMap_cons, addedBy]
    · rcases List.mem_append.mp hid' with hin | hin
      · exact .inl hin
      · obtain rfl : id' = id := by simpa using hin
        exact .inr hid
  | functorAdd timer t rest now hq ht =>
    have hqueued : (s.pendingFunctors.filterMap addedBy) = timer :: rest.filterMap addedBy := by
      rw [hq]
      rfl
    have hnot := h.places.not_in_timers_of timer
      (by rw [hqueued, List.count_cons_self]; omega) t.expiration
    refine h.same (List.perm_iff_count.mpr fun timer' => ?_) rfl rfl rfl (fun id hid => .inl ?_) h.idle
    · unfold added
      rw [count_places, count_places, count_insert hnot, hqueued, List.count_cons]
      simp only [beq_iff_eq]
      omega
    · rw [hq]
      exact List.mem_cons_of_mem _ hid
  | functorCancel id rest now hq => exact (h.popCancel hq).cancelled id now
  | expire armed _ => exact h.same (.refl _) rfl rfl rfl (fun _ => .inl) h.idle
  | expired now _ hw _ =>
    refine h.same (List.perm_iff_count.mpr fun timer => ?_) rfl rfl rfl (fun _ => .inl) nofun
    have hsplit := congrArg (fun l => (l.map Prod.snd).count timer)
      (List.takeWhile_append_dropWhile (p := fun entry => Entry.before entry (sentry now))
        (l := s.timers))
    simp only [List.map_append, List.count_append] at hsplit
    rw [count_places, count_places, hw]
    simp only [List.map_nil, List.count_nil]
    omega
  | run entry rest t hw _ =>
    refine h.same (List.perm_iff_count.mpr fun timer => ?_) rfl rfl rfl (fun _ => .inl) fun hoff => ?_
    · rw [count_places, count_places, hw]
      simp only [List.map_append, List.map_cons, List.map_nil, List.count_append, List.count_cons,
        List.count_nil]
      omega
    · exact nomatch (h.handling_of_waiting hw).symm.trans hoff
  | again now entry rest t hw hd ht _ =>
    have hnot := h.places.not_in_timers_of entry.2
      (by rw [hd, List.map_cons, List.count_cons_self]; omega) (t.restart now).expiration
    refine ⟨h.places.same (List.perm_iff_count.mpr fun timer => ?_) fun timer => ?_,
      h.names.of_heap rfl rfl (fun timer t' ht' => ?_) fun _ => .inl, fun hoff => ?_⟩
    · rw [count_places, count_places, count_insert hnot, hd, List.map_cons, List.count_cons]
      simp only [beq_iff_eq]
      omega
    · by_cases heq : timer = entry.2
      · subst heq
        simp [ht]
      · simp [heq]
    · by_cases heq : timer = entry.2
      · subst heq
        obtain rfl : t.restart now = t' := by simpa using ht'
        exact ⟨t, ht, (t.restart_sequence now).symm⟩
      · exact ⟨t', by simpa [heq] using ht', rfl⟩
    · exact nomatch (h.handling_of_done hd).symm.trans hoff
  | dropped entry rest t hw hd ht _ =>
    refine ⟨h.places.shrink (List.perm_iff_count.mpr fun timer => ?_) rfl,
      h.names.of_heap rfl rfl (fun timer t' ht' => ?_) fun _ => .inl, fun hoff => ?_⟩
    · rw [List.count_cons, count_places, count_places, hd, List.map_cons, List.count_cons]
      simp only [beq_iff_eq]
      omega
    · by_cases heq : timer = entry.2
      · subst heq
        simp at ht'
      · exact ⟨t', by simpa [heq] using ht', rfl⟩
    · exact nomatch (h.handling_of_done hd).symm.trans hoff
  | finished now hw hd => exact h.same (.refl _) rfl rfl rfl (fun _ => .inl) fun _ => ⟨hw, hd⟩

theorem new_owned : Owned new := by
  refine ⟨⟨List.nodup_nil, fun timer => by simp [TimerQueue.places, new]⟩, ?_, fun _ => ⟨rfl, rfl⟩⟩
  refine ⟨nofun, nofun, rfl, fun id hid => ?_, nofun⟩
  exact ⟨by simp_all [known, new], nofun⟩

/-! ## The functions -/

/-- The batch of the running `handleRead` is its own. -/
def SameBatch (s s' : TimerQueue) : Prop := s'.waiting = s.waiting ∧ s'.done = s.done

/-- A contract of all functions: the timers are owned, and `K` is kept. The only fault is that of an `addTimer`
that returns too late. -/
def moveContract (K : TimerQueue → Prop) : Contract TimerQueue Unit Int Nat Fault :=
  ⟨fun s => Owned s ∧ K s, fun _ _ => True, fun e s => e = .deletedSequence ∧ Owned s ∧ K s, fun _ _ _ => True⟩

section
variable {K : TimerQueue → Prop} {guar : TimerQueue → TimerQueue → Prop}

abbrev Ends (K : TimerQueue → Prop) (guar : TimerQueue → TimerQueue → Prop) {α : Type}
    (p : TimerM α) (post : TimerQueue → TimerQueue → α → Prop) (s₀ s : TimerQueue) : Prop :=
  wp (moveContract K) guar SameBatch p post s₀ s

theorem deref_ends {timer : Nat} {t : Timer} {post : TimerQueue → TimerQueue → Timer → Prop}
    {s₀ : TimerQueue} (ht : s.heap timer = some t) (h : post s₀ s t) :
    Ends K guar (deref timer) post s₀ s := by
  unfold Ends deref
  rw [wp_bind, wp_read, ht]
  exact h

theorem insert_ends {timer : Nat} {t : Timer} {post : TimerQueue → TimerQueue → Bool → Prop}
    {s₀ : TimerQueue} (ht : s.heap timer = some t)
    (h : ∀ b, post s₀ { s with timers := Entry.insert (t.expiration, timer) s.timers } b) :
    Ends K guar (insert timer) post s₀ s := by
  unfold Ends insert
  rw [wp_bind]
  exact deref_ends ht (h _)

variable {post : TimerQueue → TimerQueue → Unit → Prop} {s₀ : TimerQueue}

theorem rearm_ends (h : ∀ now, post s₀ (s.rearmed now) ()) : Ends K guar rearm post s₀ s := by
  unfold Ends rearm
  rw [wp_bind, wp_read]
  rcases hfirst : s.timers with _ | ⟨first, rest⟩
  · have hkept := h 0
    rw [rearmed_nil hfirst] at hkept
    exact hkept
  · intro now _
    have hreset := h now
    rw [rearmed_cons hfirst] at hreset
    exact hreset

theorem addTimerInLoop_ends {timer : Nat} {t : Timer} (ht : s.heap timer = some t)
    (h : ∀ now, post s₀ (s.added timer t.expiration now) ()) :
    Ends K guar (addTimerInLoop timer) post s₀ s := by
  unfold Ends addTimerInLoop insert
  rw [wp_bind, wp_bind]
  refine deref_ends ht ?_
  rw [wp_bind, wp_read, wp_bind, wp_modify, wp_pure, wp_when]
  split
  · rename_i hchanged
    rw [wp_bind]
    refine deref_ends ht fun now _ => ?_
    have hreset := h now
    rw [added_earliest hchanged] at hreset
    exact hreset
  · rename_i hlater
    have hkept := h 0
    rw [added_later (eq_false_of_ne_true hlater)] at hkept
    exact hkept

theorem returnElsewhere_ends {timer : Nat} (hs : Owned s ∧ K s)
    (h : ∀ t, s.heap timer = some t →
      post s₀ { s with returning := s.returning.erase timer, ids := s.ids ++ [⟨timer, t.sequence⟩] } ()) :
    Ends K guar (returnElsewhere timer) post s₀ s := by
  unfold Ends returnElsewhere
  rw [wp_bind, wp_read]
  cases ht : s.heap timer with
  | none => exact ⟨rfl, hs⟩
  | some t => exact h t ht

theorem Owned.live_of_any (h : Owned s) {timer : Nat}
    (hany : (s.timers.any fun entry => entry.2 == timer) = true) : ∃ t, s.heap timer = some t := by
  obtain ⟨entry, hin, heq⟩ := List.any_eq_true.mp hany
  have heq : entry.2 = timer := by simpa using heq
  have hplace : timer ∈ s.places := by
    unfold TimerQueue.places
    simp only [List.mem_append, List.mem_map]
    exact .inl (.inl (.inl ⟨entry, hin, heq⟩))
  exact Option.isSome_iff_exists.mp ((h.places.live timer).mp hplace)

theorem cancelInLoop_ends {id : TimerId} (hs : Owned s)
    (h : ∀ now, post s₀ (s.cancelled id now) ()) :
    Ends K guar (cancelInLoop id) post s₀ s := by
  unfold Ends cancelInLoop emit
  rw [wp_bind, wp_read, wp_bind, wp_when]
  unfold cancelled finds at h
  split
  · rename_i hfound
    simp only [hfound, if_true] at h
    obtain ⟨-, hany⟩ := Bool.and_eq_true_iff.mp hfound
    obtain ⟨t, ht⟩ := hs.live_of_any hany
    unfold delete store
    rw [wp_bind, wp_modify, wp_bind, wp_bind]
    refine deref_ends (t := t) ht (rearm_ends fun now => ?_)
    exact h now
  · rename_i hmissing
    simp only [hmissing] at h
    exact h 0

end

/-! ## A pass -/

theorem Owned.live_of_batch (h : Owned s) {entry : Entry} (hin : entry ∈ s.waiting ∨ entry ∈ s.done) :
    ∃ t, s.heap entry.2 = some t := by
  have hplace : entry.2 ∈ s.places := by
    unfold TimerQueue.places
    simp only [List.mem_append, List.mem_map]
    rcases hin with hin | hin
    · exact .inl (.inl (.inr ⟨entry, hin, rfl⟩))
    · exact .inl (.inr ⟨entry, hin, rfl⟩)
  exact Option.isSome_iff_exists.mp ((h.places.live entry.2).mp hplace)

section
variable {K : TimerQueue → Prop} {guar : TimerQueue → TimerQueue → Prop} {s₀ : TimerQueue}
  (hmove : ∀ s s', Owned s → K s → Move s none s' → K s')
include hmove

theorem keeps_move (h : Owned s ∧ K s) (hm : Move s none s') : Owned s' ∧ K s' :=
  ⟨h.1.move hm, hmove s s' h.1 h.2 hm⟩

/-- The batch, entry by entry: what is left of it is there again when a callback returns. -/
theorem runExpired_ends (hguar : ∀ s s', guar s s') {expired ran : List Entry}
    (h : Owned s ∧ K s) (hw : s.waiting = expired) (hd : s.done = ran) :
    Ends K guar (runExpired expired)
      (fun _ s' _ => (Owned s' ∧ K s') ∧ s'.waiting = [] ∧ s'.done = ran ++ expired) s₀ s := by
  induction expired generalizing s s₀ ran with
  | nil => exact ⟨h, hw, by rw [List.append_nil]; exact hd⟩
  | cons entry rest ih =>
    obtain ⟨t, ht⟩ := h.1.live_of_batch (.inl (hw ▸ List.mem_cons_self))
    have hrun := keeps_move hmove h (.run entry rest t hw ht)
    unfold Ends runExpired run emit
    rw [wp_bind, wp_modify, wp_bind, wp_bind]
    refine deref_ends (t := t) ht ?_
    rw [wp_bind, wp_modify, wp_callback]
    refine ⟨⟨hrun, hguar _ _, trivial⟩, fun s' h' hsame => ?_⟩
    obtain ⟨hw', hd'⟩ := hsame
    have hdone : s'.done = ran ++ [entry] := hd'.trans (by rw [← hd])
    have hrest := @ih s' s' _ h' hw' hdone
    rw [List.append_assoc] at hrest
    exact hrest

theorem resetExpired_ends {now : Int} {expired : List Entry} (h : Owned s ∧ K s)
    (hw : s.waiting = []) (hd : s.done = expired) :
    Ends K guar (resetExpired now expired)
      (fun _ s' _ => (Owned s' ∧ K s') ∧ s'.waiting = [] ∧ s'.done = []) s₀ s := by
  induction expired generalizing s with
  | nil => exact ⟨h, hw, hd⟩
  | cons entry rest ih =>
    obtain ⟨t, ht⟩ := h.1.live_of_batch (.inr (hd ▸ List.mem_cons_self))
    unfold Ends resetExpired resetOne
    rw [wp_bind, wp_modify, wp_bind, wp_bind]
    refine deref_ends (t := t) ht ?_
    rw [wp_ite]
    split
    · rename_i hrepeats
      unfold store
      rw [wp_bind, wp_modify, wp_bind]
      refine insert_ends (t := t.restart now) (Function.update_self _ _ _) fun b => ?_
      exact ih (keeps_move hmove h (.again now entry rest t hw hd ht hrepeats)) hw rfl
    · rename_i honce
      unfold delete store
      rw [wp_bind]
      refine deref_ends (t := t) ht ?_
      exact ih (keeps_move hmove h (.dropped entry rest t hw hd ht (by simpa using honce))) hw rfl

theorem handleRead_ends (hguar : ∀ s s', guar s s') (h : Owned s ∧ K s) (hoff : s.handling = false) :
    Ends K guar handleRead (fun _ s' _ => Owned s' ∧ K s') s₀ s := by
  obtain ⟨hw, hd⟩ := h.1.idle hoff
  unfold Ends handleRead readTimerfd getExpired reset
  rw [wp_bind, wp_modify, wp_bind, wp_syscall]
  intro now _
  have htaken := keeps_move hmove h (.expired now hoff hw hd)
  rw [wp_bind, wp_modify, wp_bind, wp_modify, wp_bind, wp_read, wp_bind]
  refine wp_mono (runExpired_ends hmove hguar htaken rfl hd) ?_
  rintro s₀ s' _ ⟨h', hw', hd'⟩
  rw [wp_bind, wp_bind]
  refine wp_mono (resetExpired_ends hmove h' hw' hd') ?_
  rintro s₀ s'' _ ⟨h'', hw'', hd''⟩
  refine rearm_ends fun now => ?_
  exact keeps_move hmove h'' (.finished now hw'' hd'')

end

theorem cancelled_same (s : TimerQueue) (id : TimerId) (now : Int) :
    SameBatch s (s.cancelled id now) := by
  unfold cancelled
  split
  · exact ⟨rfl, rfl⟩
  · exact ⟨rfl, rfl⟩

theorem Move.sameBatch {label : TimerLabel} (h : Move s (some label) s') : SameBatch s s' := by
  cases h with
  | addTimer timer expiration now interval _ => exact ⟨rfl, rfl⟩
  | addTimerElsewhere timer expiration interval _ => exact ⟨rfl, rfl⟩
  | returnElsewhere timer t _ => exact ⟨rfl, rfl⟩
  | cancel id now _ => exact cancelled_same s id now
  | cancelElsewhere id _ => exact ⟨rfl, rfl⟩
  | functorAdd timer t rest now _ _ => exact ⟨rfl, rfl⟩
  | functorCancel id rest now _ => exact cancelled_same { s with pendingFunctors := rest } id now
  | expire armed _ => exact ⟨rfl, rfl⟩

theorem entry_ends {K : TimerQueue → Prop} {guar : TimerQueue → TimerQueue → Prop}
    {post : TimerQueue → TimerQueue → Unit → Prop} {s₀ : TimerQueue} {label : TimerLabel}
    {p : TimerM Unit} (hp : entry label s = some p) (hlabel : label ≠ .handleRead) (hs : Owned s)
    (hk : ∀ timer, label = .returnElsewhere timer → K s)
    (h : ∀ s', Move s (some label) s' → post s₀ s' ()) : Ends K guar p post s₀ s := by
  cases label with
  | addTimer timer expiration interval =>
    unfold entry at hp
    obtain ⟨hv, hp⟩ := Option.ite_none_right_eq_some.mp hp
    obtain rfl := Option.some.inj hp
    have hnew := Function.update_self timer
      (some (⟨expiration, interval, s.numCreated + 1⟩ : Timer)) s.heap
    unfold Ends addTimer newTimer
    rw [wp_bind, wp_modify, wp_bind]
    refine addTimerInLoop_ends hnew fun now => ?_
    rw [wp_bind]
    refine deref_ends hnew ?_
    exact h _ (.addTimer timer expiration now interval hv)
  | addTimerElsewhere timer expiration interval =>
    unfold entry at hp
    obtain ⟨hv, hp⟩ := Option.ite_none_right_eq_some.mp hp
    obtain rfl := Option.some.inj hp
    exact h _ (.addTimerElsewhere timer expiration interval hv)
  | returnElsewhere timer =>
    unfold entry at hp
    obtain ⟨-, hp⟩ := Option.ite_none_right_eq_some.mp hp
    obtain rfl := Option.some.inj hp
    exact returnElsewhere_ends ⟨hs, hk timer rfl⟩ fun t ht => h _ (.returnElsewhere timer t ht)
  | cancel id =>
    unfold entry at hp
    obtain ⟨hid, hp⟩ := Option.ite_none_right_eq_some.mp hp
    obtain rfl := Option.some.inj hp
    exact cancelInLoop_ends hs fun now => h _ (.cancel id now hid)
  | cancelElsewhere id =>
    unfold entry at hp
    obtain ⟨hid, hp⟩ := Option.ite_none_right_eq_some.mp hp
    obtain rfl := Option.some.inj hp
    exact h _ (.cancelElsewhere id hid)
  | functor =>
    rcases hq : s.pendingFunctors with _ | ⟨f, rest⟩
    · simp only [entry, hq] at hp
      cases hp
    simp only [entry, hq] at hp
    obtain rfl := Option.some.inj hp
    unfold Ends
    rw [wp_bind, wp_modify]
    rcases f with timer | id
    · have hplace : timer ∈ s.places := by
        unfold places
        rw [hq]
        simp [addedBy]
      obtain ⟨t, ht⟩ := Option.isSome_iff_exists.mp ((hs.places.live timer).mp hplace)
      exact addTimerInLoop_ends (t := t) ht fun now => h _ (.functorAdd timer t rest now hq ht)
    · exact cancelInLoop_ends (hs.popCancel hq) fun now => h _ (.functorCancel id rest now hq)
  | handleRead => exact absurd rfl hlabel
  | expire =>
    rcases harmed : s.armed with _ | arming
    · simp only [entry, harmed] at hp
      cases hp
    · simp only [entry, harmed] at hp
      obtain rfl := Option.some.inj hp
      exact h _ (.expire arming harmed)

/-- **The rule for timer queues**: what every move keeps holds in every run. The only fault is that of an
`addTimer` that returns too late. -/
theorem invariant_of_move {label : TimerQueue → TimerLabel → Prop} {K : TimerQueue → Prop}
    (hinit : K new)
    (hmove : ∀ s m s', Owned s → K s → (∀ l, m = some l → label s l) → Move s m s' → K s')
    {c : Config Unit TimerQueue Unit Int Nat Fault}
    (h : machine.Reach ⟨label, fun _ _ _ => True⟩ c) :
    (∀ e, c.crashed = some e → e = .deletedSequence) ∧ Owned c.st ∧ K c.st := by
  have hpart : ∀ s s', Owned s → K s → Move s none s' → K s' := fun s s' ho hk hm =>
    hmove s none s' ho hk nofun hm
  have hidle : ∀ s s₀ s' : TimerQueue, Machine.Owes (fun _ : Unit => SameBatch) () true s s₀ s' :=
    fun _ _ _ => ⟨fun u hu => absurd (Subsingleton.elim u ()) hu, nofun⟩
  have hkeeps : machine.Keeps (moveContract K) (fun _ => SameBatch) ⟨label, fun _ _ _ => True⟩ := by
    refine ⟨fun _ _ => ⟨rfl, rfl⟩, fun _ _ _ _ h h' => ⟨h'.1.trans h.1, h'.2.trans h.2⟩, ?_,
      fun _ _ _ _ _ => trivial, ?_⟩
    · rintro s rfl
      exact ⟨new_owned, hinit⟩
    intro l s p hp hl hs
    have hlabel : ∀ l', some l = some l' → label s l' := by
      rintro l' heq
      rwa [← Option.some.inj heq]
    by_cases hread : l = .handleRead
    · subst hread
      simp only [machine, entry] at hp
      split at hp
      · cases hp
      · rename_i hoff
        obtain rfl := Option.some.inj hp
        refine wp_mono (handleRead_ends hpart (hidle s) hs (eq_false_of_ne_true hoff)) ?_
        exact fun s₀ s' _ h' => ⟨h', hidle s s₀ s'⟩
    · refine entry_ends hp hread hs.1 (fun _ _ => hs.2) fun s' hm => ?_
      refine ⟨⟨hs.1.move hm, hmove _ _ _ hs.1 hs.2 hlabel hm⟩, ?_⟩
      exact ⟨fun u hu => absurd (Subsingleton.elim u ()) hu, fun _ => hm.sameBatch⟩
  have hrun := hkeeps.runOk h
  rcases hcrash : c.crashed with _ | e
  · exact ⟨nofun, hrun.inv hcrash⟩
  · obtain ⟨rfl, hkept⟩ := hrun.crash e hcrash
    exact ⟨fun _ he => (Option.some.inj he).symm, hkept⟩

end TimerQueue

end Agora
