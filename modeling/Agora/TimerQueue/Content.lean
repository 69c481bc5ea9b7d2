import Agora.TimerQueue.Places

/-!
# The callbacks of a pass

They add and cancel timers while the batch is out of `timers_`. What they did is kept here beside the
state: which timers they added, which ids they cancelled, and which timers these cancels hit.
-/

open Agora.Lib Agora.Lib.Prog

namespace Agora

/-! ## The split -/

theorem split_of_pairwise {α : Type} {p : α → Bool} {l : List α}
    (h : l.Pairwise fun a b => p b = true → p a = true) :
    l.takeWhile p = l.filter p ∧ l.dropWhile p = l.filter fun a => !p a := by
  induction l with
  | nil => exact ⟨rfl, rfl⟩
  | cons x xs ih =>
    obtain ⟨hfirst, hrest⟩ := List.pairwise_cons.mp h
    obtain ⟨htake, hdrop⟩ := ih hrest
    cases hx : p x with
    | true => simp [hx, htake, hdrop]
    | false =>
      have hxs : ∀ y ∈ xs, p y = false := by
        intro y hy
        by_contra hpy
        rw [hfirst y hy (by simpa using hpy)] at hx
        cases hx
      have hkept : xs.filter (fun y => !p y) = xs :=
        List.filter_eq_self.mpr fun y hy => by simp [hxs y hy]
      simpa [hx, hkept] using hxs

namespace Entry

theorem before_sentry {e : Entry} {now : Int} (h : e.2 < UINTPTR_MAX) :
    e.before (TimerQueue.sentry now) = decide (e.1 ≤ now) := by
  have hiff : e.before (TimerQueue.sentry now) = true ↔ e.1 ≤ now := by
    rw [before_iff]
    unfold TimerQueue.sentry
    constructor
    · rintro (hlt | ⟨heq, -⟩)
      · exact Int.le_of_lt hlt
      · exact Int.le_of_eq heq
    · intro hle
      rcases Int.lt_or_eq_of_le hle with hlt | heq
      · exact .inl hlt
      · exact .inr ⟨heq, h⟩
  rw [Bool.eq_iff_iff, hiff, decide_eq_true_iff]

theorem split_sentry {l : List Entry} (hsorted : Sorted l) (haddress : ∀ e ∈ l, e.2 < UINTPTR_MAX)
    (now : Int) :
    (l.takeWhile fun e => e.before (TimerQueue.sentry now)) = l.filter (fun e => decide (e.1 ≤ now)) ∧
      (l.dropWhile fun e => e.before (TimerQueue.sentry now)) = l.filter fun e => !decide (e.1 ≤ now) := by
  have hdown : l.Pairwise fun a b => b.before (TimerQueue.sentry now) = true →
      a.before (TimerQueue.sentry now) = true :=
    List.Pairwise.imp (fun hab hb => before_trans hab hb) hsorted
  obtain ⟨htake, hdrop⟩ := split_of_pairwise hdown
  rw [htake, hdrop]
  refine ⟨List.filter_congr fun e he => before_sentry (haddress e he), ?_⟩
  refine List.filter_congr fun e he => ?_
  rw [before_sentry (haddress e he)]

end Entry

namespace TimerQueue

/-- The id of the timer at this address. -/
def idAt (s : TimerQueue) (timer : Nat) : TimerId := ⟨timer, (s.heap timer).elim 0 Timer.sequence⟩

/-- `timers_`, with the ids of the timers. -/
def content (s : TimerQueue) : List (Int × TimerId) :=
  s.timers.map fun entry => (entry.1, s.idAt entry.2)

def due (s : TimerQueue) (now : Int) : List Entry := s.timers.filter fun entry => entry.1 ≤ now

/-- What the callbacks of a pass have done. -/
structure Calls where
  added : List (Int × TimerId)
  cancelled : List TimerId
  /-- The timers that the cancels found in `timers_`, at the addresses of their ids. -/
  hit : List TimerId

def Calls.after (calls : Calls) (s : TimerQueue) : Action Unit Int TimerLabel → Calls
  | .start (.addTimer timer expiration _) _ =>
    { calls with added := calls.added ++ [(expiration, ⟨timer, s.numCreated + 1⟩)] }
  | .start (.cancel id) _ =>
    { calls with
      cancelled := calls.cancelled ++ [id]
      hit := calls.hit ++ if s.finds id then [s.idAt id.timer] else [] }
  | _ => calls

/-- The timers that a pass should leave alone, unless they are cancelled: those that are not due, and
those that its callbacks add. -/
def Held (s₀ : TimerQueue) (now : Int) (calls : Calls) (x : Int × TimerId) : Prop :=
  x ∈ s₀.content ∧ now < x.1 ∨ x ∈ calls.added

/-! ## The content of `timers_` -/

variable {s s' : TimerQueue}

theorem idAt_congr {timer : Nat} (h : s'.heap timer = s.heap timer) : s'.idAt timer = s.idAt timer := by
  unfold idAt
  rw [h]

theorem idAt_some {timer : Nat} {t : Timer} (h : s.heap timer = some t) :
    s.idAt timer = ⟨timer, t.sequence⟩ := by
  unfold idAt
  rw [h]
  rfl

theorem mem_content {x : Int × TimerId} :
    x ∈ s.content ↔ (x.1, x.2.timer) ∈ s.timers ∧ x.2 = s.idAt x.2.timer := by
  unfold content
  rw [List.mem_map]
  constructor
  · rintro ⟨entry, hin, rfl⟩
    exact ⟨hin, rfl⟩
  · rintro ⟨hin, hid⟩
    exact ⟨_, hin, Prod.ext rfl hid.symm⟩

theorem Owned.live_of_timers (h : Owned s) {entry : Entry} (hin : entry ∈ s.timers) :
    ∃ t, s.heap entry.2 = some t :=
  h.live_of_any (List.any_eq_true.mpr ⟨entry, hin, beq_self_eq_true _⟩)

theorem Owned.live_of_content (h : Owned s) {x : Int × TimerId} (hx : x ∈ s.content) :
    ∃ t, s.heap x.2.timer = some t ∧ x.2.sequence = t.sequence := by
  obtain ⟨hin, hid⟩ := mem_content.mp hx
  obtain ⟨t, ht⟩ := h.live_of_timers hin
  rw [idAt_some ht] at hid
  exact ⟨t, ht, congrArg TimerId.sequence hid⟩

theorem content_same (ht : s'.timers = s.timers)
    (hheap : ∀ entry ∈ s.timers, s'.heap entry.2 = s.heap entry.2) : s'.content = s.content := by
  unfold content
  rw [ht]
  refine List.map_congr_left fun entry hin => ?_
  rw [idAt_congr (hheap entry hin)]

theorem content_insert {e : Entry} {t : Timer} (ht : s'.timers = Entry.insert e s.timers)
    (hnot : e ∉ s.timers) (hnew : s'.heap e.2 = some t)
    (hheap : ∀ entry ∈ s.timers, s'.heap entry.2 = s.heap entry.2) (x : Int × TimerId) :
    x ∈ s'.content ↔ x ∈ s.content ∨ x = (e.1, ⟨e.2, t.sequence⟩) := by
  have hsame : (s.timers.map fun entry => (entry.1, s'.idAt entry.2)) = s.content := by
    refine List.map_congr_left fun entry hin => ?_
    rw [idAt_congr (hheap entry hin)]
  unfold content at hsame ⊢
  rw [ht, ((Entry.insert_perm hnot).map _).mem_iff, List.map_cons, List.mem_cons, hsame, idAt_some hnew]
  exact or_comm

theorem content_cancelled (h : Owned s) {id : TimerId} (hfound : s.finds id = true) (now : Int)
    (x : Int × TimerId) :
    x ∈ (s.cancelled id now).content ↔ x ∈ s.content ∧ x.2 ≠ s.idAt id.timer := by
  obtain ⟨-, hany⟩ := Bool.and_eq_true_iff.mp hfound
  have htimers : (s.cancelled id now).timers = s.timers.eraseP fun entry => entry.2 == id.timer := by
    unfold cancelled
    rw [if_pos hfound]
    rfl
  have hheap : ∀ timer, timer ≠ id.timer → (s.cancelled id now).heap timer = s.heap timer := by
    intro timer hne
    rw [cancelled_heap, if_pos hfound, Function.update_of_ne hne]
  rw [mem_content, mem_content, htimers]
  constructor
  · rintro ⟨hin, hid⟩
    have hne : x.2.timer ≠ id.timer := h.places.timer_ne_erased hany hin
    rw [idAt_congr (hheap _ hne)] at hid
    refine ⟨⟨List.mem_of_mem_eraseP hin, hid⟩, fun heq => ?_⟩
    have htimer : x.2.timer = (s.idAt id.timer).timer := congrArg TimerId.timer heq
    exact hne htimer
  · rintro ⟨⟨hin, hid⟩, hother⟩
    have hne : x.2.timer ≠ id.timer := fun heq => hother (heq ▸ hid)
    refine ⟨(List.mem_eraseP_of_neg (by simpa using hne)).mpr hin, ?_⟩
    rw [idAt_congr (hheap _ hne)]
    exact hid

/-! ## The callbacks -/

/-- What is known about the calls, with `n` timers created so far. -/
structure CallsOk (s₀ : TimerQueue) (now : Int) (calls : Calls) (n : Nat) : Prop where
  created : s₀.numCreated ≤ n
  added : ∀ x ∈ calls.added, s₀.numCreated < x.2.sequence ∧ x.2.sequence ≤ n
  cancelled : ∀ id ∈ calls.cancelled, id.sequence ≤ n
  hit : ∀ id ∈ calls.hit, ∃ x, s₀.Held now calls x ∧ x.2 = id
  /-- A timer that is cancelled by its own id is hit. -/
  own : ∀ x, s₀.Held now calls x → x.2 ∈ calls.cancelled → x.2 ∈ calls.hit

/-- The pass that began in `s₀` is still in the callbacks. -/
structure Behind (s₀ : TimerQueue) (now : Int) (calls : Calls) (s : TimerQueue) : Prop where
  ok : CallsOk s₀ now calls s.numCreated
  content : ∀ x, x ∈ s.content ↔ s₀.Held now calls x ∧ x.2 ∉ calls.hit
  batch : ∀ entry ∈ s₀.due now, s.heap entry.2 = s₀.heap entry.2

variable {s₀ : TimerQueue} {now : Int} {calls : Calls}

theorem CallsOk.held_le (h : CallsOk s₀ now calls s.numCreated) (ho : Owned s₀) {x : Int × TimerId}
    (hx : s₀.Held now calls x) : x.2.sequence ≤ s.numCreated := by
  rcases hx with ⟨hin, -⟩ | hin
  · obtain ⟨t, ht, hseq⟩ := ho.live_of_content hin
    rw [hseq]
    exact Nat.le_trans (ho.names.created _ t ht).2 h.created
  · exact (h.added x hin).2

theorem Behind.of_same (h : Behind s₀ now calls s) (hn : s'.numCreated = s.numCreated)
    (ht : s'.timers = s.timers) (hh : s'.heap = s.heap) : Behind s₀ now calls s' := by
  have hcontent : s'.content = s.content := content_same ht fun _ _ => by rw [hh]
  refine ⟨hn ▸ h.ok, fun x => ?_, fun entry hin => ?_⟩
  · rw [hcontent]
    exact h.content x
  · rw [hh]
    exact h.batch entry hin

theorem Owned.entry_eq (h : Owned s) {e e' : Entry} (he : e ∈ s.timers) (he' : e' ∈ s.timers)
    (heq : e.2 = e'.2) : e = e' := by
  have hnodup : (s.timers.map Prod.snd).Nodup := by
    have hplaces := h.places.nodup
    unfold TimerQueue.places at hplaces
    simp only [List.append_assoc] at hplaces
    exact (List.nodup_append.mp hplaces).1
  exact List.inj_on_of_nodup_map hnodup he he' heq

theorem mem_due {entry : Entry} : entry ∈ s.due now ↔ entry ∈ s.timers ∧ entry.1 ≤ now := by
  unfold due
  rw [List.mem_filter, decide_eq_true_iff]

theorem Behind.not_in_batch (h : Behind s₀ now calls s) (ho : Owned s₀) {entry : Entry}
    (hentry : entry ∈ s₀.due now) {x : Int × TimerId} (hx : x ∈ s.content) : x.2.timer ≠ entry.2 := by
  obtain ⟨hin, hdue⟩ := mem_due.mp hentry
  obtain ⟨t, ht⟩ := ho.live_of_timers hin
  intro heq
  rcases ((h.content x).mp hx).1 with ⟨hx₀, hlater⟩ | hadded
  · obtain rfl : (x.1, x.2.timer) = entry := ho.entry_eq (mem_content.mp hx₀).1 hin heq
    exact absurd hdue (Int.not_le.mpr hlater)
  · have hid := (mem_content.mp hx).2
    rw [heq, idAt_congr (h.batch entry hentry), idAt_some ht] at hid
    have hseq : x.2.sequence = t.sequence := congrArg TimerId.sequence hid
    have hle := (ho.names.created entry.2 t ht).2
    have hgt := (h.ok.added x hadded).1
    omega

theorem Behind.batch_ne (h : Behind s₀ now calls s) (ho : Owned s₀) {entry : Entry}
    (hentry : entry ∈ s₀.due now) {timer : Nat} (hnew : s.heap timer = none) : entry.2 ≠ timer := by
  rintro rfl
  obtain ⟨t, ht⟩ := ho.live_of_timers (mem_due.mp hentry).1
  rw [h.batch entry hentry, ht] at hnew
  cases hnew

theorem Behind.add (h : Behind s₀ now calls s) (ho₀ : Owned s₀) (ho : Owned s) {timer : Nat}
    (hv : s.vacant timer = true) (expiration reading : Int) (interval : Option Int) :
    Behind s₀ now
      { calls with added := calls.added ++ [(expiration, ⟨timer, s.numCreated + 1⟩)] }
      (added { s with
        numCreated := s.numCreated + 1
        heap := Function.update s.heap timer (some ⟨expiration, interval, s.numCreated + 1⟩)
        ids := s.ids ++ [⟨timer, s.numCreated + 1⟩] } timer expiration reading) := by
  have hnew := vacant_heap hv
  have hcreated := h.ok.created
  have hheld : ∀ x : Int × TimerId, s₀.Held now
      { calls with added := calls.added ++ [(expiration, ⟨timer, s.numCreated + 1⟩)] } x ↔
      s₀.Held now calls x ∨ x = (expiration, ⟨timer, s.numCreated + 1⟩) := by
    intro x
    unfold Held
    rw [List.mem_append, List.mem_singleton, or_assoc]
  have hnot : ∀ x : Int × TimerId, x = (expiration, ⟨timer, s.numCreated + 1⟩) → x.2 ∉ calls.hit := by
    rintro _ rfl hin
    obtain ⟨y, hy, heq⟩ := h.ok.hit _ hin
    have hle := h.ok.held_le ho₀ hy
    rw [heq] at hle
    simp only at hle
    omega
  refine ⟨⟨?_, fun x hx => ?_, fun id hid => ?_, fun id hid => ?_, fun x hx hcancelled => ?_⟩, fun x => ?_,
    fun entry hin => ?_⟩
  · exact Nat.le_succ_of_le hcreated
  · rcases List.mem_append.mp hx with hx | hx
    · exact ⟨(h.ok.added x hx).1, Nat.le_succ_of_le (h.ok.added x hx).2⟩
    · obtain rfl := List.mem_singleton.mp hx
      exact ⟨Nat.lt_succ_of_le hcreated, Nat.le_refl _⟩
  · exact Nat.le_succ_of_le (h.ok.cancelled id hid)
  · obtain ⟨x, hx, heq⟩ := h.ok.hit id hid
    exact ⟨x, (hheld x).mpr (.inl hx), heq⟩
  · rcases (hheld x).mp hx with hx | rfl
    · exact h.ok.own x hx hcancelled
    · have hle := h.ok.cancelled _ hcancelled
      simp only at hle
      omega
  · rw [content_insert (s := s) (t := ⟨expiration, interval, s.numCreated + 1⟩) rfl
      (ho.places.not_in_timers hnew expiration) (Function.update_self _ _ _)
      (fun entry hin => Function.update_of_ne (ho.places.timer_ne_new hin hnew) _ _) x, hheld,
      h.content x]
    constructor
    · rintro (⟨hx, hhit⟩ | heq)
      · exact ⟨.inl hx, hhit⟩
      · exact ⟨.inr heq, hnot x heq⟩
    · rintro ⟨hx | heq, hhit⟩
      · exact .inl ⟨hx, hhit⟩
      · exact .inr heq
  · rw [← h.batch entry hin]
    exact Function.update_of_ne (h.batch_ne ho₀ hin hnew) _ _

theorem Behind.addElsewhere (h : Behind s₀ now calls s) (ho₀ : Owned s₀) (ho : Owned s) {timer : Nat}
    (hnew : s.heap timer = none) {t : Timer} (hn : s'.numCreated = s.numCreated + 1)
    (ht : s'.timers = s.timers) (hh : s'.heap = Function.update s.heap timer (some t)) :
    Behind s₀ now calls s' := by
  have hcontent : s'.content = s.content := by
    refine content_same ht fun entry hin => ?_
    rw [hh, Function.update_of_ne (ho.places.timer_ne_new hin hnew)]
  refine ⟨⟨?_, fun x hx => ?_, fun id hid => ?_, h.ok.hit, h.ok.own⟩, fun x => ?_, fun entry hin => ?_⟩
  · have hcreated := h.ok.created
    omega
  · have hadded := h.ok.added x hx
    omega
  · have hcancelled := h.ok.cancelled id hid
    omega
  · rw [hcontent]
    exact h.content x
  · rw [hh, Function.update_of_ne (h.batch_ne ho₀ hin hnew)]
    exact h.batch entry hin

theorem cancelled_numCreated (s : TimerQueue) (id : TimerId) (reading : Int) :
    (s.cancelled id reading).numCreated = s.numCreated := by
  unfold cancelled
  split <;> rfl

theorem finds_content (h : Owned s) {x : Int × TimerId} (hx : x ∈ s.content) :
    s.finds x.2 = true ∧ s.idAt x.2.timer = x.2 := by
  obtain ⟨hin, hid⟩ := mem_content.mp hx
  obtain ⟨t, ht, -⟩ := h.live_of_content hx
  have hzero : x.2.timer ≠ 0 := by
    intro heq
    rw [heq] at ht
    exact nomatch h.names.null.symm.trans ht
  refine ⟨?_, hid.symm⟩
  unfold finds
  rw [Bool.and_eq_true, List.any_eq_true]
  exact ⟨by simpa using hzero, _, hin, beq_self_eq_true _⟩

theorem exists_content {id : TimerId} (hfound : s.finds id = true) :
    ∃ x ∈ s.content, x.2 = s.idAt id.timer := by
  obtain ⟨-, hany⟩ := Bool.and_eq_true_iff.mp hfound
  obtain ⟨entry, hin, heq⟩ := List.any_eq_true.mp hany
  have heq : entry.2 = id.timer := by simpa using heq
  exact ⟨(entry.1, s.idAt entry.2), List.mem_map.mpr ⟨entry, hin, rfl⟩, by rw [heq]⟩

theorem Behind.cancel (h : Behind s₀ now calls s) (ho₀ : Owned s₀) (ho : Owned s) {id : TimerId}
    (hid : s.known id = true) (reading : Int) :
    Behind s₀ now
      { calls with
        cancelled := calls.cancelled ++ [id]
        hit := calls.hit ++ if s.finds id then [s.idAt id.timer] else [] }
      (s.cancelled id reading) := by
  have hn := cancelled_numCreated s id reading
  have hcancelled : ∀ id' ∈ calls.cancelled ++ [id], id'.sequence ≤ s.numCreated := by
    intro id' hin
    rcases List.mem_append.mp hin with hin | hin
    · exact h.ok.cancelled id' hin
    · obtain rfl := List.mem_singleton.mp hin
      exact (ho.names.ids id' hid).1
  by_cases hfound : s.finds id = true
  · rw [if_pos hfound]
    refine ⟨⟨hn ▸ h.ok.created, hn ▸ h.ok.added, hn ▸ hcancelled, fun id' hin => ?_,
      fun x hx hin => ?_⟩, fun x => ?_, fun entry hin => ?_⟩
    · rcases List.mem_append.mp hin with hin | hin
      · exact h.ok.hit id' hin
      · obtain ⟨x, hx, heq⟩ := exists_content hfound
        exact ⟨x, ((h.content x).mp hx).1, heq.trans (List.mem_singleton.mp hin).symm⟩
    · have hx : s₀.Held now calls x := hx
      by_cases hhit : x.2 ∈ calls.hit
      · exact List.mem_append_left _ hhit
      rcases List.mem_append.mp hin with hin | hin
      · exact absurd (h.ok.own x hx hin) hhit
      · have hsame := (finds_content ho ((h.content x).mpr ⟨hx, hhit⟩)).2
        rw [List.mem_singleton.mp hin] at hsame ⊢
        rw [hsame]
        exact List.mem_append_right _ (List.mem_singleton.mpr rfl)
    · rw [content_cancelled ho hfound, h.content x, List.mem_append, List.mem_singleton, not_or, and_assoc]
      rfl
    · obtain ⟨x, hx, heq⟩ := exists_content hfound
      have hne := h.not_in_batch ho₀ hin hx
      rw [heq] at hne
      have hother : entry.2 ≠ id.timer := Ne.symm hne
      rw [cancelled_heap, if_pos hfound, Function.update_of_ne hother]
      exact h.batch entry hin
  · have hmissing := hfound
    rw [if_neg hfound, List.append_nil]
    have hcontent : (s.cancelled id reading).content = s.content := by
      refine content_same ?_ fun entry _ => ?_
      · unfold cancelled
        rw [if_neg hmissing]
      · rw [cancelled_heap, if_neg hmissing]
    refine ⟨⟨hn ▸ h.ok.created, hn ▸ h.ok.added, hn ▸ hcancelled, h.ok.hit, fun x hx hin => ?_⟩,
      fun x => ?_, fun entry hin => ?_⟩
    · have hx : s₀.Held now calls x := hx
      rcases List.mem_append.mp hin with hin | hin
      · exact h.ok.own x hx hin
      · by_contra hhit
        have hfinds := (finds_content ho ((h.content x).mpr ⟨hx, hhit⟩)).1
        rw [List.mem_singleton.mp hin] at hfinds
        exact hmissing hfinds
    · rw [hcontent]
      exact h.content x
    · rw [cancelled_heap, if_neg hmissing]
      exact h.batch entry hin

theorem Behind.move (h : Behind s₀ now calls s) (ho₀ : Owned s₀) (ho : Owned s) {label : TimerLabel}
    {answers : List Int} (hm : Move s (some label) s') (hlabel : loopOnly label = false) :
    Behind s₀ now (calls.after s (.start label answers)) s' := by
  cases hm with
  | addTimer timer expiration reading interval hv => exact h.add ho₀ ho hv expiration reading interval
  | addTimerElsewhere timer expiration interval hv =>
    exact h.addElsewhere ho₀ ho (vacant_heap hv) rfl rfl rfl
  | returnElsewhere timer t _ => exact h.of_same rfl rfl rfl
  | cancel id reading hid => exact h.cancel ho₀ ho hid reading
  | cancelElsewhere id hid => exact h.of_same rfl rfl rfl
  | functorAdd timer t rest reading _ _ => cases hlabel
  | functorCancel id rest reading _ => cases hlabel
  | expire armed _ => exact h.of_same rfl rfl rfl

end TimerQueue

end Agora
