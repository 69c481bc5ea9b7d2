import Agora.TimerQueue.Content

/-!
# One pass over the expired timers

The batch is split off, its callbacks are run one after the other, and its repeating timers are
inserted again.
-/

open Agora.Lib Agora.Lib.Prog

namespace Agora.TimerQueue

/-- A `handleRead` that was started in `c₀`, with the clock at `now`, has come to `c`. -/
inductive InPass (c₀ : Config Unit TimerQueue Unit Int Nat Fault) (now : Int) :
    Calls → Config Unit TimerQueue Unit Int Nat Fault → Prop
  | begins {answers : List Int} {c : Config Unit TimerQueue Unit Int Nat Fault} :
      machine.step c₀ (.start .handleRead (now :: answers)) = some c → InPass c₀ now ⟨[], [], []⟩ c
  | goes {calls : Calls} {c c' : Config Unit TimerQueue Unit Int Nat Fault}
      {a : Action Unit Int TimerLabel} : InPass c₀ now calls c → c.st.handling = true →
      machine.step c a = some c' → InPass c₀ now (calls.after c.st a) c'

/-- The repeating timers of the batch, with their new expirations. -/
def Again (s : TimerQueue) (now : Int) (batch : List Entry) (x : Int × TimerId) : Prop :=
  ∃ entry ∈ batch, ∃ t, s.heap entry.2 = some t ∧ t.repeats = true ∧
    x = ((t.restart now).expiration, ⟨entry.2, t.sequence⟩)

def started : TimerEvent → Option Nat
  | .run sequence => some sequence
  | .cancelInLoop _ => none

/-- The callbacks that were started between `s₀` and `s` are those of these timers of `s₀`, in this
order. -/
def HasRun (s₀ : TimerQueue) (batch : List Entry) (s : TimerQueue) : Prop :=
  ∃ events, s.trace = s₀.trace ++ events ∧
    events.filterMap started = batch.map fun entry => (s₀.idAt entry.2).sequence

variable {s s' s₀ : TimerQueue} {now : Int} {calls : Calls}

/-! ## The end of the pass -/

/-- What `resetExpired` makes of `s`. -/
structure Restarted (s : TimerQueue) (now : Int) (batch : List Entry) (s' : TimerQueue) : Prop where
  content : ∀ x, x ∈ s'.content ↔ x ∈ s.content ∨ s.Again now batch x
  gone : ∀ entry ∈ batch, ∀ t, s.heap entry.2 = some t → t.repeats = false → s'.heap entry.2 = none
  dead : ∀ timer, s.heap timer = none → s'.heap timer = none
  numCreated : s'.numCreated = s.numCreated
  trace : s'.trace = s.trace

theorem Again.congr {batch : List Entry} (h : ∀ entry ∈ batch, s'.heap entry.2 = s.heap entry.2)
    (x : Int × TimerId) : s'.Again now batch x ↔ s.Again now batch x := by
  unfold Again
  constructor
  · rintro ⟨entry, hin, t, ht, hx⟩
    exact ⟨entry, hin, t, h entry hin ▸ ht, hx⟩
  · rintro ⟨entry, hin, t, ht, hx⟩
    exact ⟨entry, hin, t, (h entry hin).symm ▸ ht, hx⟩

theorem again_cons (entry : Entry) (rest : List Entry) (x : Int × TimerId) :
    s.Again now (entry :: rest) x ↔ s.Again now [entry] x ∨ s.Again now rest x := by
  unfold Again
  simp only [List.mem_cons, List.not_mem_nil, or_false, or_and_right, exists_or]

theorem again_singleton {entry : Entry} {t : Timer} (ht : s.heap entry.2 = some t)
    (x : Int × TimerId) : s.Again now [entry] x ↔
      t.repeats = true ∧ x = ((t.restart now).expiration, ⟨entry.2, t.sequence⟩) := by
  unfold Again
  simp [ht]

theorem Restarted.cons {s₁ : TimerQueue} {entry : Entry} {rest : List Entry} {t : Timer}
    (h : Restarted s₁ now rest s') (ht : s.heap entry.2 = some t)
    (hfirst : ∀ x, x ∈ s₁.content ↔ x ∈ s.content ∨ s.Again now [entry] x)
    (honce : t.repeats = false → s₁.heap entry.2 = none)
    (hheap : ∀ timer, timer ≠ entry.2 → s₁.heap timer = s.heap timer)
    (hrest : ∀ other ∈ rest, other.2 ≠ entry.2) (hn : s₁.numCreated = s.numCreated)
    (htrace : s₁.trace = s.trace) : Restarted s now (entry :: rest) s' := by
  have hother : ∀ other ∈ rest, s₁.heap other.2 = s.heap other.2 := fun other hin =>
    hheap other.2 (hrest other hin)
  refine ⟨fun x => ?_, fun other hin t' ht' honce' => ?_, fun timer hdead => ?_,
    h.numCreated.trans hn, h.trace.trans htrace⟩
  · rw [h.content x, hfirst x, Again.congr hother, again_cons entry rest, or_assoc]
  · rcases List.mem_cons.mp hin with rfl | hin
    · obtain rfl : t = t' := Option.some.inj (ht.symm.trans ht')
      exact h.dead _ (honce honce')
    · exact h.gone other hin t' ((hother other hin).trans ht') honce'
  · have hne : timer ≠ entry.2 := by
      rintro rfl
      exact nomatch hdead.symm.trans ht
    exact h.dead timer ((hheap timer hne).trans hdead)

theorem Owned.done_ne (h : Owned s) {entry : Entry} {rest : List Entry} (hd : s.done = entry :: rest)
    {other : Entry} (hin : other ∈ rest) : other.2 ≠ entry.2 := by
  intro heq
  have hone := List.nodup_iff_count_le_one.mp h.places.nodup entry.2
  have hpos := List.count_pos_iff.mpr (List.mem_map.mpr ⟨other, hin, heq⟩)
  rw [count_places, hd, List.map_cons, List.count_cons_self] at hone
  omega

theorem Owned.not_done (h : Owned s) {entry : Entry} {rest : List Entry} (hd : s.done = entry :: rest)
    {other : Entry} (hin : other ∈ s.timers) : other.2 ≠ entry.2 :=
  h.places.timer_ne hin (by rw [hd, List.map_cons, List.count_cons_self]; omega)

theorem Restarted.again (ho : Owned s) {entry : Entry} {rest : List Entry} {t : Timer}
    (hd : s.done = entry :: rest) (ht : s.heap entry.2 = some t) (hrepeats : t.repeats = true)
    (h : Restarted { s with
      done := rest
      heap := Function.update s.heap entry.2 (some (t.restart now))
      timers := Entry.insert ((t.restart now).expiration, entry.2) s.timers } now rest s') :
    Restarted s now (entry :: rest) s' := by
  refine h.cons ht (fun x => ?_) (fun honce => ?_) (fun timer hne => ?_)
    (fun other hin => ho.done_ne hd hin) rfl rfl
  · rw [again_singleton ht, and_iff_right hrepeats, ← t.restart_sequence now]
    refine content_insert (e := ((t.restart now).expiration, entry.2)) rfl (fun hin => ?_)
      (Function.update_self _ _ _) (fun other hin => ?_) x
    · exact ho.not_done hd hin rfl
    · exact Function.update_of_ne (ho.not_done hd hin) _ _
  · rw [hrepeats] at honce
    cases honce
  · exact Function.update_of_ne hne _ _

theorem Restarted.dropped (ho : Owned s) {entry : Entry} {rest : List Entry} {t : Timer}
    (hd : s.done = entry :: rest) (ht : s.heap entry.2 = some t) (honce : t.repeats = false)
    (h : Restarted { s with done := rest, heap := Function.update s.heap entry.2 none } now rest s') :
    Restarted s now (entry :: rest) s' := by
  refine h.cons ht (fun x => ?_) (fun _ => Function.update_self _ _ _) (fun timer hne => ?_)
    (fun other hin => ho.done_ne hd hin) rfl rfl
  · have hsame : TimerQueue.content { s with
        done := rest
        heap := Function.update s.heap entry.2 none } = s.content :=
      content_same rfl fun other hin => Function.update_of_ne (ho.not_done hd hin) _ _
    rw [again_singleton ht, honce, hsame]
    simp
  · exact Function.update_of_ne hne _ _

theorem resetExpired_content {guar : TimerQueue → TimerQueue → Prop} {batch : List Entry}
    (ho : Owned s) (hw : s.waiting = []) (hd : s.done = batch) :
    Ends (fun _ => False) guar (resetExpired now batch) (fun _ s' _ => Restarted s now batch s') s₀ s := by
  induction batch generalizing s with
  | nil =>
    refine ⟨fun x => ?_, nofun, fun _ h => h, rfl, rfl⟩
    unfold Again
    simp
  | cons entry rest ih =>
    obtain ⟨t, ht⟩ := ho.live_of_batch (.inr (hd ▸ List.mem_cons_self))
    unfold Ends resetExpired resetOne
    rw [wp_bind, wp_modify, wp_bind, wp_bind]
    refine deref_ends (t := t) ht ?_
    rw [wp_ite]
    split
    · rename_i hrepeats
      have hothers := wp_mono (ih (ho.move (.again now entry rest t hw hd ht hrepeats)) hw rfl)
        fun _ s' _ h => Restarted.again ho hd ht hrepeats h
      unfold store
      rw [wp_bind, wp_modify, wp_bind]
      exact insert_ends (t := t.restart now) (Function.update_self _ _ _) fun _ => hothers
    · rename_i honce
      have honce : t.repeats = false := by simpa using honce
      have hothers := wp_mono (ih (ho.move (.dropped entry rest t hw hd ht honce)) hw rfl)
        fun _ s' _ h => Restarted.dropped ho hd ht honce h
      unfold delete store
      rw [wp_bind]
      exact deref_ends (t := t) ht hothers

/-- What the pass that began in `s₀` has come to when it is over. -/
structure Passed (s₀ : TimerQueue) (now : Int) (calls : Calls) (s : TimerQueue) : Prop where
  ok : CallsOk s₀ now calls s.numCreated
  content : ∀ x, x ∈ s.content ↔
    s₀.Held now calls x ∧ x.2 ∉ calls.hit ∨ s₀.Again now (s₀.due now) x
  gone : ∀ entry ∈ s₀.due now, ∀ t, s₀.heap entry.2 = some t → t.repeats = false →
    s.heap entry.2 = none
  runs : HasRun s₀ (s₀.due now) s

/-- The callbacks of `ran` have been started, and those of `rest` have not. -/
structure Within (s₀ : TimerQueue) (now : Int) (calls : Calls) (ran rest : List Entry)
    (s : TimerQueue) : Prop where
  behind : Behind s₀ now calls s
  batch : s₀.due now = ran ++ rest
  handling : s.handling = true
  waiting : s.waiting = rest
  done : s.done = ran
  runs : HasRun s₀ ran s

/-- What `handleRead` has to do once `rest` is left of its batch. -/
def restOf (now : Int) (batch rest : List Entry) : TimerM Unit := do
  runExpired rest
  reset now batch
  modify fun s => { s with handling := false }

theorem HasRun.quiet {batch : List Entry} (h : HasRun s₀ batch s) {events : List TimerEvent}
    (ht : s'.trace = s.trace ++ events) (hquiet : events.filterMap started = []) :
    HasRun s₀ batch s' := by
  obtain ⟨before, htrace, hran⟩ := h
  refine ⟨before ++ events, ?_, ?_⟩
  · rw [ht, htrace, List.append_assoc]
  · rw [List.filterMap_append, hran, hquiet, List.append_nil]

theorem HasRun.run {batch : List Entry} (h : HasRun s₀ batch s) {entry : Entry}
    (ht : s'.trace = s.trace ++ [.run (s₀.idAt entry.2).sequence]) :
    HasRun s₀ (batch ++ [entry]) s' := by
  obtain ⟨before, htrace, hran⟩ := h
  refine ⟨before ++ [.run (s₀.idAt entry.2).sequence], ?_, ?_⟩
  · rw [ht, htrace, List.append_assoc]
  · rw [List.filterMap_append, hran, List.map_append]
    rfl

theorem Move.quiet {label : TimerLabel} (h : Move s (some label) s') :
    s'.handling = s.handling ∧
      ∃ events, s'.trace = s.trace ++ events ∧ events.filterMap started = [] := by
  have hcancelled : ∀ (s : TimerQueue) id now, (s.cancelled id now).handling = s.handling ∧
      ∃ events, (s.cancelled id now).trace = s.trace ++ events ∧ events.filterMap started = [] := by
    intro s id now
    unfold cancelled
    split
    · exact ⟨rfl, _, rfl, rfl⟩
    · exact ⟨rfl, _, rfl, rfl⟩
  have hsame : s'.trace = s.trace → ∃ events, s'.trace = s.trace ++ events ∧
      events.filterMap started = [] := fun ht => ⟨[], by rw [ht, List.append_nil], rfl⟩
  cases h with
  | addTimer timer expiration now interval _ => exact ⟨rfl, hsame rfl⟩
  | addTimerElsewhere timer expiration interval _ => exact ⟨rfl, hsame rfl⟩
  | returnElsewhere timer t _ => exact ⟨rfl, hsame rfl⟩
  | cancel id now _ => exact hcancelled s id now
  | cancelElsewhere id _ => exact ⟨rfl, hsame rfl⟩
  | functorAdd timer t rest now _ _ => exact ⟨rfl, hsame rfl⟩
  | functorCancel id rest now _ => exact hcancelled { s with pendingFunctors := rest } id now
  | expire armed _ => exact ⟨rfl, hsame rfl⟩

theorem Within.move {ran rest : List Entry} (h : Within s₀ now calls ran rest s) (ho₀ : Owned s₀)
    (ho : Owned s) {label : TimerLabel} {answers : List Int} (hm : Move s (some label) s')
    (hlabel : loopOnly label = false) :
    Within s₀ now (calls.after s (.start label answers)) ran rest s' := by
  obtain ⟨hw, hd⟩ := hm.sameBatch
  obtain ⟨hhandling, events, htrace, hquiet⟩ := hm.quiet
  exact ⟨h.behind.move ho₀ ho hm hlabel, h.batch, hhandling.trans h.handling, hw.trans h.waiting,
    hd.trans h.done, h.runs.quiet htrace hquiet⟩

/-! ## The program of the pass -/

theorem restOf_call {valid : Unit → Int → Bool} {batch rest : List Entry} {entry : Entry} {t : Timer}
    (ht : s.heap entry.2 = some t) (answers : List Int) :
    (restOf now batch (entry :: rest)).exec valid s answers = some (.called { s with
      waiting := rest
      done := s.done ++ [entry]
      trace := s.trace ++ [.run t.sequence] } t.sequence (restOf now batch rest)) := by
  generalize hs : ({ s with waiting := rest, done := s.done ++ [entry] } : TimerQueue) = s'
  have hheap : s'.heap entry.2 = some t := by
    rw [← hs]
    exact ht
  have hread : ∀ (g : TimerQueue → TimerM Timer) (f : Timer → TimerM Unit) (f' f'' : Unit → TimerM Unit),
      ((((Prog.read : TimerM TimerQueue) >>= g) >>= f) >>= f' >>= f'').exec valid s' answers =
        ((g s' >>= f) >>= f' >>= f'').exec valid s' answers := fun _ _ _ _ => rfl
  have hunfold : (restOf now batch (entry :: rest)).exec valid s answers =
      (((deref entry.2 >>= fun t => do
        emit (.run t.sequence)
        callback t.sequence) >>= fun _ => runExpired rest) >>= fun _ => do
          reset now batch
          modify fun s => { s with handling := false }).exec valid s' answers := by
    rw [← hs]
    rfl
  rw [hunfold]
  unfold deref
  rw [hread, hheap, ← hs]
  rfl

theorem restOf_ends {guar : TimerQueue → TimerQueue → Prop} (h : Within s₀ now calls (s₀.due now) [] s)
    (ho : Owned s) :
    Ends (fun _ => False) guar (restOf now (s₀.due now) [])
      (fun _ s' _ => Passed s₀ now calls s' ∧ s'.handling = false) s s := by
  unfold Ends restOf reset runExpired
  rw [wp_bind, wp_pure, wp_bind, wp_bind]
  refine wp_mono (resetExpired_content ho h.waiting h.done) ?_
  intro _ s₁ _ h₁
  refine rearm_ends fun reading => ⟨⟨?_, fun x => ?_, fun entry hin t ht honce => ?_, ?_⟩, rfl⟩
  · have hn : s₁.numCreated = s.numCreated := h₁.numCreated
    show CallsOk s₀ now calls s₁.numCreated
    rw [hn]
    exact h.behind.ok
  · show x ∈ s₁.content ↔ _
    rw [h₁.content x, h.behind.content x, Again.congr h.behind.batch]
  · exact h₁.gone entry hin t ((h.behind.batch entry hin).trans ht) honce
  · have htrace : s₁.trace = s.trace ++ [] := by
      rw [List.append_nil]
      exact h₁.trace
    exact h.runs.quiet htrace rfl

theorem Within.advance {ran rest : List Entry} (h : Within s₀ now calls ran rest s) (ho₀ : Owned s₀)
    (ho : Owned s) {answers : List Int} {stop : Stop TimerQueue Unit Int Nat Fault Unit}
    (he : (restOf now (s₀.due now) rest).exec machine.valid s answers = some stop) :
    (∃ entry rest' s' u, stop = .called s' u (restOf now (s₀.due now) rest') ∧
      Within s₀ now calls (ran ++ [entry]) rest' s') ∨
    ∃ s', stop = .done s' () ∧ Passed s₀ now calls s' ∧ s'.handling = false := by
  cases rest with
  | nil =>
    have hbatch : s₀.due now = ran := by
      rw [h.batch, List.append_nil]
    have hends : Ends (fun _ => False) (fun _ _ => False) (restOf now (s₀.due now) [])
        (fun _ s' _ => Passed s₀ now calls s' ∧ s'.handling = false) s s := restOf_ends (hbatch ▸ h) ho
    have hstop := exec_sound (fun _ _ _ _ _ => trivial) hends (Machine.meets_anyStep_prog _ s answers) he
    cases stop with
    | done s' a => exact .inr ⟨s', rfl, hstop⟩
    | called s' u k => exact hstop.1.2.1.elim
    | faulted s' e => exact hstop.2.2.elim
  | cons entry rest =>
    have hin : entry ∈ s₀.due now := by
      rw [h.batch]
      exact List.mem_append_right _ List.mem_cons_self
    obtain ⟨t, ht⟩ := ho₀.live_of_timers (mem_due.mp hin).1
    have hlive : s.heap entry.2 = some t := (h.behind.batch entry hin).trans ht
    rw [restOf_call hlive] at he
    obtain rfl := Option.some.inj he
    refine .inl ⟨entry, rest, _, _, rfl, h.behind.of_same rfl rfl rfl, ?_, h.handling, rfl, ?_, ?_⟩
    · rw [h.batch, List.append_assoc]
      rfl
    · rw [← h.done]
    · refine h.runs.run ?_
      rw [idAt_some ht]

/-! ## Runs -/

theorem address_of_reachable {c : Config Unit TimerQueue Unit Int Nat Fault} (h : machine.Reachable c) :
    ∀ timer t, c.st.heap timer = some t → timer < UINTPTR_MAX := by
  have hvacant : ∀ {s : TimerQueue} {timer : Nat}, s.vacant timer = true → timer < UINTPTR_MAX := by
    intro s timer hv
    unfold vacant at hv
    simp only [Bool.and_eq_true, decide_eq_true_eq] at hv
    exact hv.1.2
  have hnew : ∀ {s : TimerQueue} {timer : Nat} {v : Option Timer},
      (∀ timer t, s.heap timer = some t → timer < UINTPTR_MAX) → timer < UINTPTR_MAX →
      ∀ timer' t, Function.update s.heap timer v timer' = some t → timer' < UINTPTR_MAX := by
    intro s timer v hs hlt timer' t ht
    by_cases heq : timer' = timer
    · rw [heq]
      exact hlt
    · rw [Function.update_of_ne heq] at ht
      exact hs timer' t ht
  refine (@invariant_of_move (fun _ _ => True)
    (fun s => ∀ timer t, s.heap timer = some t → timer < UINTPTR_MAX) nofun
    (fun s m s' _ hs _ hm => ?_) c h).2.2
  cases hm with
  | addTimer timer expiration now interval hv => exact hnew hs (hvacant hv)
  | addTimerElsewhere timer expiration interval hv => exact hnew hs (hvacant hv)
  | returnElsewhere timer t _ => exact hs
  | cancel id now _ => exact fun timer t ht => hs timer t (heap_of_cancelled ht).1
  | cancelElsewhere id _ => exact hs
  | functorAdd timer t rest now _ _ => exact hs
  | functorCancel id rest now _ => exact fun timer t ht => hs timer t (heap_of_cancelled ht).1
  | expire armed _ => exact hs
  | expired now _ _ _ => exact hs
  | run entry rest t _ _ => exact hs
  | again now entry rest t _ _ ht _ => exact hnew hs (hs entry.2 t ht)
  | dropped entry rest t _ _ ht _ => exact hnew hs (hs entry.2 t ht)
  | finished now _ _ => exact hs

theorem split_of_reachable {c : Config Unit TimerQueue Unit Int Nat Fault} (h : machine.Reachable c)
    (now : Int) :
    (c.st.timers.takeWhile fun entry => entry.before (sentry now)) = c.st.due now ∧
      (c.st.timers.dropWhile fun entry => entry.before (sentry now)) =
        c.st.timers.filter fun entry => !decide (entry.1 ≤ now) := by
  obtain ⟨ho, harm⟩ := armOk_of_reachable h
  refine Entry.split_sentry harm.sorted (fun entry hin => ?_) now
  obtain ⟨t, ht⟩ := ho.live_of_timers hin
  exact address_of_reachable h entry.2 t ht

/-- The state in which the first callback is about to be started. -/
def taken (s : TimerQueue) (now : Int) : TimerQueue :=
  { s with
    handling := true
    unread := false
    waiting := s.timers.takeWhile fun entry => entry.before (sentry now)
    timers := s.timers.dropWhile fun entry => entry.before (sentry now) }

theorem within_taken {c : Config Unit TimerQueue Unit Int Nat Fault} (h : machine.Reachable c)
    (hoff : c.st.handling = false) (now : Int) :
    Within c.st now ⟨[], [], []⟩ [] (c.st.due now) (c.st.taken now) := by
  obtain ⟨ho, -⟩ := armOk_of_reachable h
  obtain ⟨htake, hdrop⟩ := split_of_reachable h now
  refine ⟨⟨⟨Nat.le_refl _, nofun, nofun, nofun, nofun⟩, fun x => ?_, fun _ _ => rfl⟩, rfl, rfl, htake,
    (ho.idle hoff).2, [], (List.append_nil _).symm, rfl⟩
  have hid : ∀ timer, (c.st.taken now).idAt timer = c.st.idAt timer := fun _ => rfl
  unfold Held
  rw [mem_content, mem_content, hid]
  unfold taken
  dsimp only
  rw [hdrop, List.mem_filter]
  simp only [Bool.not_eq_true', decide_eq_false_iff_not, Int.not_le, List.not_mem_nil, or_false,
    not_false_eq_true, and_true]
  exact and_right_comm

/-- Where a pass can be. -/
def PassAt (s₀ : TimerQueue) (now : Int) (calls : Calls)
    (c : Config Unit TimerQueue Unit Int Nat Fault) : Prop :=
  (∃ ran rest u, Within s₀ now calls ran rest c.st ∧
    c.frames () = [(u, restOf now (s₀.due now) rest)]) ∨
  c.st.handling = false ∧ Passed s₀ now calls c.st

theorem Within.settle {c : Config Unit TimerQueue Unit Int Nat Fault} {ran rest : List Entry}
    (h : Within s₀ now calls ran rest s) (ho₀ : Owned s₀) (ho : Owned s) {answers : List Int}
    {stop : Stop TimerQueue Unit Int Nat Fault Unit}
    (he : (restOf now (s₀.due now) rest).exec machine.valid s answers = some stop) :
    PassAt s₀ now calls (Machine.settle c () [] stop) := by
  rcases h.advance ho₀ ho he with ⟨entry, rest', s', u, rfl, h'⟩ | ⟨s', rfl, h', hoff⟩
  · exact .inl ⟨_, rest', u, h', by simp [Machine.settle]⟩
  · exact .inr ⟨hoff, h'⟩

theorem InPass.passAt {c₀ c : Config Unit TimerQueue Unit Int Nat Fault} (h₀ : machine.Reachable c₀)
    (h : InPass c₀ now calls c) : machine.Reachable c ∧ PassAt c₀.st now calls c := by
  obtain ⟨ho₀, -⟩ := armOk_of_reachable h₀
  induction h with
  | @begins answers c hs =>
    refine ⟨.step (a := .start .handleRead (now :: answers)) h₀ (machine.meets_anyStep _ _) hs, ?_⟩
    have hidle : c₀.frames () = [] := machine.step_start_idle hs rfl
    obtain ⟨p, stop, hp, he, rfl⟩ := machine.step_start hs
    simp only [machine, entry] at hp
    split at hp
    · cases hp
    rename_i hoff
    obtain rfl := Option.some.inj hp
    have hoff : c₀.st.handling = false := eq_false_of_ne_true hoff
    have hexpired := ho₀.move (.expired now hoff (ho₀.idle hoff).1 (ho₀.idle hoff).2)
    have he : (restOf now (c₀.st.taken now).waiting (c₀.st.taken now).waiting).exec machine.valid
        (c₀.st.taken now) answers = some stop := he
    have htake : (c₀.st.taken now).waiting = c₀.st.due now := (split_of_reachable h₀ now).1
    rw [htake] at he
    have hat := (within_taken h₀ hoff now).settle (c := c₀) ho₀ hexpired he
    rw [← hidle] at hat
    exact hat
  | @goes calls c c' a _ hhandling hs ih =>
    obtain ⟨hreach, hat⟩ := ih
    refine ⟨.step hreach (machine.meets_anyStep _ a) hs, ?_⟩
    obtain ⟨ho, -⟩ := armOk_of_reachable hreach
    obtain ⟨ran, rest, u, hwithin, hframes⟩ | ⟨hoff, -⟩ := hat
    · cases a with
      | start label answers =>
        have hlabel : loopOnly label = false := by
          by_contra hidle
          have hempty : c.frames () = [] := machine.step_start_idle hs (eq_true_of_ne_false hidle)
          rw [hframes] at hempty
          cases hempty
        obtain ⟨p, stop, hp, he, rfl⟩ := machine.step_start hs
        have hread : label ≠ .handleRead := by
          rintro rfl
          cases hlabel
        have hends : Ends (fun s => s = c.st ∧ calls.after c.st (.start label answers) = calls) (fun _ _ => False) p
            (fun _ s' _ => Move c.st (some label) s') c.st c.st := by
          refine entry_ends hp hread ho ?_ fun _ hm => hm
          rintro timer rfl
          exact ⟨rfl, rfl⟩
        have hstop := exec_sound (fun _ _ _ _ _ => trivial) hends
          (Machine.meets_anyStep_prog p c.st answers) he
        cases stop with
        | done s' _ =>
          refine .inl ⟨ran, rest, u, hwithin.move ho₀ ho hstop hlabel, ?_⟩
          simpa [Machine.settle] using hframes
        | called s' u k => exact hstop.1.2.1.elim
        | faulted s' e =>
          obtain ⟨-, -, rfl, hcalls⟩ := hstop
          refine .inl ⟨ran, rest, u, ?_, ?_⟩
          · rw [hcalls]
            exact hwithin
          · simpa [Machine.settle] using hframes
      | resume t answers =>
        obtain ⟨u', k, below, stop, hstack, he, rfl⟩ := machine.step_resume hs
        rw [show c.frames t = c.frames () from rfl, hframes] at hstack
        obtain ⟨hhead, rfl⟩ := List.cons.inj hstack
        obtain ⟨rfl, rfl⟩ := Prod.mk.inj hhead
        exact hwithin.settle ho₀ ho he
    · rw [hhandling] at hoff
      cases hoff

/-! ## Results -/

/-- The pass from `s₀` to `s` has run exactly the timers that were due, each once and in their order,
and none that was added. In `timers_` it leaves those that it should leave alone and that were not
cancelled, and the repeating ones with their new expirations; the due one-shot timers are deleted. -/
structure RunsDue (s₀ : TimerQueue) (now : Int) (calls : Calls) (s : TimerQueue) : Prop where
  order : Entry.Sorted (s₀.due now)
  runs : HasRun s₀ (s₀.due now) s
  fresh : ∀ x ∈ calls.added,
    x.2.sequence ∉ (s₀.due now).map fun entry => (s₀.idAt entry.2).sequence
  timers : ∀ x, x ∈ s.content ↔
    s₀.Held now calls x ∧ x.2 ∉ calls.cancelled ∨ s₀.Again now (s₀.due now) x
  gone : ∀ entry ∈ s₀.due now, ∀ t, s₀.heap entry.2 = some t → t.repeats = false →
    s.heap entry.2 = none

theorem CallsOk.not_again {n : Nat} (h : CallsOk s₀ now calls n) (ho : Owned s₀) {x : Int × TimerId}
    (hx : s₀.Held now calls x) : ¬ s₀.Again now (s₀.due now) x := by
  rintro ⟨entry, hentry, t, ht, -, heq⟩
  have hid : x.2 = ⟨entry.2, t.sequence⟩ := congrArg Prod.snd heq
  obtain ⟨hin, hdue⟩ := mem_due.mp hentry
  rcases hx with ⟨hx, hlater⟩ | hadded
  · have hsame : (x.1, x.2.timer) = entry :=
      ho.entry_eq (mem_content.mp hx).1 hin (congrArg TimerId.timer hid)
    have hkey : x.1 = entry.1 := congrArg Prod.fst hsame
    omega
  · have hgt := (h.added x hadded).1
    have hle := (ho.names.created entry.2 t ht).2
    rw [hid] at hgt
    simp only at hgt
    omega

/-- **One pass runs exactly the due timers**, and leaves what it should if and only if every timer that
its cancels hit was cancelled by an id of its own. -/
theorem pass_runs_due {c₀ c : Config Unit TimerQueue Unit Int Nat Fault} (h₀ : machine.Reachable c₀)
    (h : InPass c₀ now calls c) (hover : c.st.handling = false) :
    RunsDue c₀.st now calls c.st ↔ ∀ id ∈ calls.hit, id ∈ calls.cancelled := by
  obtain ⟨ho, harm⟩ := armOk_of_reachable h₀
  have hresult : Passed c₀.st now calls c.st := by
    obtain ⟨ran, rest, u, hwithin, -⟩ | ⟨-, hresult⟩ := (h.passAt h₀).2
    · have hhandling := hwithin.handling
      rw [hover] at hhandling
      cases hhandling
    · exact hresult
  constructor
  · intro hruns id hid
    obtain ⟨x, hx, rfl⟩ := hresult.ok.hit id hid
    by_contra hspared
    have hleft := (hresult.content x).mp ((hruns.timers x).mpr (.inl ⟨hx, hspared⟩))
    rcases hleft with ⟨-, hmissed⟩ | hagain
    · exact hmissed hid
    · exact hresult.ok.not_again ho hx hagain
  · intro hown
    refine ⟨harm.sorted.sublist List.filter_sublist, hresult.runs, fun x hx hin => ?_, fun x => ?_,
      hresult.gone⟩
    · obtain ⟨entry, hentry, heq⟩ := List.mem_map.mp hin
      obtain ⟨t, ht⟩ := ho.live_of_timers (mem_due.mp hentry).1
      rw [idAt_some ht] at heq
      simp only at heq
      have hle := (ho.names.created entry.2 t ht).2
      have hgt := (hresult.ok.added x hx).1
      omega
    · rw [hresult.content x]
      refine or_congr_left (and_congr_right fun hx => not_congr ?_)
      exact ⟨hown x.2, hresult.ok.own x hx⟩

/-- Takes the steps of a pass, up to its end at most. -/
def passRun (calls : Calls) (c : Config Unit TimerQueue Unit Int Nat Fault) :
    List (Action Unit Int TimerLabel) → Option (Calls × Config Unit TimerQueue Unit Int Nat Fault)
  | [] => some (calls, c)
  | a :: as =>
    if c.st.handling then (machine.step c a).bind fun c' => passRun (calls.after c.st a) c' as
    else none

theorem InPass.run {c₀ c : Config Unit TimerQueue Unit Int Nat Fault} (h : InPass c₀ now calls c)
    {as : List (Action Unit Int TimerLabel)}
    {r : Calls × Config Unit TimerQueue Unit Int Nat Fault} (hr : passRun calls c as = some r) :
    InPass c₀ now r.1 r.2 := by
  induction as generalizing calls c with
  | nil =>
    obtain rfl := Option.some.inj hr
    exact h
  | cons a as ih =>
    unfold passRun at hr
    split at hr
    · rename_i hhandling
      obtain ⟨c', hs, hr⟩ := Option.bind_eq_some_iff.mp hr
      exact ih (.goes h hhandling hs) hr
    · cases hr

/-- The callback of the first of two due timers adds one that is due already, and cancels one that is
not. -/
theorem pass_runs_due_adding :
    ∃ c₀ c calls, machine.Reachable c₀ ∧ InPass c₀ 60 calls c ∧ c.st.handling = false ∧
      c.st.timers = [(40, 32), (70, 8)] ∧ RunsDue c₀.st 60 calls c.st := by
  have hrun : ((machine.system.run (fun _ _ => True) (.initial new)
        [.start (.addTimer 8 50 (some 10)) [0], .start (.addTimer 16 60 none) [],
          .start (.addTimer 24 90 none) [], .start .expire []]).bind fun c₀ =>
      (machine.step c₀ (.start .handleRead [60])).bind fun c₁ =>
        (passRun ⟨[], [], []⟩ c₁ [.start (.addTimer 32 40 none) [61], .start (.cancel ⟨24, 3⟩) [62],
          .resume () [], .resume () [63]]).map fun r =>
          (r.2.st.handling, r.2.st.timers, r.1.hit, r.1.cancelled)) =
      some (false, [(40, 32), (70, 8)], [⟨24, 3⟩], [⟨24, 3⟩]) := by decide +kernel
  obtain ⟨c₀, hc₀, hrun⟩ := Option.bind_eq_some_iff.mp hrun
  obtain ⟨c₁, hc₁, hrun⟩ := Option.bind_eq_some_iff.mp hrun
  obtain ⟨⟨calls, c⟩, hr, hfields⟩ := Option.map_eq_some_iff.mp hrun
  simp only [Prod.mk.injEq] at hfields
  obtain ⟨hover, htimers, hhit, hcancelled⟩ := hfields
  have hreach := machine.reachable_of_run rfl hc₀
  have hpass : InPass c₀ 60 calls c := (@InPass.begins c₀ 60 [] c₁ hc₁).run hr
  refine ⟨c₀, c, calls, hreach, hpass, hover, htimers, (pass_runs_due hreach hpass hover).mpr ?_⟩
  rw [hhit, hcancelled]
  exact fun _ hid => hid

/-- A callback cancels by the id of a timer that is over, and takes out the one that has its address
now. -/
theorem stale_cancel_in_pass :
    ¬ ∀ (c₀ c : Config Unit TimerQueue Unit Int Nat Fault) (now : Int) (calls : Calls),
      machine.Reachable c₀ → InPass c₀ now calls c → c.st.handling = false →
        RunsDue c₀.st now calls c.st := by
  intro hall
  have hrun : ((machine.system.run (fun _ _ => True) (.initial new)
        [.start (.addTimer 8 0 none) [0], .start .handleRead [10], .resume () [],
          .start (.addTimer 8 100 none) [20], .start (.addTimer 16 30 none) [20]]).bind fun c₀ =>
      (machine.step c₀ (.start .handleRead [40])).bind fun c₁ =>
        (passRun ⟨[], [], []⟩ c₁ [.start (.cancel ⟨8, 1⟩) [], .resume () []]).map fun r =>
          (r.2.st.handling, r.2.st.content, c₀.st.content, r.1.cancelled)) =
      some (false, [], [(30, ⟨16, 3⟩), (100, ⟨8, 2⟩)], [⟨8, 1⟩]) := by decide +kernel
  obtain ⟨c₀, hc₀, hrun⟩ := Option.bind_eq_some_iff.mp hrun
  obtain ⟨c₁, hc₁, hrun⟩ := Option.bind_eq_some_iff.mp hrun
  obtain ⟨⟨calls, c⟩, hr, hfields⟩ := Option.map_eq_some_iff.mp hrun
  simp only [Prod.mk.injEq] at hfields
  obtain ⟨hover, hcontent, hcontent₀, hcancelled⟩ := hfields
  have hpass : InPass c₀ 40 calls c := (@InPass.begins c₀ 40 [] c₁ hc₁).run hr
  have hruns := hall c₀ c 40 calls (machine.reachable_of_run rfl hc₀) hpass hover
  have hheld : c₀.st.Held 40 calls (100, ⟨8, 2⟩) := by
    refine .inl ⟨?_, by decide⟩
    rw [hcontent₀]
    exact List.mem_cons_of_mem _ List.mem_cons_self
  have hspared : (⟨8, 2⟩ : TimerId) ∉ calls.cancelled := by
    rw [hcancelled]
    decide
  have hleft := (hruns.timers (100, ⟨8, 2⟩)).mpr (.inl ⟨hheld, hspared⟩)
  rw [hcontent] at hleft
  cases hleft

end Agora.TimerQueue
