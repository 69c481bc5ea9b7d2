import Agora.Code.Poller

/-!
# What the poller knows and what the kernel knows

After each call the interest set of the kernel and `channels_` are functions of the channels.
-/

namespace Agora

/-- The mask that the function leaves in `events_`. -/
def ChannelOp.leaves (op : ChannelOp) (events : EventMask) : EventMask :=
  match op with
  | .enableReading => events.or kReadEvent
  | .disableReading => events.minus kReadEvent
  | .enableWriting => events.or kWriteEvent
  | .disableWriting => events.minus kWriteEvent
  | .disableAll => kNoneEvent
  | .removeChannel => events

/-- What the function does to its channel. -/
def ChannelOp.on (op : ChannelOp) (ch : Channel) : Channel :=
  if op = .removeChannel then ch.removeChannel.1 else (ch.setEvents (op.leaves ch.events)).1

theorem Channel.setEvents_index (ch : Channel) (events : EventMask) :
    (ch.setEvents events).1.index = .kAdded ↔ (events = kNoneEvent → ch.index ≠ .kAdded) := by
  unfold setEvents EPollPoller.updateChannel
  cases hi : ch.index with
  | kNew => simp
  | kDeleted => simp
  | kAdded =>
    simp only
    split
    · rename_i hnone
      simp [hnone]
    · rename_i hsome
      simp [hsome]

theorem Channel.setEvents_events (ch : Channel) (events : EventMask) :
    (ch.setEvents events).1.events = events := by
  unfold setEvents EPollPoller.updateChannel
  split
  · rfl
  · rfl
  · split <;> rfl

theorem Channel.setEvents_fd (ch : Channel) (events : EventMask) : (ch.setEvents events).1.fd = ch.fd := by
  unfold setEvents EPollPoller.updateChannel
  split
  · rfl
  · rfl
  · split <;> rfl

theorem ChannelOp.on_fd (op : ChannelOp) (ch : Channel) : (op.on ch).fd = ch.fd := by
  unfold ChannelOp.on
  split
  · rfl
  · exact ch.setEvents_fd _

namespace Poller

variable {κ : Type}

structure MatchesKernel (p : Poller κ) : Prop where
  interest : ∀ fd event, p.interest fd = some event ↔
    (p.channel event.ptr).fd = fd ∧ (p.channel event.ptr).index = .kAdded ∧
      (p.channel event.ptr).events = event.events
  channels : ∀ fd i, p.channels fd = some i ↔ (p.channel i).fd = fd ∧ (p.channel i).index ≠ .kNew
  accepted : p.failed = []

/-- A channel without interest is not in the kernel's set. -/
def SilentAt (p : Poller κ) (i : κ) : Prop :=
  (p.channel i).events = kNoneEvent → p.interest (p.channel i).fd = none

/-- A call that leaves no interest comes when the channel is in the kernel's set. -/
def disablesAdded (p : Poller κ) (label : κ × ChannelOp) : Prop :=
  label.2 ≠ .removeChannel → label.2.leaves (p.channel label.1).events = kNoneEvent →
    (p.channel label.1).index = .kAdded

instance (p : Poller κ) (label : κ × ChannelOp) : Decidable (p.disablesAdded label) :=
  inferInstanceAs (Decidable (_ ≠ _ → _ = _ → _ = _))

/-! ## The invariant -/

/-- The entry that the channel `ch` behind `i` should have in the interest set. -/
def interestOf (i : κ) (ch : Channel) : Option (EpollEvent κ) :=
  if ch.index = .kAdded then some ⟨ch.events, i⟩ else none

def mapped (i : κ) (ch : Channel) : Option κ := if ch.index = .kNew then none else some i

structure Booked (p : Poller κ) : Prop where
  own : Function.Injective fun i => (p.channel i).fd
  interest : ∀ i, p.interest (p.channel i).fd = interestOf i (p.channel i)
  channels : ∀ i, p.channels (p.channel i).fd = mapped i (p.channel i)
  others : ∀ fd, (∀ i, (p.channel i).fd ≠ fd) → p.interest fd = none ∧ p.channels fd = none
  accepted : p.failed = []

variable {p : Poller κ}

theorem Booked.matchesKernel (h : Booked p) : p.MatchesKernel := by
  refine ⟨fun fd event => ?_, fun fd i => ?_, h.accepted⟩
  · constructor
    · intro hin
      by_cases hfd : ∃ i, (p.channel i).fd = fd
      · obtain ⟨i, rfl⟩ := hfd
        rw [h.interest, interestOf] at hin
        split at hin
        · rename_i hadded
          obtain rfl := Option.some.inj hin
          exact ⟨rfl, hadded, rfl⟩
        · cases hin
      · exact nomatch (h.others fd fun i hi => hfd ⟨i, hi⟩).1.symm.trans hin
    · rintro ⟨rfl, hadded, hevents⟩
      rw [h.interest, interestOf, if_pos hadded, hevents]
  · constructor
    · intro hin
      by_cases hfd : ∃ j, (p.channel j).fd = fd
      · obtain ⟨j, rfl⟩ := hfd
        rw [h.channels, mapped] at hin
        split at hin
        · cases hin
        · rename_i hknown
          obtain rfl := Option.some.inj hin
          exact ⟨rfl, hknown⟩
      · exact nomatch (h.others fd fun j hj => hfd ⟨j, hj⟩).2.symm.trans hin
    · rintro ⟨rfl, hknown⟩
      rw [h.channels, mapped, if_neg hknown]

theorem Booked.silentAt (h : Booked p) (i : κ) :
    p.SilentAt i ↔ ((p.channel i).events = kNoneEvent → (p.channel i).index ≠ .kAdded) := by
  unfold SilentAt
  rw [h.interest, interestOf]
  simp

theorem new_booked {fd : κ → Nat} (hfd : Function.Injective fd) : Booked (new fd) :=
  ⟨hfd, fun _ => rfl, fun _ => rfl, fun _ _ => ⟨rfl, rfl⟩, rfl⟩

variable [DecidableEq κ]

/-- The channel behind `i` becomes `ch`, and both sides know it. -/
def put (p : Poller κ) (i : κ) (ch : Channel) : Poller κ :=
  { p with
    channel := Function.update p.channel i ch
    channels := Function.update p.channels ch.fd (mapped i ch)
    interest := Function.update p.interest ch.fd (interestOf i ch) }

theorem put_self (p : Poller κ) (i : κ) (ch : Channel) : (p.put i ch).channel i = ch :=
  Function.update_self ..

theorem put_other {i j : κ} (h : j ≠ i) (p : Poller κ) (ch : Channel) :
    (p.put i ch).channel j = p.channel j := Function.update_of_ne h ..

theorem Booked.put (h : Booked p) {i : κ} {ch : Channel} (hfd : ch.fd = (p.channel i).fd) :
    Booked (p.put i ch) := by
  have hfds : ∀ j, ((p.put i ch).channel j).fd = (p.channel j).fd := by
    intro j
    rcases eq_or_ne j i with rfl | hne
    · rw [put_self, hfd]
    · rw [put_other hne]
  have hother : ∀ j, j ≠ i → (p.channel j).fd ≠ ch.fd := fun j hne heq => hne (h.own (heq.trans hfd))
  refine ⟨?_, fun j => ?_, fun j => ?_, fun fd hnone => ?_, h.accepted⟩
  · intro j k hjk
    simp only [hfds] at hjk
    exact h.own hjk
  · rcases eq_or_ne j i with rfl | hne
    · rw [put_self]
      exact Function.update_self ..
    · rw [put_other hne, ← h.interest]
      exact Function.update_of_ne (hother j hne) ..
  · rcases eq_or_ne j i with rfl | hne
    · rw [put_self]
      exact Function.update_self ..
    · rw [put_other hne, ← h.channels]
      exact Function.update_of_ne (hother j hne) ..
  · have hne : fd ≠ ch.fd := fun heq => hnone i ((hfds i).trans (hfd.symm.trans heq.symm))
    obtain ⟨hinterest, hchannels⟩ := h.others fd fun j hj => hnone j ((hfds j).trans hj)
    exact ⟨(Function.update_of_ne hne ..).trans hinterest, (Function.update_of_ne hne ..).trans hchannels⟩

/-! ## The functions -/

theorem setEvents_put (h : Booked p) (i : κ) (events : EventMask) :
    p.setEvents i events = p.put i ((p.channel i).setEvents events).1 := by
  have hinterest := h.interest i
  have hchannels := h.channels i
  unfold Poller.setEvents updateChannel Poller.put Channel.setEvents EPollPoller.updateChannel
  unfold interestOf mapped at *
  cases hi : (p.channel i).index with
  | kNew =>
    simp [setIndex, setChannel, update, epollCtl, hi, hinterest]
  | kDeleted =>
    have hsame : Function.update p.channels (p.channel i).fd (some i) = p.channels := by
      rw [Function.update_eq_self_iff, hchannels, hi]
      rfl
    simp [setIndex, setChannel, update, epollCtl, hi, hinterest, hsame]
  | kAdded =>
    have hsame : Function.update p.channels (p.channel i).fd (some i) = p.channels := by
      rw [Function.update_eq_self_iff, hchannels, hi]
      rfl
    by_cases hnone : events = kNoneEvent
    · simp [setIndex, setChannel, update, epollCtl, Channel.isNoneEvent, hi, hinterest, hnone, hsame]
    · simp [setChannel, update, epollCtl, Channel.isNoneEvent, hi, hinterest, hnone, hsame]

theorem removeChannel_put (h : Booked p) (i : κ) :
    p.removeChannel i = p.put i (p.channel i).removeChannel.1 := by
  have hinterest := h.interest i
  unfold removeChannel Poller.put Channel.removeChannel EPollPoller.removeChannel interestOf mapped
  unfold interestOf at hinterest
  by_cases hadded : (p.channel i).index = .kAdded
  · simp [setIndex, setChannel, update, epollCtl, hinterest, hadded]
  · have hsame : Function.update p.interest (p.channel i).fd none = p.interest := by
      rw [Function.update_eq_self_iff, hinterest, if_neg hadded]
    simp [setIndex, setChannel, hadded, hsame]

/-- Each function does to its channel what it does to a channel on its own, and the poller and the
kernel follow. -/
theorem perform_put (h : Booked p) (i : κ) (op : ChannelOp) :
    p.perform i op = p.put i (op.on (p.channel i)) := by
  cases op with
  | removeChannel => exact removeChannel_put h i
  | _ => exact setEvents_put h i _

theorem Booked.perform (h : Booked p) (i : κ) (op : ChannelOp) : Booked (p.perform i op) := by
  rw [perform_put h]
  exact h.put (op.on_fd _)

theorem Booked.silentAt_perform (h : Booked p) (i : κ) (op : ChannelOp) :
    (p.perform i op).SilentAt i ↔ p.disablesAdded (i, op) := by
  rw [(h.perform i op).silentAt, perform_put h, put_self]
  unfold disablesAdded ChannelOp.on
  by_cases hop : op = .removeChannel
  · simp [hop, Channel.removeChannel, EPollPoller.removeChannel]
  · simp only [if_neg hop, Channel.setEvents_events, ne_eq, Channel.setEvents_index]
    simp only [hop, not_false_eq_true, true_implies, Classical.not_imp, not_not]
    exact forall_congr' fun hnone => and_iff_right hnone

/-! ## Results -/

theorem reach_booked {cond : Poller κ → κ × ChannelOp → Prop} (h : (system κ).Reach cond p) :
    Booked p := by
  refine Lib.System.Reach.invariant ?_ ?_ h
  · rintro p ⟨fd, hfd, rfl⟩
    exact new_booked hfd
  · intro p label p' hp _ hs
    obtain rfl := Option.some.inj hs
    exact hp.perform label.1 label.2

/-- **The books of the poller are those of the kernel**, and no `epoll_ctl` fails. -/
theorem books_match_kernel (h : (system κ).Reachable p) : p.MatchesKernel :=
  (reach_booked h).matchesKernel

/-- Two channels, one of them disabled, removed and enabled again. -/
theorem books_match_kernel_two :
    ∃ p, (system Nat).run (fun _ _ => True) (new id)
        [(3, .enableReading), (4, .enableReading), (4, .enableWriting), (3, .disableAll),
          (3, .removeChannel), (3, .disableAll), (3, .enableWriting)] = some p ∧
      p.interest 3 = some ⟨kWriteEvent, 3⟩ ∧ p.interest 4 = some ⟨kReadEvent.or kWriteEvent, 4⟩ ∧
      p.MatchesKernel := by
  have hrun : ((system Nat).run (fun _ _ => True) (new id)
        [(3, .enableReading), (4, .enableReading), (4, .enableWriting), (3, .disableAll),
          (3, .removeChannel), (3, .disableAll), (3, .enableWriting)]).map
      (fun p => (p.interest 3, p.interest 4)) =
      some (some ⟨kWriteEvent, 3⟩, some ⟨kReadEvent.or kWriteEvent, 4⟩) := by decide +kernel
  obtain ⟨p, hp, hend⟩ := Option.map_eq_some_iff.mp hrun
  obtain ⟨h3, h4⟩ := Prod.mk.inj hend
  have hinit : (system Nat).Reachable (new id) := .init ⟨id, Function.injective_id, rfl⟩
  exact ⟨p, hp, h3, h4, books_match_kernel (hinit.run hp)⟩

/-- **A channel without interest is not in the kernel's set**, as long as no call that leaves no interest
comes when the channel is not in it. A call that does puts the channel there. -/
theorem disabled_not_registered (h : (system κ).Reach disablesAdded p) :
    (∀ i, p.SilentAt i) ∧ ∀ i op, (p.perform i op).SilentAt i ↔ p.disablesAdded (i, op) := by
  have hboth : Booked p ∧ ∀ i, p.SilentAt i := by
    refine Lib.System.Reach.invariant (I := fun p => Booked p ∧ ∀ i, p.SilentAt i) ?_ ?_ h
    · rintro p ⟨fd, hfd, rfl⟩
      exact ⟨new_booked hfd, fun _ _ => rfl⟩
    · rintro p ⟨i, op⟩ p' ⟨hp, hsilent⟩ hdisables hs
      obtain rfl := Option.some.inj hs
      refine ⟨hp.perform i op, fun j => ?_⟩
      rcases eq_or_ne j i with rfl | hne
      · exact (hp.silentAt_perform j op).mpr hdisables
      · have hj := (hp.silentAt j).mp (hsilent j)
        rwa [(hp.perform i op).silentAt, perform_put hp, put_other hne]
  exact ⟨hboth.2, hboth.1.silentAt_perform⟩

/-- A channel is enabled, disabled and enabled for writing. -/
theorem disabled_not_registered_again :
    ∃ p, (system Nat).run disablesAdded (new id)
        [(3, .enableReading), (3, .disableAll), (3, .enableWriting), (3, .disableWriting)] = some p ∧
      (p.channel 3).events = kNoneEvent ∧ p.SilentAt 3 := by
  have hrun : ((system Nat).run disablesAdded (new id)
        [(3, .enableReading), (3, .disableAll), (3, .enableWriting), (3, .disableWriting)]).map
      (fun p => (p.channel 3).events) = some kNoneEvent := by decide +kernel
  obtain ⟨p, hp, hnone⟩ := Option.map_eq_some_iff.mp hrun
  have hinit : (system Nat).Reach disablesAdded (new id) := .init ⟨id, Function.injective_id, rfl⟩
  exact ⟨p, hp, hnone, (disabled_not_registered (hinit.run hp)).1 3⟩

/-- `disableAll` on a channel that has been disabled and removed: the kernel gets it back, with no
interest. -/
theorem disabled_registered_again :
    ∃ p : Poller Nat, (system Nat).Reachable p ∧ (p.channel 3).events = kNoneEvent ∧
      p.interest 3 = some ⟨kNoneEvent, 3⟩ ∧ ¬ p.SilentAt 3 := by
  have hrun : ((system Nat).run (fun _ _ => True) (new id)
        [(3, .enableWriting), (3, .disableAll), (3, .removeChannel), (3, .disableAll)]).map
      (fun p => (p.channel 3, p.interest 3)) =
      some (⟨3, kNoneEvent, .none, .kAdded⟩, some ⟨kNoneEvent, 3⟩) := by decide +kernel
  obtain ⟨p, hp, hend⟩ := Option.map_eq_some_iff.mp hrun
  obtain ⟨hch, hin⟩ := Prod.mk.inj hend
  have hinit : (system Nat).Reachable (new id) := .init ⟨id, Function.injective_id, rfl⟩
  refine ⟨p, hinit.run hp, by rw [hch], hin, fun hsilent => ?_⟩
  have hnone := hsilent (by rw [hch])
  rw [hch] at hnone
  exact nomatch hnone.symm.trans hin

end Poller

end Agora
