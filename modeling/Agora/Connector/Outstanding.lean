import Agora.Connector.Rules

/-!
# Attempts in flight and retry timers

A retry timer is never cancelled: a call that connects during the back-off opens a second chain of
attempts.
-/

open Agora.Lib Agora.Lib.Prog

namespace Agora.Connector

/-- The socket that the event ends the attempt of: its outcome is asked for, or it is closed. -/
def concludes : ConnectorEvent → Option Nat
  | .getSocketError sockfd | .close sockfd => some sockfd
  | _ => none

/-- The sockets whose attempt is in flight: `::connect` was called, and its outcome is open. -/
def live (c : Connector) : List Nat :=
  (List.range c.nextFd).filter fun sockfd => c.trace.all fun e => concludes e ≠ some sockfd

def attemptsInFlight (c : Connector) : Nat := c.live.length

/-- The delay of the retry behind `n` failures in a row. -/
def backoff : Nat → Nat
  | 0 => kInitRetryDelayMs
  | n + 1 => min (backoff n * 2) kMaxRetryDelayMs

/-! ## The steps that meet the condition -/

/-- `start` does not connect while a retry timer is pending, and `restart` is called while nothing is
outstanding. -/
def spacedLabel (c : Connector) : ConnectorLabel → Prop
  | .start => c.state = .kDisconnected → c.timers = []
  | .functor => c.functors.head? = some .startInLoop → c.state = .kDisconnected → c.connect_ = true →
      c.timers = []
  | .restart => c.timers = [] ∧ c.live = []
  | _ => True

instance (c : Connector) : ∀ label, Decidable (c.spacedLabel label)
  | .start => inferInstanceAs (Decidable (_ = _ → _ = _))
  | .functor => inferInstanceAs (Decidable (_ = _ → _ = _ → _ = _ → _ = _))
  | .restart => inferInstanceAs (Decidable (_ = _ ∧ _ = _))
  | .startElsewhere | .stop | .poll _ | .handleEvent | .timer _ | .doPendingFunctors => isTrue trivial

def spaced : Machine.Condition Connector ConnectorCall Nat ConnectorLabel :=
  ⟨spacedLabel, fun _ _ _ => True⟩

instance (c : Connector) (label : ConnectorLabel) : Decidable (spaced.label c label) :=
  inferInstanceAs (Decidable (c.spacedLabel label))

instance (c : Connector) (q : ConnectorCall) (a : Nat) : Decidable (spaced.answer c q a) :=
  isTrue trivial

/-- The step is a call of `start` or `restart`, or one that another thread has queued. -/
def isCall (c : Connector) : ConnectorLabel → Bool
  | .start | .restart => true
  | .functor => c.functors.head? = some .startInLoop
  | _ => false

/-! ## The invariant -/

/-- A pending timer has the delay that comes before the one of the next retry. -/
inductive Spacing (timers : List Nat) (retryDelayMs : Nat) : Prop
  | idle (n : Nat) : timers = [] → retryDelayMs = backoff n → Spacing timers retryDelayMs
  | retry (n : Nat) : timers = [backoff n] → retryDelayMs = backoff (n + 1) →
      Spacing timers retryDelayMs

structure Basis (c : Connector) : Prop where
  past : ∀ e ∈ c.trace, ∀ sockfd, concludes e = some sockfd → sockfd < c.nextFd
  channel : ∀ ch, c.channel = some ch → ch.fd < c.nextFd

/-- The one attempt that is in flight, with the channel if that is still there. -/
structure Attempting (c : Connector) (sockfd : Nat) : Prop where
  live : c.live = [sockfd]
  state : c.state = .kConnecting
  channel : ∀ ch, c.channel = some ch → ch.fd = sockfd

structure OneOk (c : Connector) : Prop where
  basis : Basis c
  attempt : c.live = [] ∨ ∃ sockfd, Attempting c sockfd
  connecting : c.state = .kConnecting → c.timers = []
  spacing : Spacing c.timers c.retryDelayMs

variable {c c' : Connector}

/-! ## Events and sockets -/

theorem live_append {l : List ConnectorEvent} (ht : c'.trace = c.trace ++ l)
    (hn : c'.nextFd = c.nextFd) :
    c'.live = c.live.filter fun sockfd => l.all fun e => concludes e ≠ some sockfd := by
  unfold live
  rw [ht, hn, List.filter_filter]
  refine List.filter_congr fun sockfd _ => ?_
  rw [List.all_append, Bool.and_comm]

theorem live_note {l : List ConnectorEvent} (ht : c'.trace = c.trace ++ l)
    (hn : c'.nextFd = c.nextFd) (hes : ∀ e ∈ l, concludes e = none) : c'.live = c.live := by
  rw [live_append ht hn, List.filter_eq_self]
  intro sockfd _
  rw [List.all_eq_true]
  intro e he
  rw [hes e he]
  rfl

theorem live_same (ht : c'.trace = c.trace) (hn : c'.nextFd = c.nextFd) : c'.live = c.live :=
  live_note (ht.trans (List.append_nil _).symm) hn nofun

theorem Basis.live_attempted (h : Basis c) : c.attempted.live = c.live ++ [c.nextFd] := by
  have hnew : (c.trace.all fun e => concludes e ≠ some c.nextFd) = true := by
    rw [List.all_eq_true]
    intro e he
    refine decide_eq_true fun heq => ?_
    exact Nat.lt_irrefl _ (h.past e he c.nextFd heq)
  have htrace : ∀ sockfd, (c.attempted.trace.all fun e => concludes e ≠ some sockfd) =
      c.trace.all fun e => concludes e ≠ some sockfd := by
    intro sockfd
    simp [attempted, concludes]
  unfold live
  simp only [htrace]
  have hrange : List.range c.attempted.nextFd = List.range c.nextFd ++ [c.nextFd] := List.range_succ
  rw [hrange, List.filter_append]
  simp only [List.filter_cons, hnew, if_true, List.filter_nil]

theorem Basis.of_append {l : List ConnectorEvent} (h : Basis c) (ht : c'.trace = c.trace ++ l)
    (hn : c'.nextFd = c.nextFd)
    (hes : ∀ e ∈ l, ∀ sockfd, concludes e = some sockfd → sockfd < c.nextFd)
    (hch : ∀ ch', c'.channel = some ch' → ∃ ch, c.channel = some ch ∧ ch'.fd = ch.fd) : Basis c' := by
  refine ⟨fun e he sockfd hend => ?_, fun ch' hch' => ?_⟩
  · rw [hn]
    rw [ht] at he
    rcases List.mem_append.mp he with hold | hnew
    · exact h.past e hold sockfd hend
    · exact hes e hnew sockfd hend
  · obtain ⟨ch, hold, hfd⟩ := hch ch' hch'
    rw [hn, hfd]
    exact h.channel ch hold

theorem OneOk.note {l : List ConnectorEvent} (h : OneOk c) (ht : c'.trace = c.trace ++ l)
    (hes : ∀ e ∈ l, concludes e = none) (hn : c'.nextFd = c.nextFd)
    (hch : ∀ ch', c'.channel = some ch' → ∃ ch, c.channel = some ch ∧ ch'.fd = ch.fd)
    (hs : c'.state = c.state) (htimers : c'.timers = c.timers)
    (hdelay : c'.retryDelayMs = c.retryDelayMs) : OneOk c' := by
  have hlive := live_note ht hn hes
  refine ⟨h.basis.of_append ht hn (fun e he fd hfd => nomatch (hes e he).symm.trans hfd) hch, ?_, ?_,
    ?_⟩
  · rcases h.attempt with hnone | ⟨sockfd, ha⟩
    · exact .inl (hlive.trans hnone)
    · refine .inr ⟨sockfd, hlive.trans ha.live, hs.trans ha.state, fun ch' hch' => ?_⟩
      obtain ⟨ch, hold, hfd⟩ := hch ch' hch'
      exact hfd.trans (ha.channel ch hold)
  · rw [hs, htimers]
    exact h.connecting
  · rw [htimers, hdelay]
    exact h.spacing

theorem OneOk.same (h : OneOk c) (ht : c'.trace = c.trace) (hn : c'.nextFd = c.nextFd)
    (hch : ∀ ch', c'.channel = some ch' → ∃ ch, c.channel = some ch ∧ ch'.fd = ch.fd)
    (hs : c'.state = c.state) (htimers : c'.timers = c.timers)
    (hdelay : c'.retryDelayMs = c.retryDelayMs) : OneOk c' :=
  h.note (ht.trans (List.append_nil _).symm) nofun hn hch hs htimers hdelay

theorem OneOk.none_in_flight (h : OneOk c) (hs : c.state ≠ .kConnecting) : c.live = [] := by
  rcases h.attempt with hnone | ⟨sockfd, ha⟩
  · exact hnone
  · exact absurd ha.state hs

/-! ## The end of an attempt -/

/-- Nothing is outstanding, and the channel is still there. -/
structure Rested (c : Connector) : Prop where
  basis : Basis c
  live : c.live = []
  timers : c.timers = []
  delay : ∃ n, c.retryDelayMs = backoff n

theorem Rested.oneOk (h : Rested c) : OneOk c := by
  obtain ⟨n, hdelay⟩ := h.delay
  exact ⟨h.basis, .inl h.live, fun _ => h.timers, .idle n h.timers hdelay⟩

theorem Rested.retried (h : Rested c) : OneOk c.retried := by
  obtain ⟨n, hdelay⟩ := h.delay
  unfold Connector.retried
  split
  · refine ⟨⟨h.basis.past, h.basis.channel⟩, .inl h.live, by nofun, .retry n ?_ ?_⟩
    · rw [h.timers, hdelay]
      rfl
    · rw [hdelay]
      rfl
  · exact h.oneOk

theorem OneOk.ended {ch : Channel} {l : List ConnectorEvent} (h : OneOk c)
    (hs : c.state = .kConnecting) (hch : c.channel = some ch) (ht : c'.trace = c.trace ++ l)
    (hn : c'.nextFd = c.nextFd) (hend : ∃ e ∈ l, concludes e = some ch.fd) (hbasis : Basis c')
    (htimers : c'.timers = c.timers) (hdelay : ∃ n, c'.retryDelayMs = backoff n) : Rested c' := by
  refine ⟨hbasis, ?_, htimers.trans (h.connecting hs), hdelay⟩
  rw [live_append ht hn]
  rcases h.attempt with hnone | ⟨sockfd, ha⟩
  · rw [hnone]
    rfl
  · obtain rfl := ha.channel ch hch
    obtain ⟨e, he, heq⟩ := hend
    have hout : (l.all fun e => concludes e ≠ some ch.fd) = false := by
      rw [List.all_eq_false]
      exact ⟨e, he, by simp [heq]⟩
    rw [ha.live, List.filter_cons, hout]
    rfl

theorem Spacing.delay {timers : List Nat} {retryDelayMs : Nat} (h : Spacing timers retryDelayMs) :
    ∃ n, retryDelayMs = backoff n := by
  cases h with
  | idle n _ hdelay => exact ⟨n, hdelay⟩
  | retry n _ hdelay => exact ⟨n + 1, hdelay⟩

theorem dropCtls_concludes {ch : Channel} :
    ∀ e ∈ (dropCtls ch).map ConnectorEvent.epollCtl, concludes e = none := by
  intro e he
  obtain ⟨ctl, -, rfl⟩ := List.mem_map.mp he
  rfl

/-- What `removeAndResetChannel` leaves in the history. -/
def removalEvents (c : Connector) (ch : Channel) : List ConnectorEvent :=
  .removeAndResetChannel (c.channel.map fun ch => (ch.fd, ch.index)) :: (dropCtls ch).map .epollCtl

theorem removed_events (c : Connector) (ch : Channel) :
    (c.removed ch).trace = c.trace ++ c.removalEvents ch := List.append_assoc _ _ _

theorem concludes_removalEvents {ch : Channel} :
    ∀ e ∈ c.removalEvents ch, concludes e = none := by
  intro e he
  rcases List.mem_cons.mp he with rfl | he
  · rfl
  · exact dropCtls_concludes e he

theorem Basis.endedBy {ch : Channel} {l : List ConnectorEvent} (h : Basis c)
    (hch : c.channel = some ch) (ht : c'.trace = (c.removed ch).trace ++ l)
    (hn : c'.nextFd = c.nextFd)
    (hes : ∀ e ∈ l, ∀ sockfd, concludes e = some sockfd → sockfd = ch.fd)
    (hch' : c'.channel = (c.removed ch).channel) : Basis c' := by
  rw [removed_events, List.append_assoc] at ht
  refine h.of_append ht hn (fun e he sockfd hfd => ?_) fun ch' hc => ⟨ch, hch, ?_⟩
  · rcases List.mem_append.mp he with he | he
    · exact nomatch (concludes_removalEvents e he).symm.trans hfd
    · rw [hes e he sockfd hfd]
      exact h.channel ch hch
  · obtain rfl : _ = ch' := Option.some.inj (hch'.symm.trans hc)
    rfl

theorem OneOk.endedBy {ch : Channel} {l : List ConnectorEvent} (h : OneOk c)
    (hs : c.state = .kConnecting) (hch : c.channel = some ch)
    (ht : c'.trace = (c.removed ch).trace ++ l) (hn : c'.nextFd = c.nextFd)
    (hes : ∀ e ∈ l, ∀ sockfd, concludes e = some sockfd → sockfd = ch.fd)
    (hend : ∃ e ∈ l, concludes e = some ch.fd) (hch' : c'.channel = (c.removed ch).channel)
    (htimers : c'.timers = c.timers) (hdelay : ∃ n, c'.retryDelayMs = backoff n) : Rested c' := by
  have hbasis := h.basis.endedBy hch ht hn hes hch'
  rw [removed_events, List.append_assoc] at ht
  obtain ⟨e, he, heq⟩ := hend
  exact h.ended hs hch ht hn ⟨e, List.mem_append_right _ he, heq⟩ hbasis htimers hdelay

theorem Basis.retried (h : Basis c) : Basis c.retried := by
  unfold Connector.retried
  split
  · exact ⟨h.past, h.channel⟩
  · exact h

theorem OneOk.stopped {ch : Channel} (h : OneOk c) (hs : c.state = .kConnecting)
    (hch : c.channel = some ch) : OneOk (c.stopped ch) := by
  refine Rested.oneOk (h.endedBy (l := [.close ch.fd]) hs hch rfl rfl ?_
    ⟨.close ch.fd, by simp, rfl⟩ rfl rfl h.spacing.delay)
  simp [concludes]

theorem OneOk.failed {ch : Channel} (h : OneOk c) (hs : c.state = .kConnecting)
    (hch : c.channel = some ch) : OneOk (c.failed ch) := by
  refine Rested.retried (h.endedBy (l := [.getSocketError ch.fd, .close ch.fd]) hs hch ?_ rfl ?_
    ⟨.close ch.fd, by simp, rfl⟩ rfl rfl h.spacing.delay)
  · exact List.append_assoc _ _ _
  · simp [concludes]

theorem OneOk.opened {ch : Channel} (h : OneOk c) (hs : c.state = .kConnecting)
    (hch : c.channel = some ch) : OneOk (c.opened ch) := by
  unfold Connector.opened
  split
  · refine Rested.oneOk (h.endedBy (l := [.getSocketError ch.fd, .newConnection ch.fd]) hs hch ?_
      rfl ?_ ⟨.getSocketError ch.fd, by simp, rfl⟩ rfl rfl ⟨0, rfl⟩)
    · exact List.append_assoc _ _ _
    · simp [concludes]
  · refine Rested.oneOk (h.endedBy (l := [.getSocketError ch.fd, .close ch.fd]) hs hch ?_ rfl ?_
      ⟨.close ch.fd, by simp, rfl⟩ rfl rfl ⟨0, rfl⟩)
    · exact List.append_assoc _ _ _
    · simp [concludes]

/-! ## The beginning of an attempt -/

theorem Basis.discarded (h : Basis c) : Basis c.discarded := by
  unfold Connector.discarded
  split
  · exact h
  · refine h.of_append rfl rfl (fun e he fd hfd => ?_) fun ch hch => ?_
    · exact nomatch (dropCtls_concludes e he).symm.trans hfd
    · cases hch

theorem discarded_live (c : Connector) : c.discarded.live = c.live := by
  unfold Connector.discarded
  split
  · rfl
  · exact live_note rfl rfl dropCtls_concludes

theorem Rested.discarded (h : Rested c) : Rested c.discarded := by
  refine ⟨h.basis.discarded, (discarded_live c).trans h.live, (discarded_timers c).trans h.timers, ?_⟩
  rw [discarded_retryDelayMs]
  exact h.delay

theorem Basis.attempted (h : Basis c) : Basis c.attempted := by
  refine ⟨fun e he sockfd hend => ?_, fun ch hch => Nat.lt_succ_of_lt (h.channel ch hch)⟩
  have he : (e ∈ c.trace ∨ e = .socket c.nextFd) ∨ e = .connect c.nextFd := by
    simpa [Connector.attempted, or_assoc] using he
  rcases he with (he | rfl) | rfl
  · exact Nat.lt_succ_of_lt (h.past e he sockfd hend)
  · cases hend
  · cases hend

theorem Basis.installed {d : Connector} (h : Basis c) (ht : d.trace = c.attempted.trace)
    (hn : d.nextFd = c.attempted.nextFd) : Basis (d.installed c.nextFd) := by
  refine ⟨fun e he sockfd hend => ?_, fun ch hch => ?_⟩
  · rcases List.mem_append.mp he with he | he
    · show sockfd < d.nextFd
      rw [hn]
      exact h.attempted.past e (ht ▸ he) sockfd hend
    · rw [List.mem_singleton.mp he] at hend
      cases hend
  · obtain rfl := Option.some.inj hch
    show c.nextFd < d.nextFd
    rw [hn]
    exact Nat.lt_succ_self c.nextFd

theorem Basis.live_installed {d : Connector} (h : Basis c) (ht : d.trace = c.attempted.trace)
    (hn : d.nextFd = c.attempted.nextFd) : (d.installed c.nextFd).live = c.live ++ [c.nextFd] := by
  have hadded : ∀ e ∈ [ConnectorEvent.epollCtl ⟨.add, c.nextFd, kWriteEvent⟩],
      concludes e = none := by simp [concludes]
  have hlive : (d.installed c.nextFd).live = d.live := live_note rfl rfl hadded
  rw [hlive, live_same ht hn, h.live_attempted]

theorem Basis.refused (h : Basis c) : Basis (c.attempted.closed c.nextFd) := by
  refine h.attempted.of_append (l := [.close c.nextFd]) rfl rfl ?_ fun ch hch => ⟨ch, hch, rfl⟩
  intro e he sockfd hend
  obtain rfl := List.mem_singleton.mp he
  obtain rfl := Option.some.inj hend
  exact Nat.lt_succ_self c.nextFd

theorem Rested.installed {d : Connector} (h : Rested c) (ht : d.trace = c.attempted.trace)
    (hn : d.nextFd = c.attempted.nextFd) (htimers : d.timers = c.timers)
    (hdelay : ∃ n, d.retryDelayMs = backoff n) : OneOk (d.installed c.nextFd) := by
  obtain ⟨n, hdelay⟩ := hdelay
  refine ⟨h.basis.installed ht hn, .inr ⟨c.nextFd, ?_, rfl, fun ch hch => ?_⟩,
    fun _ => htimers.trans h.timers, .idle n (htimers.trans h.timers) hdelay⟩
  · rw [h.basis.live_installed ht hn, h.live]
    rfl
  · obtain rfl := Option.some.inj hch
    rfl

theorem Rested.refused (h : Rested c) : Rested (c.attempted.closed c.nextFd) := by
  refine ⟨h.basis.refused, ?_, h.timers, h.delay⟩
  have hlive : (c.attempted.closed c.nextFd).live = c.attempted.live.filter fun sockfd =>
      [ConnectorEvent.close c.nextFd].all fun e => concludes e ≠ some sockfd := live_append rfl rfl
  rw [hlive, h.basis.live_attempted, h.live]
  simp [concludes]

theorem Rested.tried (h : Rested c) (savedErrno : Nat) : OneOk (c.tried savedErrno) := by
  have hd := h.discarded
  unfold Connector.tried
  rw [← discarded_nextFd c]
  split
  · exact hd.installed rfl rfl rfl ⟨0, rfl⟩
  split
  · exact hd.installed rfl rfl rfl hd.delay
  · exact hd.refused.retried

theorem OneOk.started {answer : Connector → ConnectorCall → Nat → Prop} (h : OneOk c)
    (hready : c.state = .kDisconnected → c.connect_ = true → c.timers = [])
    (hs : Started answer c c') : OneOk c' := by
  cases hs with
  | idle _ => exact h
  | tried savedErrno hstate hconnect _ =>
    have hlive := h.none_in_flight (by rw [hstate]; nofun)
    have hrested : Rested c := ⟨h.basis, hlive, hready hstate hconnect, h.spacing.delay⟩
    exact hrested.tried savedErrno

/-! ## The steps -/

theorem OneOk.skipped (h : OneOk c) (hs : c.Skipped c') : OneOk c' := by
  cases hs with
  | idle _ => exact h
  | null _ _ =>
    exact h.note rfl (by simp [concludes]) rfl (fun ch hch => ⟨ch, hch, rfl⟩) rfl rfl rfl

section
variable {answer : Connector → ConnectorCall → Nat → Prop}

theorem OneOk.errored (h : OneOk c) (hs : Errored answer c c') : OneOk c' := by
  cases hs with
  | skipped _ hs => exact h.skipped hs
  | failed ch _ hstate hch _ => exact h.failed hstate hch

theorem OneOk.written (h : OneOk c) (hs : Written answer c c') : OneOk c' := by
  cases hs with
  | skipped _ hs => exact h.skipped hs
  | opened ch hstate hch _ => exact h.opened hstate hch
  | failed ch err hstate hch _ _ => exact h.failed hstate hch

theorem OneOk.handled {sockfd : Nat} (h : OneOk c) (hs : Handled answer sockfd c c') : OneOk c' := by
  cases hs with
  | dangling _ => exact h
  | error _ _ _ _ he _ => exact h.errored he
  | write _ _ _ _ _ hw => exact h.written hw
  | both _ _ _ _ _ _ he _ _ hw => exact (h.errored he).written hw
  | neither _ _ _ _ => exact h

theorem OneOk.called {f : ConnectorFunctor} (h : OneOk c)
    (hready : f = .startInLoop → c.state = .kDisconnected → c.connect_ = true → c.timers = [])
    (hs : Called answer c f c') : OneOk c' := by
  cases hs with
  | startInLoop c' hc' => exact h.started (hready rfl) hc'
  | stopInLoop c' hc' =>
    cases hc' with
    | skipped _ hskip => exact h.skipped hskip
    | stopped ch hstate hch => exact h.stopped hstate hch
  | resetChannel sockfd =>
    refine h.note rfl (by simp [concludes]) rfl (fun ch' hch' => ?_) rfl rfl rfl
    cases hch'

theorem OneOk.reported (h : OneOk c) (events : List (Nat × EventMask)) :
    OneOk (c.reported events) := by
  induction events generalizing c with
  | nil => exact h
  | cons e events ih =>
    refine ih (h.same rfl rfl (fun ch' hch' => ?_) rfl rfl rfl)
    obtain ⟨ch, hch, rfl⟩ := Option.map_eq_some_iff.mp hch'
    exact ⟨ch, hch, rfl⟩

theorem OneOk.fired {place : Nat} (h : OneOk c) (hplace : place < c.timers.length) :
    c.timers.eraseIdx place = [] ∧ OneOk { c with timers := c.timers.eraseIdx place } := by
  have hone : ∃ d, c.timers = [d] := by
    cases h.spacing with
    | idle n htimers _ => simp [htimers] at hplace
    | retry n htimers _ => exact ⟨_, htimers⟩
  obtain ⟨d, hd⟩ := hone
  have hzero : place = 0 := by
    rw [hd, List.length_singleton] at hplace
    omega
  have hnone : c.timers.eraseIdx place = [] := by
    rw [hd, hzero]
    rfl
  obtain ⟨n, hdelay⟩ := h.spacing.delay
  refine ⟨hnone, ⟨⟨h.basis.past, h.basis.channel⟩, ?_, fun _ => hnone, .idle n hnone hdelay⟩⟩
  rcases h.attempt with hlive | ⟨sockfd, ha⟩
  · exact .inl hlive
  · exact .inr ⟨sockfd, ha.live, ha.state, ha.channel⟩

end

theorem OneOk.step {label : ConnectorLabel} (h : OneOk c) (hlabel : spaced.label c label)
    (hs : Step spaced.answer c label c') : OneOk c' := by
  have hsame : ∀ ch, c.channel = some ch → ∃ ch', c.channel = some ch' ∧ ch.fd = ch'.fd :=
    fun ch hch => ⟨ch, hch, rfl⟩
  cases hs with
  | start c' hc' =>
    have hcalled : OneOk c.calledStart := h.note rfl (by simp [concludes]) rfl hsame rfl rfl rfl
    exact hcalled.started (fun hstate _ => hlabel hstate) hc'
  | startElsewhere => exact h.note rfl (by simp [concludes]) rfl hsame rfl rfl rfl
  | restart c' hc' =>
    obtain ⟨htimers, hlive⟩ := hlabel
    have hdown : OneOk { c with
        state := .kDisconnected, retryDelayMs := kInitRetryDelayMs, connect_ := true } :=
      ⟨⟨h.basis.past, h.basis.channel⟩, .inl hlive, fun _ => htimers, .idle 0 htimers rfl⟩
    exact hdown.started (fun _ _ => htimers) hc'
  | stop => exact h.note rfl (by simp [concludes]) rfl hsame rfl rfl rfl
  | poll events rest _ _ _ => exact h.reported events
  | handleEvent sockfd rest c' _ hc' =>
    have hrest : OneOk { c with active := rest } := h.same rfl rfl hsame rfl rfl rfl
    exact hrest.handled hc'
  | timer place c' _ hplace hc' =>
    obtain ⟨hnone, hfired⟩ := h.fired hplace
    exact hfired.started (fun _ _ => hnone) hc'
  | doPendingFunctors _ _ => exact h.same rfl rfl hsame rfl rfl rfl
  | functor f rest c' hf hc' =>
    have hrest : OneOk { c with functors := rest } := h.same rfl rfl hsame rfl rfl rfl
    refine hrest.called (fun hstart => ?_) hc'
    subst hstart
    exact hlabel (by rw [hf]; rfl)

/-! ## Steps that connect -/

theorem skipped_nextFd (hs : c.Skipped c') : c'.nextFd = c.nextFd := by
  cases hs with
  | idle _ => rfl
  | null _ _ => rfl

theorem failed_nextFd (c : Connector) (ch : Channel) : (c.failed ch).nextFd = c.nextFd :=
  retried_nextFd _

section
variable {answer : Connector → ConnectorCall → Nat → Prop}

theorem errored_nextFd (hs : Errored answer c c') : c'.nextFd = c.nextFd := by
  cases hs with
  | skipped _ hs => exact skipped_nextFd hs
  | failed ch _ _ _ _ => exact failed_nextFd c ch

theorem written_nextFd (hs : Written answer c c') : c'.nextFd = c.nextFd := by
  cases hs with
  | skipped _ hs => exact skipped_nextFd hs
  | opened ch _ _ _ =>
    unfold opened
    split
    · rfl
    · rfl
  | failed ch err _ _ _ _ => exact failed_nextFd c ch

theorem handled_nextFd {sockfd : Nat} (hs : Handled answer sockfd c c') : c'.nextFd = c.nextFd := by
  cases hs with
  | dangling _ => rfl
  | error _ _ _ _ he _ => exact errored_nextFd he
  | write _ _ _ _ _ hw => exact written_nextFd hw
  | both _ _ _ _ _ _ he _ _ hw => exact (written_nextFd hw).trans (errored_nextFd he)
  | neither _ _ _ _ => rfl

theorem reported_nextFd (c : Connector) (events : List (Nat × EventMask)) :
    (c.reported events).nextFd = c.nextFd := by
  induction events generalizing c with
  | nil => rfl
  | cons e events ih => exact ih (c.reportedAt e)

/-- Only the calls of users and the timers connect. -/
theorem Step.connects {label : ConnectorLabel} (hs : Step answer c label c')
    (hnew : c.nextFd < c'.nextFd) :
    c.isCall label = true ∨ ∃ place, label = .timer place ∧ place < c.timers.length := by
  cases hs with
  | start | restart => exact .inl rfl
  | timer place c' _ hplace _ => exact .inr ⟨place, rfl, hplace⟩
  | startElsewhere | stop | doPendingFunctors => exact absurd hnew (Nat.lt_irrefl _)
  | poll events rest _ _ _ => exact absurd hnew (by rw [reported_nextFd]; exact Nat.lt_irrefl _)
  | handleEvent sockfd rest c' _ hc' =>
    have hsame := handled_nextFd hc'
    exact absurd hnew (Nat.not_lt.mpr (Nat.le_of_eq hsame))
  | functor f rest c' hf hc' =>
    cases hc' with
    | startInLoop _ _ => exact .inl (by simp [isCall, hf])
    | stopInLoop _ hstop =>
      cases hstop with
      | skipped _ hskip =>
        have hsame := skipped_nextFd hskip
        exact absurd hnew (Nat.not_lt.mpr (Nat.le_of_eq hsame))
      | stopped ch _ _ => exact absurd hnew (Nat.lt_irrefl _)
    | resetChannel sockfd => exact absurd hnew (Nat.lt_irrefl _)

end

/-! ## Results -/

theorem new_basis (b : Bool) : Basis (new b) := by
  refine ⟨fun e he => ?_, fun ch hch => ?_⟩
  · cases he
  · cases hch

theorem new_oneOk (b : Bool) : OneOk (new b) :=
  ⟨new_basis b, .inl rfl, fun _ => rfl, .idle 0 rfl rfl⟩

theorem oneOk_of_reach {c : Config Unit Connector ConnectorCall Nat Nat Fault}
    (h : machine.Reach spaced c) : OneOk c.st :=
  invariant_of_step new_oneOk (fun _ _ _ hc hlabel hs => OneOk.step hc hlabel hs) h

/-- **At most one attempt or retry is outstanding** in every run in which no user call connects while
another is. Then an attempt that no user calls for is the one of the only timer, which was set with
the back-off delay before the current one. -/
theorem one_outstanding {c : Config Unit Connector ConnectorCall Nat Nat Fault}
    (h : machine.Reach spaced c) :
    c.st.attemptsInFlight + c.st.timers.length ≤ 1 ∧
      ∀ label answers c', machine.step c (.start label answers) = some c' →
        c.st.nextFd < c'.st.nextFd → c.st.isCall label = false →
        ∃ n, label = .timer 0 ∧ c.st.attemptsInFlight = 0 ∧ c.st.timers = [backoff n] ∧
          c.st.retryDelayMs = backoff (n + 1) := by
  have hok := oneOk_of_reach h
  have hbound : c.st.attemptsInFlight + c.st.timers.length ≤ 1 := by
    unfold attemptsInFlight
    rcases hok.attempt with hnone | ⟨sockfd, ha⟩
    · rw [hnone]
      cases hok.spacing with
      | idle n htimers _ => simp [htimers]
      | retry n htimers _ => simp [htimers]
    · simp [ha.live, hok.connecting ha.state]
  refine ⟨hbound, fun label answers c' hs hnew hcall => ?_⟩
  rcases (step_of_start hs).connects hnew with husers | ⟨place, rfl, hplace⟩
  · exact nomatch husers.symm.trans hcall
  · cases hok.spacing with
    | idle n htimers _ => simp [htimers] at hplace
    | retry n htimers hdelay =>
      rw [htimers, List.length_singleton] at hplace hbound
      obtain rfl : place = 0 := by omega
      exact ⟨n, rfl, by omega, htimers, hdelay⟩

/-- Two refused attempts, and the third by the second timer. -/
theorem one_outstanding_retries :
    ∃ c, machine.system.run (machine.Meets spaced) (.initial (new true))
        [.start .start [111], .start (.timer 0) [111]] = some c ∧ c.st.timers = [1000] ∧
      c.st.attemptsInFlight + c.st.timers.length ≤ 1 := by
  have hrun : (machine.system.run (machine.Meets spaced) (.initial (new true))
        [.start .start [111], .start (.timer 0) [111]]).map (fun c => c.st.timers) =
      some [1000] := by decide +kernel
  obtain ⟨c, hc, htimers⟩ := Option.map_eq_some_iff.mp hrun
  exact ⟨c, hc, htimers, (one_outstanding (machine.reach_of_run ⟨true, rfl⟩ hc)).1⟩

/-- `start` is called again while the retry timer of a refused attempt is pending. -/
theorem two_outstanding :
    ¬ ∀ c : Config Unit Connector ConnectorCall Nat Nat Fault,
      machine.Reachable c → c.st.attemptsInFlight + c.st.timers.length ≤ 1 := by
  intro hall
  have hrun : (machine.system.run (fun _ _ => True) (.initial (new true))
        [.start .start [111], .start .start [EINPROGRESS]]).map
      (fun c => (c.st.attemptsInFlight, c.st.timers)) = some (1, [500]) := by decide +kernel
  obtain ⟨c, hc, hst⟩ := Option.map_eq_some_iff.mp hrun
  obtain ⟨hlive, htimers⟩ := Prod.mk.inj hst
  have hone := hall c (machine.reachable_of_run ⟨true, rfl⟩ hc)
  rw [hlive, htimers] at hone
  exact absurd hone (by decide)

end Agora.Connector
