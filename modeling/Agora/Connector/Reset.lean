import Agora.Connector.Rules

/-! # Which channel a deferred `resetChannel` destroys -/

open Agora.Lib Agora.Lib.Prog

namespace Agora.Connector

/-- The channel that a functor is to destroy. -/
def resetOf : ConnectorFunctor → Option Nat
  | .resetChannel sockfd => some sockfd
  | _ => none

/-- The channels whose `resetChannel` is queued, in their order. -/
def resets (c : Connector) : List Nat := (c.functors ++ c.pendingFunctors).filterMap resetOf

/-- Epoll still holds the address of a channel that is destroyed, while its socket connects. -/
def DanglesConnecting (c : Connector) : Prop :=
  c.state = .kConnecting ∧ c.channel = none ∧ ∃ sockfd, c.registered sockfd = true

/-- Every `resetChannel` so far has found its own channel, out of the poller, or none. -/
def ResetsOwn (c : Connector) : Prop :=
  ∀ sockfd found registered, .resetChannel sockfd (some (found, registered)) ∈ c.trace →
    found = sockfd ∧ registered = false

def installsClean (c : Connector) : ConnectorCall → Nat → Prop
  | .connect _, savedErrno => (savedErrno == 0 || isInProgress savedErrno) = true → c.resets = []
  | .getSocketError _, _ => True

instance (c : Connector) : ∀ (q : ConnectorCall) (a : Nat), Decidable (c.installsClean q a)
  | .connect _, _ => inferInstanceAs (Decidable (_ = true → _ = []))
  | .getSocketError _, _ => isTrue trivial

/-- No `connect` installs a channel while a `resetChannel` is queued. -/
def noResetQueued : Machine.Condition Connector ConnectorCall Nat ConnectorLabel where
  label _ _ := True
  answer := installsClean

instance (c : Connector) (label : ConnectorLabel) : Decidable (noResetQueued.label c label) :=
  isTrue trivial

instance (c : Connector) (q : ConnectorCall) (a : Nat) : Decidable (noResetQueued.answer c q a) :=
  inferInstanceAs (Decidable (c.installsClean q a))

/-! ## The invariant -/

structure ResetOk (c : Connector) : Prop where
  own : ∀ ch, c.channel = some ch → ∀ sockfd ∈ c.resets, ch.fd = sockfd ∧ ch.index ≠ .kAdded
  live : ∀ sockfd, c.registered sockfd = true →
    ∃ ch, c.channel = some ch ∧ ch.fd = sockfd ∧ ch.index = .kAdded
  resets : c.ResetsOwn

variable {c : Connector}

theorem resets_queued (c : Connector) (f : ConnectorFunctor) :
    (c.queued f).resets = c.resets ++ (resetOf f).toList := by
  unfold Connector.resets queued
  rcases h : resetOf f <;> simp [h]

theorem resets_queued_other (c : Connector) {f : ConnectorFunctor} (h : resetOf f = none) :
    (c.queued f).resets = c.resets := by
  rw [resets_queued, h, Option.toList_none, List.append_nil]

theorem resets_popped {c : Connector} {f : ConnectorFunctor} {rest : List ConnectorFunctor}
    (hf : c.functors = f :: rest) :
    c.resets = (resetOf f).toList ++ Connector.resets { c with functors := rest } := by
  unfold Connector.resets
  rw [hf, List.cons_append, List.filterMap_cons]
  cases resetOf f <;> rfl

theorem ResetOk.of_eq {c' : Connector} (h : ResetOk c) (hch : c'.channel = c.channel)
    (hr : ∀ sockfd ∈ c'.resets, sockfd ∈ c.resets)
    (hreg : ∀ sockfd, c'.registered sockfd = true → c.registered sockfd = true)
    (ht : c'.trace = c.trace) : ResetOk c' := by
  refine ⟨fun ch hc sockfd hs => h.own ch (hch ▸ hc) sockfd (hr sockfd hs), fun sockfd hs => ?_, ?_⟩
  · rw [hch]
    exact h.live sockfd (hreg sockfd hs)
  · unfold ResetsOwn
    rw [ht]
    exact h.resets

theorem resetsOwn_append {es : List ConnectorEvent} (h : c.ResetsOwn)
    (hes : ∀ e ∈ es, ∀ sockfd found, e ≠ .resetChannel sockfd (some found)) :
    ResetsOwn { c with trace := c.trace ++ es } := by
  intro sockfd found registered hmem
  rcases List.mem_append.mp hmem with hmem | hmem
  · exact h sockfd found registered hmem
  · exact absurd rfl (hes _ hmem sockfd (found, registered))

theorem ResetOk.emit {e : ConnectorEvent} (h : ResetOk c)
    (he : ∀ sockfd found, e ≠ .resetChannel sockfd (some found)) :
    ResetOk { c with trace := c.trace ++ [e] } := by
  refine ⟨h.own, h.live, resetsOwn_append h.resets fun e' he' => ?_⟩
  rwa [List.mem_singleton.mp he']

theorem ResetOk.closed (h : ResetOk c) (sockfd : Nat) : ResetOk (c.closed sockfd) := by
  refine ResetOk.of_eq (h.emit (e := .close sockfd) nofun) rfl (fun _ => id) (fun fd hfd => ?_) rfl
  by_cases heq : fd = sockfd
  · subst heq
    simp [Connector.closed] at hfd
  · simpa [Connector.closed, heq] using hfd

theorem ResetOk.dropped {ch : Channel} (h : ResetOk c) (hch : c.channel = some ch) :
    ResetOk (c.dropped ch) ∧ ∀ sockfd, (c.dropped ch).registered sockfd = false := by
  have hoff : ∀ sockfd, (c.dropped ch).registered sockfd = false := by
    intro sockfd
    by_cases heq : sockfd = ch.fd
    · subst heq
      simp [Connector.dropped]
    · rcases hreg : c.registered sockfd with _ | _
      · simpa [Connector.dropped, heq] using hreg
      · obtain ⟨ch', hch', hfd, -⟩ := h.live sockfd hreg
        obtain rfl : ch = ch' := Option.some.inj (hch.symm.trans hch')
        exact absurd hfd.symm heq
  refine ⟨⟨fun ch' hch' sockfd hs => ?_, fun sockfd hs => ?_, ?_⟩, hoff⟩
  · obtain rfl := Option.some.inj hch'
    exact ⟨(h.own ch hch sockfd hs).1, nofun⟩
  · rw [hoff] at hs
    cases hs
  · refine resetsOwn_append h.resets fun e he sockfd found => ?_
    obtain ⟨ctl, -, rfl⟩ := List.mem_map.mp he
    nofun

theorem ResetOk.removed {ch : Channel} (h : ResetOk c) (hch : c.channel = some ch) :
    ResetOk (c.removed ch) := by
  have hremoving : ResetOk c.removing := h.emit nofun
  obtain ⟨hd, -⟩ := hremoving.dropped hch
  refine ⟨fun ch' hch' sockfd hs => ?_, hd.live, hd.resets⟩
  obtain rfl := Option.some.inj hch'
  unfold Connector.removed at hs
  rw [resets_queued] at hs
  rcases List.mem_append.mp hs with hs | hs
  · exact ⟨(h.own ch hch sockfd hs).1, nofun⟩
  · exact ⟨(List.mem_singleton.mp hs).symm, nofun⟩

theorem ResetOk.discarded (h : ResetOk c) :
    ResetOk c.discarded ∧ ∀ sockfd, c.discarded.registered sockfd = false := by
  unfold Connector.discarded
  split
  · rename_i hch
    refine ⟨h, fun sockfd => ?_⟩
    rcases hreg : c.registered sockfd with _ | _
    · rfl
    · obtain ⟨ch, hch', -⟩ := h.live sockfd hreg
      exact nomatch hch.symm.trans hch'
  · rename_i ch hch
    obtain ⟨hd, hoff⟩ := h.dropped hch
    refine ⟨⟨fun _ hch => (nomatch hch), fun sockfd hs => ?_, hd.resets⟩, hoff⟩
    rw [hoff] at hs
    cases hs

theorem ResetOk.retried (h : ResetOk c) : ResetOk c.retried := by
  unfold Connector.retried
  split
  · exact h.of_eq rfl (fun _ => id) (fun _ => id) rfl
  · exact h

theorem ResetOk.installed (h : ResetOk c) (hnone : c.resets = [])
    (hoff : ∀ sockfd, c.registered sockfd = false) (sockfd : Nat) :
    ResetOk (c.installed sockfd) := by
  refine ⟨fun ch _ fd hfd => ?_, fun fd hfd => ⟨_, rfl, ?_, rfl⟩, ?_⟩
  · exact absurd hfd (hnone ▸ List.not_mem_nil)
  · by_contra hne
    have hne : fd ≠ sockfd := fun heq => hne heq.symm
    simp [Connector.installed, hne, hoff] at hfd
  · exact resetsOwn_append h.resets fun e he fd found => by rw [List.mem_singleton.mp he]; nofun

/-! ## The steps -/

theorem ResetOk.tried (h : ResetOk c) {savedErrno : Nat}
    (ha : noResetQueued.answer c.discarded.attempted (.connect c.nextFd) savedErrno) :
    ResetOk (c.tried savedErrno) := by
  obtain ⟨hd, hoff⟩ := h.discarded
  have hattempted : ResetOk c.discarded.attempted :=
    (hd.emit nofun (e := .socket _)).emit nofun (e := .connect _) |>.of_eq rfl (fun _ => id)
      (fun _ => id) rfl
  unfold Connector.tried
  split
  · rename_i hzero
    have hnone := ha (by rw [hzero]; rfl)
    exact ResetOk.installed (c := c.discarded.attempted.setDelay)
      (hattempted.of_eq rfl (fun _ => id) (fun _ => id) rfl) hnone hoff c.nextFd
  split
  · rename_i hprogress
    have hnone := ha (by rw [hprogress, Bool.or_true])
    exact hattempted.installed hnone hoff c.nextFd
  · exact (hattempted.closed c.nextFd).retried

theorem ResetOk.failed {ch : Channel} (h : ResetOk c) (hch : c.channel = some ch) :
    ResetOk (c.failed ch) :=
  (((h.removed hch).emit nofun (e := .getSocketError ch.fd)).closed ch.fd).retried

theorem ResetOk.opened {ch : Channel} (h : ResetOk c) (hch : c.channel = some ch) :
    ResetOk (c.opened ch) := by
  have hconnected : ResetOk (c.connected ch) :=
    ((h.removed hch).emit nofun (e := .getSocketError ch.fd)).of_eq rfl (fun _ => id)
      (fun _ => id) rfl
  unfold Connector.opened
  split
  · exact hconnected.emit nofun (e := .newConnection ch.fd)
  · exact hconnected.closed ch.fd

theorem ResetOk.stopped {ch : Channel} (h : ResetOk c) (hch : c.channel = some ch) :
    ResetOk (c.stopped ch) :=
  ((h.removed hch).closed ch.fd).of_eq rfl (fun _ => id) (fun _ => id) rfl

theorem ResetOk.skipped {c' : Connector} (h : ResetOk c) (hs : c.Skipped c') : ResetOk c' := by
  cases hs with
  | idle _ => exact h
  | null _ _ => exact h.emit nofun

theorem ResetOk.errored {c' : Connector} (h : ResetOk c)
    (hs : Errored noResetQueued.answer c c') : ResetOk c' := by
  cases hs with
  | skipped _ hs => exact h.skipped hs
  | failed ch _ _ hch _ => exact h.failed hch

theorem ResetOk.written {c' : Connector} (h : ResetOk c)
    (hs : Written noResetQueued.answer c c') : ResetOk c' := by
  cases hs with
  | skipped _ hs => exact h.skipped hs
  | opened ch _ hch _ => exact h.opened hch
  | failed ch _ _ hch _ _ => exact h.failed hch

theorem ResetOk.started {c' : Connector} (h : ResetOk c)
    (hs : Started noResetQueued.answer c c') : ResetOk c' := by
  cases hs with
  | idle _ => exact h
  | tried _ _ _ ha => exact h.tried ha

theorem ResetOk.reported (h : ResetOk c) (events : List (Nat × EventMask)) :
    ResetOk (c.reported events) := by
  induction events generalizing c with
  | nil => exact h
  | cons e events ih =>
    refine ih ⟨fun ch hch sockfd hs => ?_, fun sockfd hs => ?_, h.resets⟩
    · obtain ⟨ch', hch', rfl⟩ := Option.map_eq_some_iff.mp hch
      exact h.own ch' hch' sockfd hs
    · obtain ⟨ch, hch, hfd, hi⟩ := h.live sockfd hs
      exact ⟨{ ch with revents := e.2 }, by unfold reportedAt; rw [hch]; rfl, hfd, hi⟩

/-- A functor that runs: `own` and `live` say what `resetChannel` finds. -/
theorem ResetOk.called {f : ConnectorFunctor} {rest : List ConnectorFunctor} {c' : Connector}
    (h : ResetOk c) (hf : c.functors = f :: rest)
    (hs : Called noResetQueued.answer { c with functors := rest } f c') : ResetOk c' := by
  have hmem : ∀ sockfd, sockfd ∈ Connector.resets { c with functors := rest } → sockfd ∈ c.resets := by
    intro sockfd hs
    rw [resets_popped hf]
    exact List.mem_append_right _ hs
  have hrest : ResetOk { c with functors := rest } := h.of_eq rfl hmem (fun _ => id) rfl
  cases hs with
  | startInLoop c' hc' => exact hrest.started hc'
  | stopInLoop c' hc' =>
    cases hc' with
    | skipped _ hskip => exact hrest.skipped hskip
    | stopped ch _ hch => exact hrest.stopped hch
  | resetChannel sockfd =>
    have hqueued : sockfd ∈ c.resets := by
      rw [resets_popped hf]
      exact List.mem_cons_self
    have hoff : ∀ fd, c.registered fd = false := by
      intro fd
      rcases hreg : c.registered fd with _ | _
      · rfl
      · obtain ⟨ch, hch, -, hi⟩ := h.live fd hreg
        exact absurd hi (h.own ch hch sockfd hqueued).2
    refine ⟨fun _ hch => (nomatch hch), fun fd hfd => ?_, ?_⟩
    · exact nomatch (hoff fd).symm.trans hfd
    · intro fd found registered hin
      rcases List.mem_append.mp hin with hin | hin
      · exact h.resets fd found registered hin
      · obtain ⟨rfl, hfound⟩ := ConnectorEvent.resetChannel.inj (List.mem_singleton.mp hin)
        obtain ⟨ch, hch, heq⟩ := Option.map_eq_some_iff.mp hfound.symm
        obtain ⟨rfl, rfl⟩ := Prod.mk.inj heq
        exact ⟨(h.own ch hch fd hqueued).1, hoff ch.fd⟩

theorem ResetOk.step {label : ConnectorLabel} {c' : Connector} (h : ResetOk c)
    (hs : Step noResetQueued.answer c label c') : ResetOk c' := by
  have hsame : ∀ {d : Connector}, d.channel = c.channel → d.resets = c.resets →
      d.registered = c.registered → d.trace = c.trace → ResetOk d := fun hch hr hreg ht =>
    h.of_eq hch (fun _ => by rw [hr]; exact id) (fun _ => by rw [hreg]; exact id) ht
  cases hs with
  | start c' hc' =>
    have hcalled : ResetOk c.calledStart :=
      (h.emit (e := .start) nofun).of_eq rfl (fun _ => id) (fun _ => id) rfl
    exact hcalled.started hc'
  | startElsewhere =>
    have hcalled : ResetOk c.calledStart :=
      (h.emit (e := .start) nofun).of_eq rfl (fun _ => id) (fun _ => id) rfl
    refine hcalled.of_eq rfl (fun sockfd hin => ?_) (fun _ => id) rfl
    rwa [resets_queued_other _ rfl] at hin
  | restart c' hc' => exact ResetOk.started (hsame (by rfl) (by rfl) (by rfl) (by rfl)) hc'
  | stop =>
    have hcalled : ResetOk c.calledStop :=
      (h.emit (e := .stop) nofun).of_eq rfl (fun _ => id) (fun _ => id) rfl
    refine hcalled.of_eq rfl (fun sockfd hin => ?_) (fun _ => id) rfl
    rwa [resets_queued_other _ rfl] at hin
  | poll events rest _ _ _ => exact h.reported events
  | handleEvent sockfd rest c' _ hc' =>
    have hrest : ResetOk { c with active := rest } := hsame rfl rfl rfl rfl
    cases hc' with
    | dangling _ => exact hrest
    | error _ _ _ _ he _ => exact hrest.errored he
    | write _ _ _ _ _ hw => exact hrest.written hw
    | both _ _ _ _ _ _ he _ _ hw => exact (hrest.errored he).written hw
    | neither _ _ _ _ => exact hrest
  | timer place c' _ _ hc' => exact ResetOk.started (hsame (by rfl) (by rfl) (by rfl) (by rfl)) hc'
  | doPendingFunctors hnone _ => exact hsame rfl (by simp [Connector.resets, hnone]) rfl rfl
  | functor f rest c' hf hc' => exact h.called hf hc'

theorem new_resetOk (b : Bool) : ResetOk (new b) := by
  refine ⟨fun _ hch => (nomatch hch), fun _ hreg => (nomatch hreg), ?_⟩
  intro _ _ _ hmem
  cases hmem

/-! ## Results -/

/-- **As long as no channel is installed while a `resetChannel` is queued**, a `resetChannel` destroys
the channel it was queued for, and the poller has let go of it. -/
theorem reset_destroys_own_channel {c : Config Unit Connector ConnectorCall Nat Nat Fault}
    (h : machine.Reach noResetQueued c) : c.st.ResetsOwn ∧ ¬ c.st.DanglesConnecting := by
  have hok : ResetOk c.st :=
    invariant_of_step new_resetOk (fun _ _ _ hc _ hs => ResetOk.step hc hs) h
  refine ⟨hok.resets, ?_⟩
  rintro ⟨-, hnull, sockfd, hreg⟩
  obtain ⟨ch, hch, -⟩ := hok.live sockfd hreg
  exact nomatch hnull.symm.trans hch

/-- A refused attempt: its channel is reset before the retry timer fires. -/
theorem reset_destroys_own_channel_retry :
    ∃ c, machine.system.run (machine.Meets noResetQueued) (.initial (new true))
        [.start .start [EINPROGRESS], .start (.poll [(0, { kWriteEvent with epollerr := true })]) [],
          .start .handleEvent [111], .start .doPendingFunctors [], .start .functor [],
          .start (.timer 0) [EINPROGRESS]] = some c ∧
      .resetChannel 0 (some (0, false)) ∈ c.st.trace ∧ c.st.ResetsOwn ∧
        ¬ c.st.DanglesConnecting := by
  have hrun : (machine.system.run (machine.Meets noResetQueued) (.initial (new true))
        [.start .start [EINPROGRESS], .start (.poll [(0, { kWriteEvent with epollerr := true })]) [],
          .start .handleEvent [111], .start .doPendingFunctors [], .start .functor [],
          .start (.timer 0) [EINPROGRESS]]).map
      (fun c => decide (.resetChannel 0 (some (0, false)) ∈ c.st.trace)) = some true := by
    decide +kernel
  obtain ⟨c, hc, hreset⟩ := Option.map_eq_some_iff.mp hrun
  exact ⟨c, hc, of_decide_eq_true hreset,
    reset_destroys_own_channel (machine.reach_of_run ⟨true, rfl⟩ hc)⟩

/-- Another thread stops and starts again: `stopInLoop` queues the `resetChannel` behind the
`startInLoop` that installs the next channel. -/
theorem reset_destroys_live_channel :
    ∃ c : Config Unit Connector ConnectorCall Nat Nat Fault, machine.Reachable c ∧
      ¬ c.st.ResetsOwn ∧ c.st.DanglesConnecting := by
  have hrun : (machine.system.run (fun _ _ => True) (.initial (new true))
        [.start .start [EINPROGRESS], .start .stop [], .start .startElsewhere [],
          .start .doPendingFunctors [], .start .functor [], .start .functor [EINPROGRESS],
          .start .doPendingFunctors [], .start .functor []]).map
      (fun c => (decide (.resetChannel 0 (some (1, true)) ∈ c.st.trace), c.st.state,
        c.st.channel, c.st.registered 1)) = some (true, .kConnecting, none, true) := by
    decide +kernel
  obtain ⟨c, hc, hend⟩ := Option.map_eq_some_iff.mp hrun
  simp only [Prod.mk.injEq] at hend
  obtain ⟨hreset, hstate, hchannel, hregistered⟩ := hend
  refine ⟨c, machine.reachable_of_run ⟨true, rfl⟩ hc, fun hown => ?_, hstate, hchannel, 1, hregistered⟩
  have hfound := hown 0 1 true (of_decide_eq_true hreset)
  cases hfound.1

end Agora.Connector
