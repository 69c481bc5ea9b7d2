import Agora.Connector.Reset
import Agora.Lib.Ledger

/-! # What becomes of the sockets of a connector -/

open Agora.Lib Agora.Lib.Prog

namespace Agora.Connector

/-- A socket is made in `connect`, and ends when it is handed over or closed. -/
def sockets : Usage Nat ConnectorEvent where
  makes
    | .socket sockfd => some sockfd
    | _ => none
  uses
    | .getSocketError sockfd | .newConnection sockfd | .close sockfd => some sockfd
    | .epollCtl ctl => some ctl.fd
    | _ => none
  ends
    | .newConnection sockfd | .close sockfd => some sockfd
    | _ => none
  uses_of_ends e r h := by cases e <;> simp_all

/-- The attempt goes on: epoll will report the socket to its channel. -/
def InFlight (c : Connector) (sockfd : Nat) : Prop :=
  c.state = .kConnecting ∧ c.registered sockfd = true ∧ ∃ ch, c.Reaches sockfd ch

def handovers (c : Connector) (sockfd : Nat) : Nat := c.trace.count (.newConnection sockfd)

def closings (c : Connector) (sockfd : Nat) : Nat := c.trace.count (.close sockfd)

structure SocketsOwned (c : Connector) : Prop where
  once : ∀ sockfd, .socket sockfd ∈ c.trace →
    c.InFlight sockfd ∧ c.handovers sockfd + c.closings sockfd = 0 ∨
      ¬ c.InFlight sockfd ∧ c.handovers sockfd + c.closings sockfd = 1
  untouched : ∀ u e sockfd, u ++ [e] <+: c.trace → sockets.uses e = some sockfd →
    .newConnection sockfd ∉ u ∧ .close sockfd ∉ u

/-! ## The steps that meet the condition -/

/-- Where `connect` is entered. -/
def entersConnect (c : Connector) : ConnectorLabel → Bool
  | .start => c.state = .kDisconnected
  | .restart => true
  | .timer _ => c.state = .kDisconnected && c.connect_
  | .functor => c.functors.head? = some .startInLoop && c.state = .kDisconnected && c.connect_
  | _ => false

/-- The channel to be handled next reports an error, and the connector is still connecting. -/
def failsNext (c : Connector) : Bool :=
  c.state = .kConnecting &&
    (c.channel.any fun ch => ch.revents.epollerr && c.active.head? == some ch.fd)

def answersWanted (c : Connector) : ConnectorCall → Nat → Prop
  | .connect _, _ => True
  | .getSocketError _, err => err ≠ 0 → c.connect_ = true

/-- `connect` finds no channel, and no attempt fails while nobody wants it any more. -/
def wanted : Machine.Condition Connector ConnectorCall Nat ConnectorLabel where
  label c label := (c.entersConnect label = true → c.channel = none) ∧
    (label = .handleEvent → c.failsNext = true → c.connect_ = true)
  answer := answersWanted

instance (c : Connector) (label : ConnectorLabel) : Decidable (wanted.label c label) :=
  inferInstanceAs (Decidable ((_ = true → _ = none) ∧ (_ = _ → _ = true → _ = true)))

instance (c : Connector) : ∀ (q : ConnectorCall) (a : Nat), Decidable (wanted.answer c q a)
  | .connect _, _ => isTrue trivial
  | .getSocketError _, _ => inferInstanceAs (Decidable (_ ≠ _ → _ = true))

theorem failsNext_of {c : Connector} {sockfd : Nat} {rest : List Nat} {ch : Channel}
    (hactive : c.active = sockfd :: rest) (hr : Reaches { c with active := rest } sockfd ch)
    (herr : ch.revents.epollerr = true) (hstate : c.state = .kConnecting) : c.failsNext = true := by
  obtain ⟨hch, rfl⟩ := hr
  have hch : c.channel = some ch := hch
  unfold failsNext
  simp [hstate, hch, herr, hactive]

/-! ## The invariant -/

structure Attempt (c : Connector) (ch : Channel) : Prop where
  channel : c.channel = some ch
  added : ch.index = .kAdded
  registered : c.registered ch.fd = true
  resets : c.resets = []
  ledger : sockets.Ledger c.trace {ch.fd}
  made : ∀ sockfd, sockets.Made c.trace sockfd → sockfd < c.nextFd

/-- A function of the connector holds the socket. -/
structure Holding (c : Connector) (sockfd : Nat) : Prop where
  channel : c.channel ≠ none
  resets : c.resets.length = 1
  ledger : sockets.Ledger c.trace {sockfd}
  made : ∀ fd, sockets.Made c.trace fd → fd < c.nextFd

structure Settled (c : Connector) : Prop where
  resets : c.resets.length ≤ 1
  clean : c.channel = none → c.resets = []
  ledger : sockets.Ledger c.trace ∅
  made : ∀ sockfd, sockets.Made c.trace sockfd → sockfd < c.nextFd

inductive OwnOk (c : Connector) : Prop
  | attempt (ch : Channel) : c.state = .kConnecting → Attempt c ch → OwnOk c
  | settled : c.state ≠ .kConnecting → Settled c → OwnOk c

variable {c : Connector}

theorem OwnOk.attempt_of (h : OwnOk c) (hs : c.state = .kConnecting) : ∃ ch, Attempt c ch := by
  cases h with
  | attempt ch _ ha => exact ⟨ch, ha⟩
  | settled hn _ => exact absurd hs hn

theorem OwnOk.attempt_on {ch : Channel} (h : OwnOk c) (hs : c.state = .kConnecting)
    (hch : c.channel = some ch) : Attempt c ch := by
  obtain ⟨ch', ha⟩ := h.attempt_of hs
  obtain rfl : ch = ch' := Option.some.inj (hch.symm.trans ha.channel)
  exact ha

theorem OwnOk.settled_of (h : OwnOk c) (hs : c.state ≠ .kConnecting) : Settled c := by
  cases h with
  | attempt ch hc _ => exact absurd hc hs
  | settled _ h => exact h

theorem made_snoc {n : Nat} {t : List ConnectorEvent} {e : ConnectorEvent}
    (h : ∀ fd, sockets.Made t fd → fd < n) (he : sockets.makes e = none) :
    ∀ fd, sockets.Made (t ++ [e]) fd → fd < n := by
  intro fd hfd
  rcases Usage.made_snoc.mp hfd with hfd | hfd
  · exact h fd hfd
  · exact nomatch he.symm.trans hfd

/-! ## The changes -/

theorem Attempt.removed {ch : Channel} (h : Attempt c ch) : Holding (c.removed ch) ch.fd := by
  have htrace : (c.removed ch).trace =
      c.trace ++ [.removeAndResetChannel (some (ch.fd, ch.index))] ++
        [.epollCtl ⟨.del, ch.fd, kNoneEvent⟩] := by
    unfold Connector.removed Connector.removing Connector.dropped dropCtls
    rw [if_pos h.added, h.channel]
    rfl
  refine ⟨nofun, ?_, ?_, ?_⟩
  · have hresets : (c.removed ch).resets = c.resets ++ [ch.fd] := resets_queued _ _
    rw [hresets, h.resets]
    rfl
  · rw [htrace]
    exact (h.ledger.note rfl rfl).use rfl rfl rfl
  · rw [htrace]
    exact made_snoc (made_snoc h.made rfl) rfl

theorem Holding.asked {sockfd : Nat} (h : Holding c sockfd) : Holding (c.asked sockfd) sockfd :=
  ⟨h.channel, h.resets, h.ledger.use rfl rfl rfl, made_snoc h.made rfl⟩

theorem Holding.closed {sockfd : Nat} (h : Holding c sockfd) : Settled (c.closed sockfd) :=
  ⟨h.resets.le, fun hch => absurd hch h.channel, h.ledger.finish rfl rfl, made_snoc h.made rfl⟩

theorem Holding.handed {sockfd : Nat} (h : Holding c sockfd) : Settled (c.handed sockfd) :=
  ⟨h.resets.le, fun hch => absurd hch h.channel, h.ledger.finish rfl rfl, made_snoc h.made rfl⟩

theorem Settled.of_eq {c' : Connector} (h : Settled c) (hr : c'.resets = c.resets)
    (hch : c'.channel = none → c.channel = none) (ht : c'.trace = c.trace)
    (hn : c'.nextFd = c.nextFd) : Settled c' := by
  refine ⟨?_, fun hc => ?_, ?_, ?_⟩
  · rw [hr]
    exact h.resets
  · rw [hr]
    exact h.clean (hch hc)
  · rw [ht]
    exact h.ledger
  · rw [ht, hn]
    exact h.made

theorem Attempt.of_eq {c' : Connector} {ch : Channel} (h : Attempt c ch) (hr : c'.resets = c.resets)
    (hch : c'.channel = c.channel) (hreg : c'.registered = c.registered) (ht : c'.trace = c.trace)
    (hn : c'.nextFd = c.nextFd) : Attempt c' ch := by
  refine ⟨hch.trans h.channel, h.added, ?_, hr.trans h.resets, ?_, ?_⟩
  · rw [hreg]
    exact h.registered
  · rw [ht]
    exact h.ledger
  · rw [ht, hn]
    exact h.made

theorem OwnOk.of_eq {c' : Connector} (h : OwnOk c) (hs : c'.state = c.state)
    (hr : c'.resets = c.resets) (hch : c'.channel = c.channel) (hreg : c'.registered = c.registered)
    (ht : c'.trace = c.trace) (hn : c'.nextFd = c.nextFd) : OwnOk c' := by
  cases h with
  | attempt ch hc ha => exact .attempt ch (hs.trans hc) (ha.of_eq hr hch hreg ht hn)
  | settled hc h =>
    refine .settled (hs ▸ hc) (h.of_eq hr (fun hnull => ?_) ht hn)
    rw [← hch]
    exact hnull

theorem OwnOk.noted {e : ConnectorEvent} (h : OwnOk c) (hm : sockets.makes e = none)
    (hu : sockets.uses e = none) : OwnOk { c with trace := c.trace ++ [e] } := by
  cases h with
  | attempt ch hs ha =>
    exact .attempt ch hs ⟨ha.channel, ha.added, ha.registered, ha.resets, ha.ledger.note hm hu,
      made_snoc ha.made hm⟩
  | settled hs h => exact .settled hs ⟨h.resets, h.clean, h.ledger.note hm hu, made_snoc h.made hm⟩

theorem Settled.attempted (h : Settled c) :
    sockets.Ledger c.attempted.trace {c.nextFd} ∧
      ∀ fd, sockets.Made c.attempted.trace fd → fd < c.nextFd + 1 := by
  have hnew : ¬ sockets.Made c.trace c.nextFd := fun hm => absurd (h.made c.nextFd hm) (by omega)
  refine ⟨(h.ledger.make rfl rfl hnew).note rfl rfl, ?_⟩
  refine made_snoc (fun fd hfd => ?_) rfl
  rcases Usage.made_snoc.mp hfd with hfd | hfd
  · have := h.made fd hfd
    omega
  · obtain rfl : c.nextFd = fd := Option.some.inj hfd
    omega

theorem Settled.installed (h : Settled c) (hch : c.channel = none) {d : Connector}
    (ht : d.trace = c.attempted.trace) (hr : d.resets = c.resets) (hn : d.nextFd = c.nextFd + 1) :
    OwnOk (d.installed c.nextFd) := by
  obtain ⟨hledger, hmade⟩ := h.attempted
  refine .attempt _ rfl ⟨rfl, rfl, by simp [Connector.installed], ?_, ?_, ?_⟩
  · exact hr.trans (h.clean hch)
  · show sockets.Ledger (d.trace ++ _) _
    rw [ht]
    exact hledger.use rfl rfl rfl
  · show ∀ fd, sockets.Made (d.trace ++ _) fd → fd < d.nextFd
    rw [ht, hn]
    exact made_snoc hmade rfl

theorem Settled.retried (h : Settled c) : Settled c.retried := by
  unfold Connector.retried
  split
  · exact h.of_eq rfl id rfl rfl
  · exact h

/-! ## The steps -/

theorem OwnOk.started {answer : Connector → ConnectorCall → Nat → Prop} {c' : Connector}
    (h : OwnOk c) (hready : c.state = .kDisconnected → c.connect_ = true → c.channel = none)
    (hs : Started answer c c') : OwnOk c' := by
  cases hs with
  | idle _ => exact h
  | tried savedErrno hstate hconnect _ =>
    have hset : Settled c := h.settled_of (by rw [hstate]; nofun)
    have hch := hready hstate hconnect
    have hdiscarded : c.discarded = c := by
      unfold Connector.discarded
      rw [hch]
    unfold Connector.tried
    rw [hdiscarded]
    split
    · exact hset.installed hch rfl rfl rfl
    split
    · exact hset.installed hch rfl rfl rfl
    · obtain ⟨hledger, hmade⟩ := hset.attempted
      have hclosed : Settled (c.attempted.closed c.nextFd) :=
        ⟨hset.resets, hset.clean, hledger.finish rfl rfl, made_snoc hmade rfl⟩
      refine .settled ?_ hclosed.retried
      rw [retried_wanted (c := c.attempted.closed c.nextFd) hconnect]
      nofun

theorem Attempt.failed {ch : Channel} (h : Attempt c ch) (hconnect : c.connect_ = true) :
    OwnOk (c.failed ch) := by
  refine .settled ?_ h.removed.asked.closed.retried
  rw [Connector.failed, retried_wanted (c := ((c.removed ch).asked ch.fd).closed ch.fd) hconnect]
  nofun

theorem Attempt.opened {ch : Channel} (h : Attempt c ch) : OwnOk (c.opened ch) := by
  unfold Connector.opened
  split
  · exact .settled nofun (h.removed.asked.handed.of_eq rfl id rfl rfl)
  · exact .settled nofun (h.removed.asked.closed.of_eq rfl id rfl rfl)

theorem Attempt.stopped {ch : Channel} (h : Attempt c ch) : OwnOk (c.stopped ch) :=
  .settled nofun (h.removed.closed.of_eq rfl id rfl rfl)

theorem OwnOk.skipped {c' : Connector} (h : OwnOk c) (hs : c.Skipped c') : OwnOk c' := by
  cases hs with
  | idle _ => exact h
  | null _ _ => exact h.noted rfl rfl

theorem OwnOk.errored {c' : Connector} (h : OwnOk c)
    (hwanted : c.state = .kConnecting → c.connect_ = true) (hs : Errored wanted.answer c c') :
    OwnOk c' := by
  cases hs with
  | skipped _ hs => exact h.skipped hs
  | failed ch _ hstate hch _ =>
    exact (h.attempt_on hstate hch).failed (hwanted hstate)

theorem OwnOk.written {c' : Connector} (h : OwnOk c) (hs : Written wanted.answer c c') :
    OwnOk c' := by
  cases hs with
  | skipped _ hs => exact h.skipped hs
  | opened ch hstate hch _ =>
    exact (h.attempt_on hstate hch).opened
  | failed ch err hstate hch herr ha' =>
    exact (h.attempt_on hstate hch).failed (ha' herr)

theorem OwnOk.called {f : ConnectorFunctor} {rest : List ConnectorFunctor} {c' : Connector}
    (h : OwnOk c) (hf : c.functors = f :: rest)
    (hready : f = .startInLoop → c.state = .kDisconnected → c.connect_ = true → c.channel = none)
    (hs : Called wanted.answer { c with functors := rest } f c') : OwnOk c' := by
  have hresets := resets_popped hf
  cases hs with
  | startInLoop c' hc' =>
    have hrest : OwnOk { c with functors := rest } := h.of_eq rfl hresets.symm rfl rfl rfl rfl
    exact hrest.started (hready rfl) hc'
  | stopInLoop c' hc' =>
    have hrest : OwnOk { c with functors := rest } := h.of_eq rfl hresets.symm rfl rfl rfl rfl
    cases hc' with
    | skipped _ hskip => exact hrest.skipped hskip
    | stopped ch hstate hch =>
      exact (hrest.attempt_on hstate hch).stopped
  | resetChannel sockfd =>
    have hqueued : c.resets ≠ [] := by
      rw [hresets]
      nofun
    have hstate : c.state ≠ .kConnecting := fun hs => by
      obtain ⟨ch, ha⟩ := h.attempt_of hs
      exact hqueued ha.resets
    have hset := h.settled_of hstate
    have hlast : Connector.resets { c with functors := rest } = [] := by
      have hone := hset.resets
      rw [hresets, List.length_append] at hone
      have hzero : (Connector.resets { c with functors := rest }).length = 0 := by
        simp only [resetOf, Option.toList_some, List.length_singleton] at hone
        omega
      exact List.eq_nil_of_length_eq_zero hzero
    refine .settled hstate ⟨?_, fun _ => hlast, hset.ledger.note rfl rfl, made_snoc hset.made rfl⟩
    exact (congrArg List.length hlast).le.trans (Nat.zero_le 1)

theorem OwnOk.reported (h : OwnOk c) (events : List (Nat × EventMask)) :
    OwnOk (c.reported events) := by
  induction events generalizing c with
  | nil => exact h
  | cons e events ih =>
    refine ih ?_
    cases h with
    | attempt ch hs ha =>
      refine .attempt { ch with revents := e.2 } hs ⟨?_, ha.added, ha.registered, ha.resets, ha.ledger,
        ha.made⟩
      unfold reportedAt
      rw [ha.channel]
      rfl
    | settled hs h =>
      exact .settled hs (h.of_eq rfl (fun hnull => Option.map_eq_none_iff.mp hnull) rfl rfl)

theorem OwnOk.step {label : ConnectorLabel} {c' : Connector} (h : OwnOk c)
    (hlabel : wanted.label c label) (hs : Step wanted.answer c label c') : OwnOk c' := by
  obtain ⟨henters, hfails⟩ := hlabel
  cases hs with
  | start c' hc' =>
    have hcalled : OwnOk c.calledStart :=
      (h.noted (e := .start) rfl rfl).of_eq rfl rfl rfl rfl rfl rfl
    exact hcalled.started (fun hstate _ => henters (decide_eq_true hstate)) hc'
  | startElsewhere =>
    have hcalled : OwnOk c.calledStart :=
      (h.noted (e := .start) rfl rfl).of_eq rfl rfl rfl rfl rfl rfl
    exact hcalled.of_eq rfl (resets_queued_other _ rfl) rfl rfl rfl rfl
  | restart c' hc' =>
    have hch : c.channel = none := henters rfl
    have hset : Settled c := h.settled_of fun hs => by
      obtain ⟨ch, ha⟩ := h.attempt_of hs
      exact nomatch hch.symm.trans ha.channel
    have hdown : OwnOk { c with
        state := .kDisconnected, retryDelayMs := kInitRetryDelayMs, connect_ := true } := by
      refine .settled ?_ (hset.of_eq rfl id rfl rfl)
      intro hs
      cases hs
    exact hdown.started (fun _ _ => hch) hc'
  | stop =>
    have hcalled : OwnOk c.calledStop :=
      (h.noted (e := .stop) rfl rfl).of_eq rfl rfl rfl rfl rfl rfl
    exact hcalled.of_eq rfl (resets_queued_other _ rfl) rfl rfl rfl rfl
  | poll events rest _ _ _ => exact h.reported events
  | handleEvent sockfd rest c' hactive hc' =>
    have hrest : OwnOk { c with active := rest } := h.of_eq rfl rfl rfl rfl rfl rfl
    cases hc' with
    | dangling _ => exact hrest
    | error ch _ hr herr he _ =>
      exact hrest.errored (fun hstate => hfails rfl (failsNext_of hactive hr herr hstate)) he
    | write _ _ _ _ _ hw => exact hrest.written hw
    | both ch _ _ _ hr herr he _ _ hw =>
      have herrored := hrest.errored (fun hstate => hfails rfl (failsNext_of hactive hr herr hstate)) he
      exact herrored.written hw
    | neither _ _ _ _ => exact hrest
  | timer place c' _ _ hc' =>
    refine OwnOk.started (h.of_eq (by rfl) (by rfl) (by rfl) (by rfl) (by rfl) (by rfl)) ?_ hc'
    exact fun hstate hconnect => henters (by simp_all [entersConnect])
  | doPendingFunctors hnone _ =>
    exact h.of_eq rfl (by simp [Connector.resets, hnone]) rfl rfl rfl rfl
  | functor f rest c' hf hc' =>
    refine h.called hf (fun hstart hstate hconnect => henters ?_) hc'
    simp_all [entersConnect]

theorem new_ownOk (b : Bool) : OwnOk (new b) := by
  refine .settled nofun ⟨Nat.zero_le 1, fun _ => rfl, .nil, ?_⟩
  rintro sockfd ⟨e, he, -⟩
  cases he

/-! ## Results -/

theorem count_ends (t : List ConnectorEvent) (sockfd : Nat) :
    t.countP (fun e => sockets.ends e = some sockfd) =
      t.count (.newConnection sockfd) + t.count (.close sockfd) := by
  induction t with
  | nil => rfl
  | cons e t ih =>
    rw [List.countP_cons, List.count_cons, List.count_cons, ih]
    cases e <;> simp [sockets] <;> omega

theorem OwnOk.owned (h : OwnOk c) : c.SocketsOwned := by
  have howned : ∀ live : Set Nat, sockets.Ledger c.trace live →
      (∀ sockfd, sockfd ∈ live ↔ c.InFlight sockfd) → c.SocketsOwned := by
    intro live hl hlive
    refine ⟨fun sockfd hmade => ?_, fun u e sockfd hu hused => ?_⟩
    · have hmade : sockets.Made c.trace sockfd := ⟨_, hmade, rfl⟩
      unfold handovers closings
      rw [← count_ends, ← hlive]
      by_cases hin : sockfd ∈ live
      · exact .inl ⟨hin, hl.ends_never hin⟩
      · exact .inr ⟨hin, hl.ends_once hmade hin⟩
    · have hnot := hl.last u e sockfd hu hused
      exact ⟨fun hin => hnot ⟨_, hin, rfl⟩, fun hin => hnot ⟨_, hin, rfl⟩⟩
  cases h with
  | attempt ch hs ha =>
    refine howned _ ha.ledger fun sockfd => ?_
    constructor
    · rintro rfl
      exact ⟨hs, ha.registered, ch, ha.channel, rfl⟩
    · rintro ⟨-, -, ch', hch', rfl⟩
      obtain rfl : ch = ch' := Option.some.inj (ha.channel.symm.trans hch')
      rfl
  | settled hs h => exact howned _ h.ledger fun sockfd => ⟨nofun, fun hf => hs hf.1⟩

/-- **Every socket is in flight, or was handed over or closed once**, and never touched again: as long
as `connect` finds no channel and no attempt fails that `stop` has given up. -/
theorem sockets_owned {c : Config Unit Connector ConnectorCall Nat Nat Fault}
    (h : machine.Reach wanted c) : c.st.SocketsOwned :=
  (invariant_of_step new_ownOk (fun _ _ _ hc hlabel hs => OwnOk.step hc hlabel hs) h).owned

/-- A refused attempt, and one that succeeds when the retry timer has fired. -/
theorem sockets_owned_retry :
    ∃ c, machine.system.run (machine.Meets wanted) (.initial (new true))
        [.start .start [EINPROGRESS], .start (.poll [(0, { kWriteEvent with epollerr := true })]) [],
          .start .handleEvent [111], .start .doPendingFunctors [], .start .functor [],
          .start (.timer 0) [EINPROGRESS], .start (.poll [(1, kWriteEvent)]) [],
          .start .handleEvent [0]] = some c ∧
      c.st.closings 0 = 1 ∧ c.st.handovers 1 = 1 ∧ c.st.SocketsOwned := by
  have hrun : (machine.system.run (machine.Meets wanted) (.initial (new true))
        [.start .start [EINPROGRESS], .start (.poll [(0, { kWriteEvent with epollerr := true })]) [],
          .start .handleEvent [111], .start .doPendingFunctors [], .start .functor [],
          .start (.timer 0) [EINPROGRESS], .start (.poll [(1, kWriteEvent)]) [],
          .start .handleEvent [0]]).map
      (fun c => (c.st.closings 0, c.st.handovers 1)) = some (1, 1) := by decide +kernel
  obtain ⟨c, hc, hend⟩ := Option.map_eq_some_iff.mp hrun
  obtain ⟨hclosed, hhanded⟩ := Prod.mk.inj hend
  exact ⟨c, hc, hclosed, hhanded, sockets_owned (machine.reach_of_run ⟨true, rfl⟩ hc)⟩

/-- `stop` clears `connect_`, and the attempt is refused before `stopInLoop` runs: `handleError` leaves
`kConnecting` behind, and `handleWrite` closes the same socket in the same event, with `EBADF` for its error. -/
theorem socket_closed_twice :
    ∃ c : Config Unit Connector ConnectorCall Nat Nat Fault, machine.Reachable c ∧
      c.st.closings 0 = 2 ∧ ¬ c.st.SocketsOwned := by
  have hrun : (machine.system.run (fun _ _ => True) (.initial (new true))
        [.start .start [EINPROGRESS], .start .stop [],
          .start (.poll [(0, { kWriteEvent with epollerr := true, epollhup := true })]) [],
          .start .handleEvent [111, 9]]).map
      (fun c => (c.st.closings 0, c.st.handovers 0, decide (.socket 0 ∈ c.st.trace))) =
        some (2, 0, true) := by decide +kernel
  obtain ⟨c, hc, hend⟩ := Option.map_eq_some_iff.mp hrun
  simp only [Prod.mk.injEq] at hend
  obtain ⟨hclosed, hhanded, hmade⟩ := hend
  refine ⟨c, machine.reachable_of_run ⟨true, rfl⟩ hc, hclosed, fun howned => ?_⟩
  have honce := howned.once 0 (of_decide_eq_true hmade)
  rw [hclosed, hhanded] at honce
  omega

end Agora.Connector
