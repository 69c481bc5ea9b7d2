import Agora.Connector.Sockets

/-! # The state of a connector and its channel -/

open Agora.Lib Agora.Lib.Prog

namespace Agora.Connector

/-- `channel_` is in the poller with write interest, on an open socket that the connector has made. -/
structure Watched (c : Connector) (ch : Channel) : Prop where
  channel : c.channel = some ch
  added : ch.index = .kAdded
  writing : ch.isWriting = true
  registered : c.registered ch.fd = true
  made : .socket ch.fd ∈ c.trace
  kept : .close ch.fd ∉ c.trace ∧ .newConnection ch.fd ∉ c.trace

structure Agrees (c : Connector) : Prop where
  connecting : c.state = .kConnecting ↔ ∃ ch, c.Watched ch
  /-- `removeAndResetChannel` has found a channel every time, and in the poller. -/
  removals : ∀ channel, .removeAndResetChannel channel ∈ c.trace →
    ∃ fd, channel = some (fd, .kAdded)

/-- No channel is installed while a `resetChannel` is queued, and no attempt fails while nobody wants
it any more. -/
def wantedClean : Machine.Condition Connector ConnectorCall Nat ConnectorLabel where
  label c label := label = .handleEvent → c.failsNext = true → c.connect_ = true
  answer c q a := c.installsClean q a ∧ c.answersWanted q a

instance (c : Connector) (label : ConnectorLabel) : Decidable (wantedClean.label c label) :=
  inferInstanceAs (Decidable (_ = _ → _ = true → _ = true))

instance (c : Connector) (q : ConnectorCall) (a : Nat) : Decidable (wantedClean.answer c q a) :=
  inferInstanceAs (Decidable (noResetQueued.answer c q a ∧ wanted.answer c q a))

/-! ## The invariant -/

/-- An event of a connector that has made the sockets below `n`. -/
def Fine (n : Nat) : ConnectorEvent → Prop
  | .socket sockfd | .close sockfd | .newConnection sockfd => sockfd < n
  | .removeAndResetChannel channel => ∃ fd, channel = some (fd, .kAdded)
  | _ => True

def Past (c : Connector) : Prop := ∀ e ∈ c.trace, Fine c.nextFd e

inductive AgreeOk (c : Connector) : Prop
  | attempt (ch : Channel) : c.Past → c.state = .kConnecting → c.Watched ch → c.resets = [] →
      AgreeOk c
  | off : c.Past → c.state ≠ .kConnecting → (∀ ch, c.channel = some ch → ch.index ≠ .kAdded) →
      AgreeOk c

variable {c : Connector}

theorem AgreeOk.past (h : AgreeOk c) : c.Past := by
  cases h with
  | attempt _ hp _ _ _ => exact hp
  | off hp _ _ => exact hp

theorem AgreeOk.attempt_of (h : AgreeOk c) (hs : c.state = .kConnecting) :
    ∃ ch, c.Watched ch ∧ c.resets = [] := by
  cases h with
  | attempt ch _ _ hw hr => exact ⟨ch, hw, hr⟩
  | off _ hoff _ => exact absurd hs hoff

theorem AgreeOk.watched {ch : Channel} (h : AgreeOk c) (hs : c.state = .kConnecting)
    (hch : c.channel = some ch) : c.Watched ch := by
  obtain ⟨ch', hw, -⟩ := h.attempt_of hs
  obtain rfl : ch = ch' := Option.some.inj (hch.symm.trans hw.channel)
  exact hw

theorem Fine.mono {n : Nat} {e : ConnectorEvent} (h : Fine n e) : Fine (n + 1) e := by
  cases e with
  | socket sockfd | close sockfd | newConnection sockfd => exact Nat.lt_succ_of_lt h
  | removeAndResetChannel channel => exact h
  | _ => trivial

theorem Past.append {c' : Connector} {es : List ConnectorEvent} (h : c.Past)
    (ht : c'.trace = c.trace ++ es) (hn : c'.nextFd = c.nextFd) (hes : ∀ e ∈ es, Fine c.nextFd e) :
    c'.Past := by
  intro e he
  rw [hn]
  rw [ht] at he
  rcases List.mem_append.mp he with he | he
  · exact h e he
  · exact hes e he

theorem Past.note {c' : Connector} {e : ConnectorEvent} (h : c.Past) (ht : c'.trace = c.trace ++ [e])
    (hn : c'.nextFd = c.nextFd) (he : Fine c.nextFd e) : c'.Past := by
  refine h.append ht hn fun e' he' => ?_
  rwa [List.mem_singleton.mp he']

theorem Past.same {c' : Connector} (h : c.Past) (ht : c'.trace = c.trace)
    (hn : c'.nextFd = c.nextFd) : c'.Past := by
  intro e he
  rw [hn]
  exact h e (ht ▸ he)

theorem Past.dropped (h : c.Past) (ch : Channel) : (c.dropped ch).Past := by
  refine h.append rfl rfl fun e he => ?_
  obtain ⟨ctl, -, rfl⟩ := List.mem_map.mp he
  trivial

theorem Past.removed {ch : Channel} (h : c.Past) (hw : c.Watched ch) : (c.removed ch).Past := by
  have hcalled : c.removing.Past := by
    refine h.note rfl rfl ?_
    rw [hw.channel]
    exact ⟨ch.fd, by rw [← hw.added]; rfl⟩
  exact (hcalled.dropped ch).same rfl rfl

theorem Past.closed {sockfd : Nat} (h : c.Past) (hlt : sockfd < c.nextFd) : (c.closed sockfd).Past :=
  h.note rfl rfl hlt

theorem Past.retried (h : c.Past) : c.retried.Past := by
  unfold Connector.retried
  split
  · exact h.same rfl rfl
  · exact h

theorem Past.discarded (h : c.Past) : c.discarded.Past := by
  unfold Connector.discarded
  split
  · exact h
  · exact (h.dropped _).same rfl rfl

theorem Past.attempted (h : c.Past) : c.attempted.Past := by
  intro e he
  have he : (e ∈ c.trace ∨ e = .socket c.nextFd) ∨ e = .connect c.nextFd := by
    simpa [Connector.attempted, or_assoc] using he
  rcases he with (he | rfl) | rfl
  · exact (h e he).mono
  · exact Nat.lt_succ_self _
  · trivial

theorem Watched.below {ch : Channel} (hw : c.Watched ch) (h : c.Past) : ch.fd < c.nextFd :=
  h _ hw.made

theorem AgreeOk.same {c' : Connector} (h : AgreeOk c) (hs : c'.state = c.state)
    (hr : c'.resets = c.resets) (hch : c'.channel = c.channel) (hreg : c'.registered = c.registered)
    (ht : c'.trace = c.trace) (hn : c'.nextFd = c.nextFd) : AgreeOk c' := by
  cases h with
  | attempt ch hp hc hw hnone =>
    refine .attempt ch (hp.same ht hn) (hs.trans hc) ?_ (hr.trans hnone)
    refine ⟨hch.trans hw.channel, hw.added, hw.writing, ?_, ?_, ?_⟩
    · rw [hreg]
      exact hw.registered
    · rw [ht]
      exact hw.made
    · rw [ht]
      exact hw.kept
  | off hp hc hoff =>
    refine .off (hp.same ht hn) (hs ▸ hc) fun ch hch' => ?_
    rw [hch] at hch'
    exact hoff ch hch'

theorem AgreeOk.note {e : ConnectorEvent} (h : AgreeOk c) (he : Fine c.nextFd e)
    (hother : ∀ fd, e ≠ .close fd ∧ e ≠ .newConnection fd) :
    AgreeOk { c with trace := c.trace ++ [e] } := by
  cases h with
  | attempt ch hp hc hw hnone =>
    refine .attempt ch (hp.note rfl rfl he) hc ?_ hnone
    refine ⟨hw.channel, hw.added, hw.writing, hw.registered, List.mem_append_left _ hw.made, ?_, ?_⟩
    · simp [hw.kept.1, (hother ch.fd).1.symm]
    · simp [hw.kept.2, (hother ch.fd).2.symm]
  | off hp hc hoff => exact .off (hp.note rfl rfl he) hc hoff

/-! ## The steps -/

theorem Past.installed (h : c.Past) (hnone : c.resets = []) {d : Connector}
    (ht : d.trace = c.attempted.trace) (hr : d.resets = c.resets)
    (hn : d.nextFd = c.attempted.nextFd) : AgreeOk (d.installed c.nextFd) := by
  have hold : .close c.nextFd ∉ c.trace ∧ .newConnection c.nextFd ∉ c.trace :=
    ⟨fun hin => Nat.lt_irrefl _ (h _ hin), fun hin => Nat.lt_irrefl _ (h _ hin)⟩
  have htrace : (d.installed c.nextFd).trace = c.trace ++ [.socket c.nextFd] ++ [.connect c.nextFd] ++
      [.epollCtl ⟨.add, c.nextFd, kWriteEvent⟩] := by
    unfold Connector.installed
    rw [ht]
    rfl
  have hpast : (d.installed c.nextFd).Past :=
    h.attempted.note (e := .epollCtl ⟨.add, c.nextFd, kWriteEvent⟩) htrace hn trivial
  refine .attempt _ hpast rfl ⟨rfl, rfl, rfl, ?_, ?_, ?_⟩ (hr.trans hnone)
  · simp [Connector.installed]
  · rw [htrace]
    simp
  · rw [htrace]
    simpa using hold

theorem Past.tried (h : c.Past) {savedErrno : Nat} (hconnect : c.connect_ = true)
    (ha : noResetQueued.answer c.discarded.attempted (.connect c.nextFd) savedErrno) :
    AgreeOk (c.tried savedErrno) := by
  have hsocket := discarded_nextFd c
  have hclean : (savedErrno == 0 || isInProgress savedErrno) = true → c.discarded.resets = [] := ha
  unfold Connector.tried
  rw [← hsocket]
  split
  · rename_i hzero
    exact h.discarded.installed (hclean (by rw [hzero]; rfl)) rfl rfl rfl
  split
  · rename_i hprogress
    exact h.discarded.installed (hclean (by rw [hprogress, Bool.or_true])) rfl rfl rfl
  · have hwanted : (c.discarded.attempted.closed c.discarded.nextFd).connect_ = true :=
      (discarded_connect c).trans hconnect
    refine .off (h.discarded.attempted.closed (Nat.lt_succ_self _)).retried ?_ fun ch hch => ?_
    · rw [retried_wanted hwanted]
      nofun
    · unfold Connector.retried at hch
      rw [if_pos hwanted] at hch
      exact nomatch (discarded_channel c).symm.trans hch

theorem AgreeOk.started {c' : Connector} (h : AgreeOk c) (hs : Started wantedClean.answer c c') :
    AgreeOk c' := by
  cases hs with
  | idle _ => exact h
  | tried _ _ hconnect ha => exact h.past.tried hconnect ha.1

theorem agreeOk_removed (c : Connector) (ch : Channel) {d : Connector} (hp : d.Past) (hs : d.state ≠ .kConnecting)
    (hch : d.channel = (c.removed ch).channel) : AgreeOk d := by
  refine .off hp hs fun ch' hch' => ?_
  obtain rfl : _ = ch' := Option.some.inj (hch.symm.trans hch')
  nofun

theorem Watched.failed {ch : Channel} (hw : c.Watched ch) (hp : c.Past) (hconnect : c.connect_ = true) :
    AgreeOk (c.failed ch) := by
  have hasked : ((c.removed ch).asked ch.fd).Past := (hp.removed hw).note rfl rfl trivial
  refine agreeOk_removed c ch (hasked.closed (hw.below hp)).retried ?_ ?_
  · rw [Connector.failed, retried_wanted (c := ((c.removed ch).asked ch.fd).closed ch.fd) hconnect]
    simp
  · unfold Connector.failed Connector.retried
    split <;> rfl

theorem Watched.opened {ch : Channel} (hw : c.Watched ch) (hp : c.Past) : AgreeOk (c.opened ch) := by
  have hconnected : (c.connected ch).Past :=
    (hp.removed hw).note (e := .getSocketError ch.fd) rfl rfl trivial
  unfold Connector.opened
  split
  · exact agreeOk_removed c ch (hconnected.note rfl rfl (hw.below hp)) nofun rfl
  · exact agreeOk_removed c ch (hconnected.closed (hw.below hp)) nofun rfl

theorem Watched.stopped {ch : Channel} (hw : c.Watched ch) (hp : c.Past) : AgreeOk (c.stopped ch) :=
  agreeOk_removed c ch (((hp.removed hw).closed (hw.below hp)).same rfl rfl) nofun rfl

theorem AgreeOk.skipped {c' : Connector} (h : AgreeOk c) (hs : c.Skipped c') : AgreeOk c' := by
  cases hs with
  | idle _ => exact h
  | null hstate hnull =>
    obtain ⟨ch, hw, -⟩ := h.attempt_of hstate
    exact nomatch hnull.symm.trans hw.channel

theorem AgreeOk.errored {c' : Connector} (h : AgreeOk c)
    (hwanted : c.state = .kConnecting → c.connect_ = true) (hs : Errored wantedClean.answer c c') :
    AgreeOk c' := by
  cases hs with
  | skipped _ hs => exact h.skipped hs
  | failed ch _ hstate hch _ =>
    exact (h.watched hstate hch).failed h.past (hwanted hstate)

theorem AgreeOk.written {c' : Connector} (h : AgreeOk c) (hs : Written wantedClean.answer c c') :
    AgreeOk c' := by
  cases hs with
  | skipped _ hs => exact h.skipped hs
  | opened ch hstate hch _ =>
    exact (h.watched hstate hch).opened h.past
  | failed ch err hstate hch herr ha =>
    exact (h.watched hstate hch).failed h.past (ha.2 herr)

theorem AgreeOk.called {f : ConnectorFunctor} {rest : List ConnectorFunctor} {c' : Connector}
    (h : AgreeOk c) (hf : c.functors = f :: rest)
    (hs : Called wantedClean.answer { c with functors := rest } f c') : AgreeOk c' := by
  have hresets := resets_popped hf
  cases hs with
  | startInLoop c' hc' =>
    have hrest : AgreeOk { c with functors := rest } := h.same rfl hresets.symm rfl rfl rfl rfl
    exact hrest.started hc'
  | stopInLoop c' hc' =>
    have hrest : AgreeOk { c with functors := rest } := h.same rfl hresets.symm rfl rfl rfl rfl
    cases hc' with
    | skipped _ hskip => exact hrest.skipped hskip
    | stopped ch hstate hch =>
      exact (hrest.watched hstate hch).stopped hrest.past
  | resetChannel sockfd =>
    have hstate : c.state ≠ .kConnecting := fun hs => by
      obtain ⟨ch, -, hnone⟩ := h.attempt_of hs
      rw [hresets] at hnone
      cases hnone
    refine .off (h.past.note rfl rfl trivial) hstate fun ch hch => ?_
    cases hch

theorem AgreeOk.reported (h : AgreeOk c) (events : List (Nat × EventMask)) :
    AgreeOk (c.reported events) := by
  induction events generalizing c with
  | nil => exact h
  | cons e events ih =>
    refine ih ?_
    cases h with
    | attempt ch hp hs hw hnone =>
      refine .attempt { ch with revents := e.2 } (hp.same rfl rfl) hs ?_ hnone
      refine ⟨?_, hw.added, hw.writing, hw.registered, hw.made, hw.kept⟩
      unfold reportedAt
      rw [hw.channel]
      rfl
    | off hp hs hoff =>
      refine .off (hp.same rfl rfl) hs fun ch hch => ?_
      obtain ⟨ch', hch', rfl⟩ := Option.map_eq_some_iff.mp hch
      exact hoff ch' hch'

theorem AgreeOk.step {label : ConnectorLabel} {c' : Connector} (h : AgreeOk c)
    (hlabel : wantedClean.label c label) (hs : Step wantedClean.answer c label c') : AgreeOk c' := by
  have hstart : AgreeOk c.calledStart :=
    (h.note (e := .start) trivial fun _ => ⟨nofun, nofun⟩).same rfl rfl rfl rfl rfl rfl
  have hstop : AgreeOk c.calledStop :=
    (h.note (e := .stop) trivial fun _ => ⟨nofun, nofun⟩).same rfl rfl rfl rfl rfl rfl
  cases hs with
  | start c' hc' => exact hstart.started hc'
  | startElsewhere => exact hstart.same rfl (resets_queued_other _ rfl) rfl rfl rfl rfl
  | restart c' hc' =>
    cases hc' with
    | idle hidle => exact absurd ⟨rfl, rfl⟩ hidle
    | tried _ _ hconnect ha => exact Past.tried (h.past.same (by rfl) (by rfl)) hconnect ha.1
  | stop => exact hstop.same rfl (resets_queued_other _ rfl) rfl rfl rfl rfl
  | poll events rest _ _ _ => exact h.reported events
  | handleEvent sockfd rest c' hactive hc' =>
    have hrest : AgreeOk { c with active := rest } := h.same rfl rfl rfl rfl rfl rfl
    cases hc' with
    | dangling _ => exact hrest
    | error ch _ hr herr he _ =>
      exact hrest.errored (fun hstate => hlabel rfl (failsNext_of hactive hr herr hstate)) he
    | write _ _ _ _ _ hw => exact hrest.written hw
    | both ch _ _ _ hr herr he _ _ hw =>
      have herrored := hrest.errored (fun hstate => hlabel rfl (failsNext_of hactive hr herr hstate)) he
      exact herrored.written hw
    | neither _ _ _ _ => exact hrest
  | timer place c' _ _ hc' =>
    exact AgreeOk.started (h.same (by rfl) (by rfl) (by rfl) (by rfl) (by rfl) (by rfl)) hc'
  | doPendingFunctors hnone _ =>
    exact h.same rfl (by simp [Connector.resets, hnone]) rfl rfl rfl rfl
  | functor f rest c' hf hc' => exact h.called hf hc'

theorem new_agreeOk (b : Bool) : AgreeOk (new b) := by
  refine .off (fun e he => ?_) nofun fun ch hch => ?_
  · cases he
  · cases hch

theorem AgreeOk.agrees (h : AgreeOk c) : c.Agrees := by
  refine ⟨?_, fun channel hin => h.past _ hin⟩
  cases h with
  | attempt ch _ hs hw _ => exact ⟨fun _ => ⟨ch, hw⟩, fun _ => hs⟩
  | off _ hs hoff =>
    refine ⟨fun hc => absurd hc hs, ?_⟩
    rintro ⟨ch, hw⟩
    exact absurd hw.added (hoff ch hw.channel)

/-! ## Results -/

/-- **The state is `kConnecting` exactly while the channel is watched**, as long as no channel is
installed while a `resetChannel` is queued and no attempt fails that `stop` has given up. -/
theorem state_agrees_with_channel {c : Config Unit Connector ConnectorCall Nat Nat Fault}
    (h : machine.Reach wantedClean c) : c.st.Agrees :=
  (invariant_of_step new_agreeOk (fun _ _ _ hc hlabel hs => hc.step hlabel hs) h).agrees

/-- A refused attempt, a retry, a `stop` and a `restart`. -/
theorem state_agrees_with_channel_restart :
    ∃ c, machine.system.run (machine.Meets wantedClean) (.initial (new true))
        [.start .start [EINPROGRESS], .start (.poll [(0, { kWriteEvent with epollerr := true })]) [],
          .start .handleEvent [111], .start .doPendingFunctors [], .start .functor [],
          .start (.timer 0) [EINPROGRESS], .start .stop [], .start .doPendingFunctors [],
          .start .functor [], .start .doPendingFunctors [], .start .functor [],
          .start .restart [EINPROGRESS]] = some c ∧
      c.st.state = .kConnecting ∧ c.st.Agrees := by
  have hrun : (machine.system.run (machine.Meets wantedClean) (.initial (new true))
        [.start .start [EINPROGRESS], .start (.poll [(0, { kWriteEvent with epollerr := true })]) [],
          .start .handleEvent [111], .start .doPendingFunctors [], .start .functor [],
          .start (.timer 0) [EINPROGRESS], .start .stop [], .start .doPendingFunctors [],
          .start .functor [], .start .doPendingFunctors [], .start .functor [],
          .start .restart [EINPROGRESS]]).map (fun c => c.st.state) = some .kConnecting := by
    decide +kernel
  obtain ⟨c, hc, hstate⟩ := Option.map_eq_some_iff.mp hrun
  exact ⟨c, hc, hstate, state_agrees_with_channel (machine.reach_of_run ⟨true, rfl⟩ hc)⟩

/-- `stop` clears `connect_`, and the attempt is refused before `stopInLoop` runs: the state stays
`kConnecting` without a registered channel, and `stopInLoop` removes the channel once more. -/
theorem connecting_without_channel :
    ∃ c c' : Config Unit Connector ConnectorCall Nat Nat Fault, machine.Reachable c ∧
      c.st.state = .kConnecting ∧ ¬ c.st.Agrees ∧
      machine.system.run (fun _ _ => True) c [.start .doPendingFunctors [], .start .functor []] =
        some c' ∧ .removeAndResetChannel (some (0, .kNew)) ∈ c'.st.trace := by
  have hrun : ((machine.system.run (fun _ _ => True) (.initial (new true))
        [.start .start [EINPROGRESS], .start .stop [],
          .start (.poll [(0, { kNoneEvent with epollerr := true, epollhup := true })]) [],
          .start .handleEvent [111]]).map
      fun c => (c.st.state, c.st.channel.map Channel.index,
        (machine.system.run (fun _ _ => True) c [.start .doPendingFunctors [], .start .functor []]).map
          fun c' => decide (.removeAndResetChannel (some (0, .kNew)) ∈ c'.st.trace))) =
        some (.kConnecting, some .kNew, some true) := by decide +kernel
  obtain ⟨c, hc, hend⟩ := Option.map_eq_some_iff.mp hrun
  simp only [Prod.mk.injEq] at hend
  obtain ⟨hstate, hindex, hnext⟩ := hend
  obtain ⟨c', hc', hremoved⟩ := Option.map_eq_some_iff.mp hnext
  refine ⟨c, c', machine.reachable_of_run ⟨true, rfl⟩ hc, hstate, fun hagrees => ?_, hc',
    of_decide_eq_true hremoved⟩
  obtain ⟨ch, hw⟩ := hagrees.connecting.mp hstate
  rw [hw.channel] at hindex
  cases hw.added.symm.trans (Option.some.inj hindex)

end Agora.Connector
