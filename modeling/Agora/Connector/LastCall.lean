import Agora.Connector.Agree

/-! # Whether the last `start` is heard -/

open Agora.Lib Agora.Lib.Prog

namespace Agora.Connector

/-- The last call was a `start`, and `since` is what has happened behind it. -/
def StartedLast (t since : List ConnectorEvent) : Prop :=
  ∃ u, t = u ++ [.start] ++ since ∧ .start ∉ since ∧ .stop ∉ since

def queue (c : Connector) : List ConnectorFunctor := c.functors ++ c.pendingFunctors

/-- The connector is at work for the last `start`, or has handed over a socket since. -/
def AtWork (c : Connector) (since : List ConnectorEvent) : Prop :=
  (∃ sockfd, c.InFlight sockfd) ∨ c.timers ≠ [] ∨ ∃ sockfd, .newConnection sockfd ∈ since

def hears (c : Connector) : ConnectorLabel → Prop
  | .restart => False
  | .start | .startElsewhere => c.state ≠ .kConnected
  | .functor => c.functors.head? = some .stopInLoop → c.state = .kConnecting → c.connect_ = true →
      .startInLoop ∈ c.functors.tail ++ c.pendingFunctors
  | _ => True

instance (c : Connector) : ∀ label, Decidable (c.hears label)
  | .restart => isFalse id
  | .start | .startElsewhere => inferInstanceAs (Decidable (_ ≠ _))
  | .functor => inferInstanceAs (Decidable (_ = _ → _ = _ → _ = _ → _ ∈ _))
  | .stop | .poll _ | .handleEvent | .timer _ | .doPendingFunctors => isTrue trivial

def handsOver (c : Connector) : ConnectorCall → Nat → Prop
  | .connect _, _ => True
  | .getSocketError _, err => err = 0 → c.connect_ = true → c.newConnectionCallback = true

instance (c : Connector) : ∀ (q : ConnectorCall) (a : Nat), Decidable (c.handsOver q a)
  | .connect _, _ => isTrue trivial
  | .getSocketError _, _ => inferInstanceAs (Decidable (_ = _ → _ = _ → _ = _))

/-- Only `start` and `stop` are called; no `start` comes when the connector has been connected; no
`stopInLoop` takes down an attempt that is wanted again, unless a `startInLoop` follows; no channel is
installed while a `resetChannel` is queued; and there is somebody to hand the socket to. -/
def heard : Machine.Condition Connector ConnectorCall Nat ConnectorLabel where
  label := hears
  answer c q a := c.installsClean q a ∧ c.handsOver q a

instance (c : Connector) (label : ConnectorLabel) : Decidable (heard.label c label) :=
  inferInstanceAs (Decidable (c.hears label))

instance (c : Connector) (q : ConnectorCall) (a : Nat) : Decidable (heard.answer c q a) :=
  inferInstanceAs (Decidable (noResetQueued.answer c q a ∧ c.handsOver q a))

/-! ## The last call in a history -/

theorem StartedLast.snoc {t since : List ConnectorEvent} {e : ConnectorEvent}
    (h : StartedLast (t ++ [e]) since) :
    e = .start ∧ since = [] ∨
      ∃ since', since = since' ++ [e] ∧ (e ≠ .start ∧ e ≠ .stop) ∧ StartedLast t since' := by
  obtain ⟨u, heq, hstart, hstop⟩ := h
  rcases List.eq_nil_or_concat since with rfl | ⟨since', e', rfl⟩
  · rw [List.append_nil] at heq
    obtain ⟨-, hlast⟩ := List.append_inj' heq rfl
    exact .inl ⟨(List.cons.inj hlast).1, rfl⟩
  · rw [List.concat_eq_append] at heq hstart hstop ⊢
    rw [← List.append_assoc] at heq
    obtain ⟨rfl, hlast⟩ := List.append_inj' heq rfl
    obtain rfl := (List.cons.inj hlast).1
    simp only [List.mem_append, List.mem_singleton, not_or] at hstart hstop
    exact .inr ⟨since', rfl, ⟨Ne.symm hstart.2, Ne.symm hstop.2⟩, u, rfl, hstart.1, hstop.1⟩

theorem StartedLast.before {t es since : List ConnectorEvent} (h : StartedLast (t ++ es) since)
    (hes : .start ∉ es) : ∃ since', since = since' ++ es ∧ StartedLast t since' := by
  induction es using List.reverseRecOn generalizing since with
  | nil => exact ⟨since, by simp, by simpa using h⟩
  | append_singleton es e ih =>
    rw [← List.append_assoc] at h
    simp only [List.mem_append, List.mem_singleton, not_or] at hes
    rcases h.snoc with ⟨rfl, -⟩ | ⟨since', rfl, -, hbefore⟩
    · exact absurd rfl hes.2
    · obtain ⟨since'', rfl, hlast⟩ := ih hbefore hes.1
      exact ⟨since'', List.append_assoc _ _ _, hlast⟩

/-! ## The functors that are queued -/

/-- A `stopInLoop` comes before every `resetChannel`. -/
def StopsFirst (q : List ConnectorFunctor) : Prop :=
  ∃ u v, q = u ++ .stopInLoop :: v ∧ ∀ f ∈ u, resetOf f = none

theorem StopsFirst.push {q : List ConnectorFunctor} (h : StopsFirst q) (f : ConnectorFunctor) :
    StopsFirst (q ++ [f]) := by
  obtain ⟨u, v, rfl, hu⟩ := h
  exact ⟨u, v ++ [f], by simp, hu⟩

theorem StopsFirst.pop {q : List ConnectorFunctor} {f : ConnectorFunctor} (h : StopsFirst (f :: q)) :
    f = .stopInLoop ∨ resetOf f = none ∧ StopsFirst q := by
  obtain ⟨u, v, heq, hu⟩ := h
  rcases u with _ | ⟨f', u⟩
  · exact .inl (List.cons.inj heq).1
  · obtain ⟨rfl, rfl⟩ := List.cons.inj heq
    exact .inr ⟨hu f List.mem_cons_self, u, v, rfl, fun g hg => hu g (List.mem_cons_of_mem _ hg)⟩

theorem stopsFirst_of_mem {q : List ConnectorFunctor} (h : .stopInLoop ∈ q)
    (hr : q.filterMap resetOf = []) : StopsFirst q := by
  obtain ⟨u, v, rfl⟩ := List.append_of_mem h
  refine ⟨u, v, rfl, fun f hf => ?_⟩
  exact List.filterMap_eq_nil_iff.mp hr f (List.mem_append_left _ hf)

/-! ## The invariant -/

inductive Shape (c : Connector) : Prop
  | live (ch : Channel) : c.state = .kConnecting → c.channel = some ch →
      c.registered ch.fd = true → c.resets = [] → Shape c
  /-- An attempt has failed behind a `stop`. -/
  | stale (ch : Channel) : c.state = .kConnecting → c.channel = some ch → StopsFirst c.queue → Shape c
  | idle : c.state ≠ .kConnecting → Shape c

structure Begun (c : Connector) : Prop where
  call : ∀ since, StartedLast c.trace since → c.connect_ = true ∧
    (c.state = .kConnected → ∃ sockfd, .newConnection sockfd ∈ since)
  stops : c.state = .kConnecting → c.connect_ = false → .stopInLoop ∈ c.queue
  shape : Shape c

structure LastOk (c : Connector) : Prop extends Begun c where
  pending : c.state = .kDisconnected → c.connect_ = true → c.timers ≠ [] ∨ .startInLoop ∈ c.queue

variable {c : Connector}

theorem Begun.channel_of (h : Begun c) (hs : c.state = .kConnecting) : ∃ ch, c.channel = some ch := by
  cases h.shape with
  | live ch _ hch _ _ => exact ⟨ch, hch⟩
  | stale ch _ hch _ => exact ⟨ch, hch⟩
  | idle hn => exact absurd hs hn

theorem Shape.same {c' : Connector} (h : Shape c) (hs : c'.state = c.state)
    (hch : c'.channel = c.channel) (hreg : c'.registered = c.registered) (hq : c'.queue = c.queue) :
    Shape c' := by
  cases h with
  | live ch hc hch' hr hnone =>
    refine .live ch (hs.trans hc) (hch.trans hch') ?_ ((congrArg (List.filterMap resetOf) hq).trans hnone)
    rw [hreg]
    exact hr
  | stale ch hc hch' hfirst => exact .stale ch (hs.trans hc) (hch.trans hch') (hq ▸ hfirst)
  | idle hn => exact .idle (hs ▸ hn)

theorem Shape.queued (h : Shape c) {f : ConnectorFunctor} (hf : resetOf f = none) :
    Shape (c.queued f) := by
  cases h with
  | live ch hc hch hr hnone => exact .live ch hc hch hr ((resets_queued_other c hf).trans hnone)
  | stale ch hc hch hfirst =>
    refine .stale ch hc hch ?_
    have hpush := hfirst.push f
    unfold Connector.queue at hpush ⊢
    rwa [List.append_assoc] at hpush
  | idle hn => exact .idle hn

theorem LastOk.same {c' : Connector} (h : LastOk c) (hc : c'.connect_ = c.connect_)
    (hs : c'.state = c.state) (hch : c'.channel = c.channel) (hreg : c'.registered = c.registered)
    (hq : c'.queue = c.queue) (htimers : c'.timers = c.timers) (ht : c'.trace = c.trace) :
    LastOk c' := by
  refine ⟨⟨fun since hsince => ?_, fun hs' hc' => ?_, h.shape.same hs hch hreg hq⟩, fun hs' hc' => ?_⟩
  · rw [hc, hs]
    exact h.call since (ht ▸ hsince)
  · rw [hq]
    exact h.stops (hs ▸ hs') (hc ▸ hc')
  · rw [hq, htimers]
    exact h.pending (hs ▸ hs') (hc ▸ hc')

theorem queue_queued (c : Connector) (f : ConnectorFunctor) : (c.queued f).queue = c.queue ++ [f] :=
  (List.append_assoc _ _ _).symm

/-! ## The changes -/

theorem lastOk_retried (hconnect : c.connect_ = true) : LastOk c.retried := by
  unfold Connector.retried
  rw [if_pos hconnect]
  refine ⟨⟨fun _ _ => ⟨hconnect, nofun⟩, nofun, .idle nofun⟩, fun _ _ => .inl ?_⟩
  simp

theorem lastOk_installed (hconnect : c.connect_ = true) (hnone : c.resets = []) (sockfd : Nat) :
    LastOk (c.installed sockfd) := by
  have hregistered : (c.installed sockfd).registered sockfd = true := by
    simp [Connector.installed]
  refine ⟨⟨fun _ _ => ⟨hconnect, fun hup => ?_⟩, fun _ hoff => ?_, ?_⟩, fun hdown => ?_⟩
  · cases hup
  · cases hconnect.symm.trans hoff
  · exact .live _ rfl rfl hregistered hnone
  · cases hdown

theorem lastOk_tried {savedErrno : Nat} (hconnect : c.connect_ = true)
    (ha : noResetQueued.answer c.discarded.attempted (.connect c.nextFd) savedErrno) :
    LastOk (c.tried savedErrno) := by
  have hwanted : c.discarded.connect_ = true := (discarded_connect c).trans hconnect
  unfold Connector.tried
  split
  · rename_i hzero
    have hnone : c.discarded.resets = [] := ha (by rw [hzero]; rfl)
    exact lastOk_installed (c := c.discarded.attempted.setDelay) hwanted hnone c.nextFd
  split
  · rename_i hprogress
    have hnone : c.discarded.resets = [] := ha (by rw [hprogress, Bool.or_true])
    exact lastOk_installed (c := c.discarded.attempted) hwanted hnone c.nextFd
  · exact lastOk_retried (c := c.discarded.attempted.closed c.nextFd) hwanted

theorem removed_trace (c : Connector) (ch : Channel) :
    ∃ es, (c.removed ch).trace = c.trace ++ es ∧ .start ∉ es := by
  refine ⟨[.removeAndResetChannel (c.channel.map fun ch => (ch.fd, ch.index))] ++
    (dropCtls ch).map .epollCtl, ?_, by simp⟩
  exact List.append_assoc c.trace [_] _

theorem wanted_before (ch : Channel) (es : List ConnectorEvent) {since : List ConnectorEvent}
    (hcall : ∀ since, StartedLast c.trace since → c.connect_ = true)
    (hsince : StartedLast ((c.removed ch).trace ++ es) since) (hes : .start ∉ es) :
    ∃ since', since = since' ++ es ∧ c.connect_ = true := by
  obtain ⟨es', ht, hes'⟩ := removed_trace c ch
  obtain ⟨since', rfl, hbefore⟩ := hsince.before hes
  rw [ht] at hbefore
  obtain ⟨since'', rfl, hlast⟩ := hbefore.before hes'
  exact ⟨_, rfl, hcall since'' hlast⟩

theorem Begun.wanted (h : Begun c) : ∀ since, StartedLast c.trace since → c.connect_ = true :=
  fun since hsince => (h.call since hsince).1

theorem Begun.failed {ch : Channel} (h : Begun c) (hs : c.state = .kConnecting) :
    LastOk (c.failed ch) := by
  rcases hconnect : c.connect_ with _ | _
  · have hstops := h.stops hs hconnect
    have hfirst : StopsFirst c.queue := by
      cases h.shape with
      | live _ _ _ _ hnone => exact stopsFirst_of_mem hstops hnone
      | stale _ _ _ hfirst => exact hfirst
      | idle hn => exact absurd hs hn
    have hkept : c.failed ch = ((c.removed ch).asked ch.fd).closed ch.fd := by
      unfold Connector.failed Connector.retried
      rw [if_neg]
      show ¬ c.connect_ = true
      rw [hconnect]
      simp
    have hqueue : (c.failed ch).queue = c.queue ++ [.resetChannel ch.fd] := by
      rw [hkept]
      exact queue_queued (c.removing.dropped ch) _
    refine ⟨⟨fun since hsince => ?_, fun _ _ => ?_, ?_⟩, fun hdown => ?_⟩
    · rw [hkept] at hsince
      have hbefore : StartedLast ((c.removed ch).trace ++ [.getSocketError ch.fd, .close ch.fd]) since := by
        simpa [Connector.asked, Connector.closed] using hsince
      obtain ⟨_, -, hon⟩ := wanted_before ch _ h.wanted hbefore (by simp)
      cases hconnect.symm.trans hon
    · rw [hqueue]
      exact List.mem_append_left _ hstops
    · rw [hkept] at hqueue ⊢
      exact .stale _ hs rfl (hqueue ▸ hfirst.push _)
    · rw [hkept] at hdown
      cases hs.symm.trans hdown
  · exact lastOk_retried (c := ((c.removed ch).asked ch.fd).closed ch.fd) hconnect

theorem Begun.opened {ch : Channel} (h : Begun c)
    (hcallback : c.connect_ = true → c.newConnectionCallback = true) : LastOk (c.opened ch) := by
  have hstate : (c.opened ch).state = .kConnected := by
    unfold Connector.opened
    split <;> rfl
  have hconnect : (c.opened ch).connect_ = c.connect_ := by
    unfold Connector.opened
    split <;> rfl
  refine ⟨⟨fun since hsince => ?_, fun hs => ?_, .idle ?_⟩, fun hs => ?_⟩
  · rw [hconnect]
    unfold Connector.opened at hsince
    split at hsince
    · have hbefore : StartedLast ((c.removed ch).trace ++ [.getSocketError ch.fd, .newConnection ch.fd]) since := by
        simpa [Connector.connected, Connector.asked, Connector.handed, setDelay] using hsince
      obtain ⟨since', rfl, hon⟩ := wanted_before ch _ h.wanted hbefore (by simp)
      exact ⟨hon, fun _ => ⟨ch.fd, by simp⟩⟩
    · rename_i hunwanted
      have hbefore : StartedLast ((c.removed ch).trace ++ [.getSocketError ch.fd, .close ch.fd]) since := by
        simpa [Connector.connected, Connector.asked, Connector.closed, setDelay] using hsince
      obtain ⟨since', rfl, hon⟩ := wanted_before ch _ h.wanted hbefore (by simp)
      rw [hon, hcallback hon] at hunwanted
      exact absurd rfl hunwanted
  · cases hstate.symm.trans hs
  · rw [hstate]
    simp
  · cases hstate.symm.trans hs

theorem lastOk_stopped {ch : Channel}
    (hcall : ∀ since, StartedLast c.trace since → c.connect_ = true)
    (hnext : c.connect_ = true → .startInLoop ∈ c.queue) : LastOk (c.stopped ch) := by
  refine ⟨⟨fun since hsince => ?_, nofun, .idle nofun⟩, fun _ hon => .inr ?_⟩
  · obtain ⟨_, -, hon⟩ := wanted_before ch [.close ch.fd] hcall hsince (by simp)
    exact ⟨hon, nofun⟩
  · have hqueue : (c.stopped ch).queue = c.queue ++ [.resetChannel ch.fd] :=
      queue_queued (c.removing.dropped ch) _
    rw [hqueue]
    exact List.mem_append_left _ (hnext hon)

/-! ## The steps -/

theorem Begun.started {c' : Connector} (h : Begun c) (hs : Started heard.answer c c') : LastOk c' := by
  cases hs with
  | idle hidle => exact ⟨h, fun hdown hon => absurd ⟨hdown, hon⟩ hidle⟩
  | tried _ _ hconnect ha => exact lastOk_tried hconnect ha.1

theorem LastOk.skipped {c' : Connector} (h : LastOk c) (hs : c.Skipped c') : LastOk c' := by
  cases hs with
  | idle _ => exact h
  | null hstate hnull =>
    obtain ⟨ch, hch⟩ := h.channel_of hstate
    exact nomatch hnull.symm.trans hch

theorem LastOk.errored {c' : Connector} (h : LastOk c) (hs : Errored heard.answer c c') :
    LastOk c' := by
  cases hs with
  | skipped _ hs => exact h.skipped hs
  | failed ch _ hstate _ _ => exact h.failed hstate

theorem LastOk.written {c' : Connector} (h : LastOk c) (hs : Written heard.answer c c') :
    LastOk c' := by
  cases hs with
  | skipped _ hs => exact h.skipped hs
  | opened ch hstate _ ha => exact h.opened (ha.2 rfl)
  | failed ch err hstate _ _ _ => exact h.failed hstate

theorem LastOk.called {f : ConnectorFunctor} {rest : List ConnectorFunctor} {c' : Connector}
    (h : LastOk c) (hlabel : heard.label c .functor) (hf : c.functors = f :: rest)
    (hs : Called heard.answer { c with functors := rest } f c') : LastOk c' := by
  have hqueue : c.queue = f :: Connector.queue { c with functors := rest } := by
    unfold Connector.queue
    rw [hf]
    rfl
  have hresets := resets_popped hf
  cases hs with
  | startInLoop c' hc' =>
    have hrest : Begun { c with functors := rest } := by
      refine ⟨h.call, fun hs hoff => ?_, ?_⟩
      · have hin := h.stops hs hoff
        rw [hqueue] at hin
        exact (List.mem_cons.mp hin).resolve_left nofun
      · cases h.shape with
        | live ch hs hch hreg hnone => exact .live ch hs hch hreg (hresets.symm.trans hnone)
        | stale ch hs hch hfirst =>
          rw [hqueue] at hfirst
          rcases hfirst.pop with heq | ⟨-, hfirst⟩
          · cases heq
          · exact .stale ch hs hch hfirst
        | idle hn => exact .idle hn
    exact hrest.started hc'
  | stopInLoop c' hc' =>
    cases hc' with
    | skipped _ hskip =>
      cases hskip with
      | idle hn =>
        refine ⟨⟨h.call, fun hs => absurd hs hn, .idle hn⟩, fun hs hon => ?_⟩
        refine (h.pending hs hon).imp id fun hin => ?_
        rw [hqueue] at hin
        exact (List.mem_cons.mp hin).resolve_left nofun
      | null hstate hnull =>
        obtain ⟨ch, hch⟩ := h.channel_of hstate
        exact nomatch hnull.symm.trans hch
    | stopped ch hstate hch =>
      refine lastOk_stopped (c := { c with functors := rest }) h.wanted fun hon => ?_
      have hin := hlabel (by rw [hf]; rfl) hstate hon
      rwa [hf] at hin
  | resetChannel sockfd =>
    have hn : c.state ≠ .kConnecting := by
      intro hs
      cases h.shape with
      | live _ _ _ _ hnone =>
        rw [hresets] at hnone
        cases hnone
      | stale _ _ _ hfirst =>
        rw [hqueue] at hfirst
        rcases hfirst.pop with heq | ⟨heq, -⟩
        · cases heq
        · cases heq
      | idle hn => exact hn hs
    refine ⟨⟨fun since hsince => ?_, fun hs => absurd hs hn, .idle hn⟩, fun hs hon => ?_⟩
    · obtain ⟨since', rfl, hlast⟩ := hsince.before (by simp)
      obtain ⟨hon, hup⟩ := h.call since' hlast
      exact ⟨hon, fun hs => (hup hs).imp fun _ hin => List.mem_append_left _ hin⟩
    · refine (h.pending hs hon).imp id fun hin => ?_
      rw [hqueue] at hin
      exact (List.mem_cons.mp hin).resolve_left nofun

theorem LastOk.reported (h : LastOk c) (events : List (Nat × EventMask)) :
    LastOk (c.reported events) := by
  induction events generalizing c with
  | nil => exact h
  | cons e events ih =>
    refine ih ⟨⟨h.call, h.stops, ?_⟩, h.pending⟩
    have hchannel : ∀ ch, c.channel = some ch →
        (c.reportedAt e).channel = some { ch with revents := e.2 } := by
      intro ch hch
      unfold reportedAt
      rw [hch]
      rfl
    cases h.shape with
    | live ch hs hch hreg hnone => exact .live _ hs (hchannel ch hch) hreg hnone
    | stale ch hs hch hfirst => exact .stale _ hs (hchannel ch hch) hfirst
    | idle hn => exact .idle hn

theorem LastOk.calledStart (h : LastOk c) (hstate : c.state ≠ .kConnected) : Begun c.calledStart := by
  refine ⟨fun since hsince => ⟨rfl, fun hs => absurd hs hstate⟩, fun _ hoff => ?_, ?_⟩
  · cases hoff
  · exact h.shape.same rfl rfl rfl rfl

theorem LastOk.calledStop (h : LastOk c) : LastOk (c.calledStop.queued .stopInLoop) := by
  have hqueue : (c.calledStop.queued .stopInLoop).queue = c.queue ++ [.stopInLoop] :=
    queue_queued c.calledStop _
  refine ⟨⟨fun since hsince => ?_, fun _ _ => ?_, ?_⟩, fun _ hon => ?_⟩
  · rcases StartedLast.snoc hsince with ⟨heq, -⟩ | ⟨-, -, hne, -⟩
    · cases heq
    · exact absurd rfl hne.2
  · rw [hqueue]
    simp
  · have hshape : Shape c.calledStop := h.shape.same rfl rfl rfl rfl
    exact hshape.queued rfl
  · cases hon

theorem LastOk.step {label : ConnectorLabel} {c' : Connector} (h : LastOk c)
    (hlabel : heard.label c label) (hs : Step heard.answer c label c') : LastOk c' := by
  cases hs with
  | start c' hc' => exact (h.calledStart hlabel).started hc'
  | startElsewhere =>
    have hbegun := h.calledStart hlabel
    have hqueue := queue_queued c.calledStart .startInLoop
    refine ⟨⟨hbegun.call, fun hs hoff => ?_, hbegun.shape.queued rfl⟩, fun _ _ => .inr ?_⟩
    · rw [hqueue]
      exact List.mem_append_left _ (hbegun.stops hs hoff)
    · rw [hqueue]
      simp
  | restart c' hc' => exact hlabel.elim
  | stop => exact h.calledStop
  | poll events rest _ _ _ => exact h.reported events
  | handleEvent sockfd rest c' _ hc' =>
    have hrest : LastOk { c with active := rest } := h.same rfl rfl rfl rfl rfl rfl rfl
    cases hc' with
    | dangling _ => exact hrest
    | error _ _ _ _ he _ => exact hrest.errored he
    | write _ _ _ _ _ hw => exact hrest.written hw
    | both _ _ _ _ _ _ he _ _ hw => exact (hrest.errored he).written hw
    | neither _ _ _ _ => exact hrest
  | timer place c' _ _ hc' =>
    have hfired : Begun { c with timers := c.timers.eraseIdx place } :=
      ⟨h.call, h.stops, h.shape.same rfl rfl rfl rfl⟩
    exact hfired.started hc'
  | doPendingFunctors hnone _ =>
    refine h.same rfl rfl rfl rfl ?_ rfl rfl
    unfold Connector.queue
    rw [hnone, List.append_nil]
    rfl
  | functor f rest c' hf hc' => exact h.called hlabel hf hc'

theorem new_lastOk (b : Bool) : LastOk (new b) := by
  refine ⟨⟨fun since hsince => ?_, nofun, .idle nofun⟩, nofun⟩
  obtain ⟨u, heq, -⟩ := hsince
  have hin : ConnectorEvent.start ∈ u ++ [.start] ++ since := by simp
  rw [← heq] at hin
  cases hin

/-! ## Results -/

/-- **The last `start` wins**: with no functor queued the connector is at work for it, in every run
that meets `heard`. -/
theorem last_start_wins {c : Config Unit Connector ConnectorCall Nat Nat Fault}
    (h : machine.Reach heard c) {since : List ConnectorEvent}
    (hlast : StartedLast c.st.trace since) (hfunctors : c.st.functors = [])
    (hpending : c.st.pendingFunctors = []) : c.st.AtWork since := by
  have hok : LastOk c.st :=
    invariant_of_step new_lastOk (fun _ _ _ hc hlabel hs => hc.step hlabel hs) h
  have hempty : c.st.queue = [] := by
    unfold Connector.queue
    rw [hfunctors, hpending]
    rfl
  obtain ⟨hon, hup⟩ := hok.call since hlast
  cases hok.shape with
  | live ch hs hch hreg _ => exact .inl ⟨ch.fd, hs, hreg, ch, hch, rfl⟩
  | stale ch _ _ hfirst =>
    rw [hempty] at hfirst
    obtain ⟨u, v, heq, -⟩ := hfirst
    exact absurd heq (by simp)
  | idle hn =>
    rcases hs : c.st.state with _ | _ | _
    · rcases hok.pending hs hon with htimers | hin
      · exact .inr (.inl htimers)
      · rw [hempty] at hin
        cases hin
    · exact absurd hs hn
    · exact .inr (.inr (hup hs))

/-- Another thread stops and starts again, the next attempt is refused at once, and the one behind the
retry timer succeeds. -/
theorem last_start_wins_retry :
    ∃ c since, machine.system.run (machine.Meets heard) (.initial (new true))
        [.start .start [EINPROGRESS], .start .stop [], .start .startElsewhere [],
          .start .doPendingFunctors [], .start .functor [], .start .functor [111],
          .start .doPendingFunctors [], .start .functor [], .start (.timer 0) [EINPROGRESS],
          .start (.poll [(2, kWriteEvent)]) [], .start .handleEvent [0], .resume () [],
          .start .doPendingFunctors [], .start .functor []] = some c ∧
      StartedLast c.st.trace since ∧ c.st.AtWork since := by
  have hrun : (machine.system.run (machine.Meets heard) (.initial (new true))
        [.start .start [EINPROGRESS], .start .stop [], .start .startElsewhere [],
          .start .doPendingFunctors [], .start .functor [], .start .functor [111],
          .start .doPendingFunctors [], .start .functor [], .start (.timer 0) [EINPROGRESS],
          .start (.poll [(2, kWriteEvent)]) [], .start .handleEvent [0], .resume () [],
          .start .doPendingFunctors [], .start .functor []]).map
      (fun c => (c.st.functors, c.st.pendingFunctors,
        decide (c.st.trace = c.st.trace.take 5 ++ [.start] ++ c.st.trace.drop 6 ∧
          .start ∉ c.st.trace.drop 6 ∧ .stop ∉ c.st.trace.drop 6))) = some ([], [], true) := by
    decide +kernel
  obtain ⟨c, hc, hend⟩ := Option.map_eq_some_iff.mp hrun
  simp only [Prod.mk.injEq] at hend
  obtain ⟨hfunctors, hpending, hlast⟩ := hend
  have hlast : StartedLast c.st.trace (c.st.trace.drop 6) := ⟨_, of_decide_eq_true hlast⟩
  exact ⟨c, _, hc, hlast,
    last_start_wins (machine.reach_of_run ⟨true, rfl⟩ hc) hlast hfunctors hpending⟩

/-- `start` comes while the attempt that `stop` has given up is still in flight: it returns, and the
queued `stopInLoop` takes the attempt down. -/
theorem last_start_lost :
    ∃ (c : Config Unit Connector ConnectorCall Nat Nat Fault) (since : List ConnectorEvent),
      machine.Reachable c ∧ StartedLast c.st.trace since ∧ c.st.functors = [] ∧
        c.st.pendingFunctors = [] ∧ ¬ c.st.AtWork since := by
  have hrun : (machine.system.run (fun _ _ => True) (.initial (new true))
        [.start .start [EINPROGRESS], .start .stop [], .start .start [],
          .start .doPendingFunctors [], .start .functor [], .start .doPendingFunctors [],
          .start .functor []]).map
      (fun c => (c.st.queue, c.st.state, c.st.timers,
        decide (c.st.trace = c.st.trace.take 5 ++ [.start] ++ c.st.trace.drop 6 ∧
          .start ∉ c.st.trace.drop 6 ∧ .stop ∉ c.st.trace.drop 6),
        (c.st.trace.drop 6).any fun e => match e with
          | .newConnection _ => true
          | _ => false)) = some ([], .kDisconnected, [], true, false) := by
    decide +kernel
  obtain ⟨c, hc, hend⟩ := Option.map_eq_some_iff.mp hrun
  simp only [Prod.mk.injEq] at hend
  obtain ⟨hqueue, hstate, htimers, hlast, hhanded⟩ := hend
  obtain ⟨hfunctors, hpending⟩ := List.append_eq_nil_iff.mp hqueue
  refine ⟨c, _, machine.reachable_of_run ⟨true, rfl⟩ hc, ⟨_, of_decide_eq_true hlast⟩, hfunctors,
    hpending, ?_⟩
  rintro (⟨sockfd, hs, -⟩ | hwaits | ⟨sockfd, hin⟩)
  · exact nomatch hstate.symm.trans hs
  · exact hwaits htimers
  · have hall := List.any_eq_false.mp hhanded _ hin
    exact absurd rfl hall

end Agora.Connector
