import Agora.Code.Connector

/-!
# What the functions of a connector do

Each function is one of a few changes of the state, or a short sequence of them.
-/

open Agora.Lib Agora.Lib.Prog

namespace Agora

theorem Channel.disableAll_added {ch : Channel} (h : ch.index = .kAdded) :
    ch.disableAll = ({ ch with events := kNoneEvent, index := .kDeleted },
      [⟨.del, ch.fd, kNoneEvent⟩]) := by
  unfold disableAll setEvents EPollPoller.updateChannel
  simp only [h, if_true]

/-- A channel that is not in epoll is put there by `disableAll`. -/
theorem Channel.disableAll_off {ch : Channel} (h : ch.index ≠ .kAdded) :
    ch.disableAll = ({ ch with events := kNoneEvent, index := .kAdded },
      [⟨.add, ch.fd, kNoneEvent⟩]) := by
  unfold disableAll setEvents EPollPoller.updateChannel
  rcases hi : ch.index with _ | _ | _
  · rfl
  · exact absurd hi h
  · rfl

namespace Connector

/-! ## The changes -/

/-- The `epoll_ctl`s of `disableAll` and `removeChannel`. -/
def dropCtls (ch : Channel) : List EpollCtl :=
  if ch.index = .kAdded then [⟨.del, ch.fd, kNoneEvent⟩]
  else [⟨.add, ch.fd, kNoneEvent⟩, ⟨.del, ch.fd, kNoneEvent⟩]

/-- `disableAll` and `removeChannel` -/
def dropped (c : Connector) (ch : Channel) : Connector :=
  { c with
    channel := some { ch with events := kNoneEvent, index := .kNew }
    registered := Function.update c.registered ch.fd false
    trace := c.trace ++ (dropCtls ch).map .epollCtl }

def queued (c : Connector) (f : ConnectorFunctor) : Connector :=
  { c with pendingFunctors := c.pendingFunctors ++ [f] }

/-- `removeAndResetChannel` is called. -/
def removing (c : Connector) : Connector :=
  { c with
    trace := c.trace ++ [.removeAndResetChannel (c.channel.map fun ch => (ch.fd, ch.index))] }

def removed (c : Connector) (ch : Channel) : Connector :=
  (c.removing.dropped ch).queued (.resetChannel ch.fd)

/-- What `connect` does first. -/
def discarded (c : Connector) : Connector :=
  match c.channel with
  | none => c
  | some ch => { c.dropped ch with channel := none }

/-- The attempt that is about to call `::connect`. -/
def attempted (c : Connector) : Connector :=
  { c with nextFd := c.nextFd + 1, trace := c.trace ++ [.socket c.nextFd] ++ [.connect c.nextFd] }

def installed (c : Connector) (sockfd : Nat) : Connector :=
  { c with
    state := .kConnecting
    channel := some ⟨sockfd, kWriteEvent, .none, .kAdded⟩
    registered := Function.update c.registered sockfd true
    trace := c.trace ++ [.epollCtl ⟨.add, sockfd, kWriteEvent⟩] }

def asked (c : Connector) (sockfd : Nat) : Connector :=
  { c with trace := c.trace ++ [.getSocketError sockfd] }

/-- `if (connect_) retry()` -/
def retried (c : Connector) : Connector :=
  if c.connect_ then
    { c with
      state := .kDisconnected
      timers := c.timers ++ [c.retryDelayMs]
      retryDelayMs := min (c.retryDelayMs * 2) kMaxRetryDelayMs }
  else c

def setDelay (c : Connector) : Connector := { c with retryDelayMs := kInitRetryDelayMs }

/-- What comes of `connect` with this answer of `::connect`. -/
def tried (c : Connector) (savedErrno : Nat) : Connector :=
  if savedErrno == 0 then c.discarded.attempted.setDelay.installed c.nextFd
  else if isInProgress savedErrno then c.discarded.attempted.installed c.nextFd
  else (c.discarded.attempted.closed c.nextFd).retried

def stopped (c : Connector) (ch : Channel) : Connector :=
  { (c.removed ch).closed ch.fd with state := .kDisconnected }

/-- What comes of `handleError`, and of `handleWrite` with an error. -/
def failed (c : Connector) (ch : Channel) : Connector :=
  (((c.removed ch).asked ch.fd).closed ch.fd).retried

/-- `handleWrite` has a connection, and nobody has it yet. -/
def connected (c : Connector) (ch : Channel) : Connector :=
  { ((c.removed ch).asked ch.fd).setDelay with state := .kConnected }

def calledStart (c : Connector) : Connector :=
  { c with connect_ := true, trace := c.trace ++ [.start] }

def calledStop (c : Connector) : Connector :=
  { c with connect_ := false, trace := c.trace ++ [.stop] }

def handed (c : Connector) (sockfd : Nat) : Connector :=
  { c with trace := c.trace ++ [.newConnection sockfd] }

def opened (c : Connector) (ch : Channel) : Connector :=
  if c.connect_ && c.newConnectionCallback then (c.connected ch).handed ch.fd
  else (c.connected ch).closed ch.fd

def reportedAt (c : Connector) (e : Nat × EventMask) : Connector :=
  { c with
    channel := c.channel.map fun ch => { ch with revents := e.2 }
    active := c.active ++ [e.1] }

def reported (c : Connector) (events : List (Nat × EventMask)) : Connector :=
  events.foldl reportedAt c

theorem putChannel_dropped {c : Connector} {ch : Channel} :
    (c.putChannel ch.disableAll).putChannel ch.disableAll.1.removeChannel = c.dropped ch := by
  unfold dropped dropCtls
  by_cases h : ch.index = .kAdded
  · rw [Channel.disableAll_added h, if_pos h]
    rfl
  · rw [Channel.disableAll_off h, if_neg h]
    unfold putChannel Channel.removeChannel EPollPoller.removeChannel
    simp [control]

/-! ## The functions -/

section
variable {C : Contract Connector ConnectorCall Nat Nat Fault}
  {guar rely : Connector → Connector → Prop} {s₀ c : Connector}

theorem wp_onChannel {f : Channel → Channel × List EpollCtl} {ch : Channel}
    (h : c.channel = some ch) (post : Connector → Connector → Unit → Prop) :
    wp C guar rely (onChannel f) post s₀ c ↔ post s₀ (c.putChannel (f ch)) () := by
  unfold onChannel
  rw [wp_bind, wp_read, h]
  rfl

theorem putChannel_channel (c : Connector) (r : Channel × List EpollCtl) :
    (c.putChannel r).channel = some r.1 := by
  unfold putChannel
  generalize hc : ({ c with channel := some r.1 } : Connector) = c'
  have h : c'.channel = some r.1 := by rw [← hc]
  clear hc
  induction r.2 generalizing c' with
  | nil => exact h
  | cons ctl ctls ih => exact ih (control c' ctl) h

theorem wp_removeAndResetChannel (post : Connector → Connector → Nat → Prop) :
    wp C guar rely removeAndResetChannel post s₀ c ↔
      (c.channel = none → C.tolerates .nullChannel c.removing) ∧
        ∀ ch, c.channel = some ch → post s₀ (c.removed ch) ch.fd := by
  unfold removeAndResetChannel emit
  rw [wp_bind, wp_read, wp_bind, wp_modify]
  show wp C guar rely _ post s₀ c.removing ↔ _
  rcases h : c.channel with _ | ch
  · have hnull : c.removing.channel = none := h
    unfold onChannel
    rw [wp_bind, wp_bind, wp_read, hnull]
    simp
  · have hch : c.removing.channel = some ch := h
    rw [wp_bind, wp_onChannel hch, wp_bind, wp_onChannel (putChannel_channel _ _), wp_bind, wp_read,
      putChannel_dropped]
    simp only [reduceCtorEq, false_implies, Option.some.injEq, true_and, forall_eq']
    rfl

theorem wp_retry (post : Connector → Connector → Unit → Prop) :
    wp C guar rely (when c.connect_ retry) post s₀ c ↔ post s₀ c.retried () := by
  unfold retry retried setState runAfter
  simp only [wp_bind, wp_read, wp_when, wp_modify]
  split
  · rfl
  · rfl

theorem wp_connecting (h : c.channel = none) (sockfd : Nat)
    (post : Connector → Connector → Unit → Prop) :
    wp C guar rely (connecting sockfd) post s₀ c ↔ post s₀ (c.installed sockfd) () := by
  unfold connecting setState
  simp only [wp_bind, wp_modify, wp_read, wp_assert, h, Option.isNone_none, if_true]
  rw [wp_onChannel rfl]
  rfl

theorem discarded_channel (c : Connector) : c.discarded.channel = none := by
  unfold discarded
  split
  · assumption
  · rfl

theorem discarded_nextFd (c : Connector) : c.discarded.nextFd = c.nextFd := by
  unfold discarded
  split <;> rfl

theorem discarded_connect (c : Connector) : c.discarded.connect_ = c.connect_ := by
  unfold discarded
  split <;> rfl

theorem discarded_newConnectionCallback (c : Connector) :
    c.discarded.newConnectionCallback = c.newConnectionCallback := by
  unfold discarded
  split <;> rfl

theorem discarded_timers (c : Connector) : c.discarded.timers = c.timers := by
  unfold discarded
  split <;> rfl

theorem discarded_retryDelayMs (c : Connector) : c.discarded.retryDelayMs = c.retryDelayMs := by
  unfold discarded
  split <;> rfl

theorem retried_wanted {c : Connector} (h : c.connect_ = true) : c.retried.state = .kDisconnected := by
  unfold retried
  rw [if_pos h]

theorem retried_nextFd (c : Connector) : c.retried.nextFd = c.nextFd := by
  unfold retried
  split <;> rfl

theorem retried_trace (c : Connector) : c.retried.trace = c.trace := by
  unfold retried
  split <;> rfl

theorem retried_newConnectionCallback (c : Connector) :
    c.retried.newConnectionCallback = c.newConnectionCallback := by
  unfold retried
  split <;> rfl

theorem wp_connect (post : Connector → Connector → Unit → Prop) :
    wp C guar rely connect post s₀ c ↔
      ∀ savedErrno, C.allow c.discarded.attempted (.connect c.nextFd) savedErrno →
        post s₀ (c.tried savedErrno) () := by
  have hdiscard : ∀ post' : Connector → Connector → Unit → Prop,
      wp C guar rely (when c.channel.isSome do
        onChannel Channel.disableAll
        onChannel Channel.removeChannel
        modify fun c => { c with channel := none }) post' s₀ c ↔ post' s₀ c.discarded () := by
    intro post'
    unfold discarded
    rcases h : c.channel with _ | ch
    · rfl
    · simp only [wp_when, Option.isSome_some, if_true]
      rw [wp_bind, wp_onChannel h, wp_bind, wp_onChannel (putChannel_channel _ _),
        putChannel_dropped]
      rfl
  unfold connect createNonblockingOrDie emit close tried
  rw [wp_bind, wp_read, wp_bind, hdiscard]
  simp only [wp_bind, wp_read, wp_modify, wp_pure, wp_syscall, wp_ite, ← discarded_nextFd c]
  refine forall_congr' fun savedErrno => imp_congr_right fun _ => ?_
  have hchannel : c.discarded.attempted.channel = none := discarded_channel c
  split
  · exact wp_connecting (c := c.discarded.attempted.setDelay) hchannel _ post
  split
  · exact wp_connecting hchannel _ post
  · exact wp_retry post

theorem wp_stopInLoop (post : Connector → Connector → Unit → Prop) :
    wp C guar rely stopInLoop post s₀ c ↔
      if c.state = .kConnecting then
        (c.channel = none → C.tolerates .nullChannel c.removing) ∧
          ∀ ch, c.channel = some ch → post s₀ (c.stopped ch) ()
      else post s₀ c () := by
  unfold stopInLoop close setState
  rw [wp_bind, wp_read, wp_when]
  simp only [decide_eq_true_eq, wp_bind, wp_removeAndResetChannel, wp_modify]
  rfl

theorem wp_handleError (post : Connector → Connector → Unit → Prop) :
    wp C guar rely handleError post s₀ c ↔
      if c.state = .kConnecting then
        (c.channel = none → C.tolerates .nullChannel c.removing) ∧
          ∀ ch, c.channel = some ch →
            ∀ err, C.allow ((c.removed ch).asked ch.fd) (.getSocketError ch.fd) err →
              post s₀ (c.failed ch) ()
      else post s₀ c () := by
  unfold handleError getSocketError emit close
  rw [wp_bind, wp_read, wp_when]
  simp only [decide_eq_true_eq, wp_bind, wp_removeAndResetChannel, wp_modify, wp_syscall, wp_read,
    wp_retry]
  rfl

theorem wp_handleWrite (post : Connector → Connector → Unit → Prop) :
    wp C guar rely handleWrite post s₀ c ↔
      if c.state = .kConnecting then
        (c.channel = none → C.tolerates .nullChannel c.removing) ∧
          ∀ ch, c.channel = some ch →
            ∀ err, C.allow ((c.removed ch).asked ch.fd) (.getSocketError ch.fd) err →
              if err == 0 then
                if c.connect_ && c.newConnectionCallback then
                  wp C guar rely (callback ch.fd) post s₀ (c.opened ch)
                else post s₀ (c.opened ch) ()
              else post s₀ (c.failed ch) ()
      else post s₀ c () := by
  unfold handleWrite getSocketError emit close setState
  rw [wp_bind, wp_read, wp_when]
  simp only [decide_eq_true_eq, wp_bind, wp_removeAndResetChannel, wp_modify, wp_syscall, wp_ite,
    wp_read, wp_retry]
  split
  · refine and_congr_right fun _ => forall_congr' fun ch => imp_congr_right fun _ =>
      forall_congr' fun err => imp_congr_right fun _ => ?_
    split
    · unfold opened
      show (if c.connect_ && c.newConnectionCallback then _ else _) ↔ _
      split
      · rfl
      · rfl
    · rfl
  · rfl

end

/-! ## Steps -/

/-- The process dies where `channel_` is null while connecting. -/
inductive Skipped (c : Connector) : Connector → Prop
  | idle : c.state ≠ .kConnecting → Skipped c c
  | null : c.state = .kConnecting → c.channel = none → Skipped c c.removing

section
variable (answer : Connector → ConnectorCall → Nat → Prop)

inductive Started (c : Connector) : Connector → Prop
  | idle : ¬ (c.state = .kDisconnected ∧ c.connect_ = true) → Started c c
  | tried (savedErrno : Nat) : c.state = .kDisconnected → c.connect_ = true →
      answer c.discarded.attempted (.connect c.nextFd) savedErrno → Started c (c.tried savedErrno)

inductive Stopped (c : Connector) : Connector → Prop
  | skipped (c' : Connector) : c.Skipped c' → Stopped c c'
  | stopped (ch : Channel) : c.state = .kConnecting → c.channel = some ch → Stopped c (c.stopped ch)

inductive Errored (c : Connector) : Connector → Prop
  | skipped (c' : Connector) : c.Skipped c' → Errored c c'
  | failed (ch : Channel) (err : Nat) : c.state = .kConnecting → c.channel = some ch →
      answer ((c.removed ch).asked ch.fd) (.getSocketError ch.fd) err → Errored c (c.failed ch)

inductive Written (c : Connector) : Connector → Prop
  | skipped (c' : Connector) : c.Skipped c' → Written c c'
  | opened (ch : Channel) : c.state = .kConnecting → c.channel = some ch →
      answer ((c.removed ch).asked ch.fd) (.getSocketError ch.fd) 0 → Written c (c.opened ch)
  | failed (ch : Channel) (err : Nat) : c.state = .kConnecting → c.channel = some ch → err ≠ 0 →
      answer ((c.removed ch).asked ch.fd) (.getSocketError ch.fd) err → Written c (c.failed ch)

/-- Whether the address `sockfd` leads to the channel of the connector. -/
def Reaches (c : Connector) (sockfd : Nat) (ch : Channel) : Prop :=
  c.channel = some ch ∧ ch.fd = sockfd

/-- Both handlers, as far as the channel is there to be asked for its events. -/
inductive Handled (sockfd : Nat) (c : Connector) : Connector → Prop
  | dangling : (∀ ch, ¬ c.Reaches sockfd ch) → Handled sockfd c c
  | error (ch : Channel) (c' : Connector) : c.Reaches sockfd ch → ch.revents.epollerr = true →
      Errored answer c c' → (∀ ch', c'.Reaches sockfd ch' → ch'.revents.epollout = false) →
      Handled sockfd c c'
  | write (ch : Channel) (c' : Connector) : c.Reaches sockfd ch → ch.revents.epollerr = false →
      ch.revents.epollout = true → Written answer c c' → Handled sockfd c c'
  | both (ch ch' : Channel) (c' c'' : Connector) : c.Reaches sockfd ch →
      ch.revents.epollerr = true → Errored answer c c' → c'.Reaches sockfd ch' →
      ch'.revents.epollout = true → Written answer c' c'' → Handled sockfd c c''
  | neither (ch : Channel) : c.Reaches sockfd ch → ch.revents.epollerr = false →
      ch.revents.epollout = false → Handled sockfd c c

def reset (c : Connector) (sockfd : Nat) : Connector :=
  { c with
    channel := none
    trace := c.trace ++
      [.resetChannel sockfd (c.channel.map fun ch => (ch.fd, c.registered ch.fd))] }

inductive Called (c : Connector) : ConnectorFunctor → Connector → Prop
  | startInLoop (c' : Connector) : Started answer c c' → Called c .startInLoop c'
  | stopInLoop (c' : Connector) : Stopped c c' → Called c .stopInLoop c'
  | resetChannel (sockfd : Nat) : Called c (.resetChannel sockfd) (c.reset sockfd)

/-- Everything one entry point can do, up to its end, to the callback, or to a crash. -/
inductive Step (c : Connector) : ConnectorLabel → Connector → Prop
  | start (c' : Connector) : Started answer c.calledStart c' → Step c .start c'
  | startElsewhere : Step c .startElsewhere (c.calledStart.queued .startInLoop)
  | restart (c' : Connector) :
      Started answer
        { c with state := .kDisconnected, retryDelayMs := kInitRetryDelayMs, connect_ := true } c' →
      Step c .restart c'
  | stop : Step c .stop (c.calledStop.queued .stopInLoop)
  | poll (events rest : List (Nat × EventMask)) : c.functors = [] → c.active = [] →
      (∀ e ∈ events ++ rest, c.registered e.1 = true) →
      Step c (.poll (events ++ rest)) (c.reported events)
  | handleEvent (sockfd : Nat) (rest : List Nat) (c' : Connector) : c.active = sockfd :: rest →
      Handled answer sockfd { c with active := rest } c' → Step c .handleEvent c'
  | timer (place : Nat) (c' : Connector) : c.functors = [] → place < c.timers.length →
      Started answer { c with timers := c.timers.eraseIdx place } c' → Step c (.timer place) c'
  | doPendingFunctors : c.functors = [] → c.active = [] →
      Step c .doPendingFunctors { c with functors := c.pendingFunctors, pendingFunctors := [] }
  | functor (f : ConnectorFunctor) (rest : List ConnectorFunctor) (c' : Connector) :
      c.functors = f :: rest → Called answer { c with functors := rest } f c' → Step c .functor c'

end

section
variable {C : Contract Connector ConnectorCall Nat Nat Fault}
  {guar rely : Connector → Connector → Prop} {s₀ c : Connector}

theorem startInLoop_ends {post : Connector → Connector → Unit → Prop}
    (h : ∀ c', Started C.allow c c' → post s₀ c' ()) : wp C guar rely startInLoop post s₀ c := by
  unfold startInLoop
  rw [wp_bind, wp_read, wp_when]
  split
  · rename_i hstate
    obtain ⟨hstate, hconnect⟩ : c.state = .kDisconnected ∧ c.connect_ = true := by
      simpa using hstate
    rw [wp_connect]
    exact fun err herr => h _ (.tried err hstate hconnect herr)
  · rename_i hstate
    exact h c (.idle (by simpa using hstate))

theorem channelAt_ends {post : Connector → Connector → Channel → Prop} {sockfd : Nat}
    (hlost : (∀ ch, ¬ c.Reaches sockfd ch) → C.tolerates .danglingChannel c)
    (hfound : ∀ ch, c.Reaches sockfd ch → post s₀ c ch) :
    wp C guar rely (channelAt sockfd) post s₀ c := by
  unfold channelAt
  rw [wp_bind, wp_read]
  rcases hch : c.channel with _ | ch
  · exact hlost fun ch hr => nomatch hch.symm.trans hr.1
  · rw [wp_ite]
    split
    · rename_i hfd
      exact hfound ch ⟨hch, hfd⟩
    · rename_i hfd
      refine hlost fun ch' hr => hfd ?_
      obtain rfl : ch = ch' := Option.some.inj (hch.symm.trans hr.1)
      exact hr.2

end

def stepContract (J : Connector → Prop) (answer : Connector → ConnectorCall → Nat → Prop) :
    Contract Connector ConnectorCall Nat Nat Fault :=
  ⟨J, fun _ _ => True, fun _ => J, answer⟩

section
variable {J : Connector → Prop} {answer : Connector → ConnectorCall → Nat → Prop}
  {post : Connector → Connector → Unit → Prop} {s₀ c : Connector}

abbrev Ends (J : Connector → Prop) (answer : Connector → ConnectorCall → Nat → Prop)
    (p : ConnectorM Unit) (post : Connector → Connector → Unit → Prop) (s₀ c : Connector) : Prop :=
  wp (stepContract J answer) (fun _ _ => True) (fun _ _ => True) p post s₀ c

theorem stopInLoop_ends (h : ∀ c', Stopped c c' → J c' ∧ post s₀ c' ()) :
    Ends J answer stopInLoop post s₀ c := by
  unfold Ends
  rw [wp_stopInLoop]
  split
  · rename_i hstate
    exact ⟨fun hnull => (h _ (.skipped _ (.null hstate hnull))).1,
      fun ch hch => (h _ (.stopped ch hstate hch)).2⟩
  · rename_i hstate
    exact (h c (.skipped c (.idle hstate))).2

theorem handleError_ends (hnull : c.channel = none → J c.removing)
    (h : ∀ c', Errored answer c c' → post s₀ c' ()) : Ends J answer handleError post s₀ c := by
  unfold Ends
  rw [wp_handleError]
  split
  · rename_i hstate
    exact ⟨hnull, fun ch hch err herr => h _ (.failed ch err hstate hch herr)⟩
  · rename_i hstate
    exact h c (.skipped c (.idle hstate))

theorem handleWrite_ends (h : ∀ c', Written answer c c' → J c') :
    Ends J answer handleWrite (fun _ c' _ => J c') s₀ c := by
  unfold Ends
  rw [wp_handleWrite]
  split
  · rename_i hstate
    refine ⟨fun hnull => h _ (.skipped _ (.null hstate hnull)), fun ch hch err herr => ?_⟩
    split
    · rename_i hzero
      obtain rfl : err = 0 := by simpa using hzero
      have hopened := h _ (.opened ch hstate hch herr)
      split
      · rw [wp_callback]
        exact ⟨⟨hopened, trivial, trivial⟩, fun _ h' _ => h'⟩
      · exact hopened
    · rename_i herror
      exact h _ (.failed ch err hstate hch (by simpa using herror) herr)
  · rename_i hstate
    exact h c (.skipped c (.idle hstate))

theorem handleEvent_ends {sockfd : Nat} (h : ∀ c', Handled answer sockfd c c' → J c') :
    Ends J answer (handleEvent sockfd) (fun _ c' _ => J c') s₀ c := by
  unfold Ends handleEvent
  rw [wp_bind]
  refine channelAt_ends (fun hlost => h c (.dangling hlost)) fun ch hch => ?_
  rw [wp_bind, wp_when]
  split
  · rename_i herr
    refine handleError_ends (fun hnull => nomatch hnull.symm.trans hch.1) fun c' hc' => ?_
    rw [wp_bind]
    refine channelAt_ends (fun hlost => ?_) fun ch' hch' => ?_
    · exact h c' (.error ch c' hch herr hc' fun ch' hch' => absurd hch' (hlost ch'))
    rw [wp_when]
    split
    · rename_i hout
      exact handleWrite_ends fun c'' hc'' => h c'' (.both ch ch' c' c'' hch herr hc' hch' hout hc'')
    · rename_i hout
      refine h c' (.error ch c' hch herr hc' fun ch'' hch'' => ?_)
      obtain rfl : ch' = ch'' := Option.some.inj (hch'.1.symm.trans hch''.1)
      simpa using hout
  · rename_i herr
    have herr : ch.revents.epollerr = false := by simpa using herr
    rw [wp_bind]
    refine channelAt_ends (fun hlost => absurd hch (hlost ch)) fun ch' hch' => ?_
    obtain rfl : ch = ch' := Option.some.inj (hch.1.symm.trans hch'.1)
    rw [wp_when]
    split
    · rename_i hout
      exact handleWrite_ends fun c' hc' => h c' (.write ch c' hch herr hout hc')
    · rename_i hout
      exact h c (.neither ch hch herr (by simpa using hout))

theorem fillActiveChannels_ends {events : List (Nat × EventMask)}
    (h : ∀ done rest, events = done ++ rest → J (c.reported done)) :
    Ends J answer (fillActiveChannels events) (fun _ c' _ => J c') s₀ c := by
  induction events generalizing c with
  | nil => exact h [] [] rfl
  | cons e events ih =>
    unfold Ends fillActiveChannels
    rw [wp_bind]
    refine channelAt_ends (fun _ => h [] (e :: events) rfl) fun ch hch => ?_
    have hstate : ({ c with
        channel := some { ch with revents := e.2 }
        active := c.active ++ [e.1] } : Connector) = c.reportedAt e := by
      unfold reportedAt
      rw [hch.1]
      rfl
    rw [wp_bind, wp_modify, hstate]
    refine ih fun done rest heq => ?_
    exact h (e :: done) rest (congrArg (e :: ·) heq)

theorem runFunctor_ends {f : ConnectorFunctor} (h : ∀ c', Called answer c f c' → J c') :
    Ends J answer (runFunctor f) (fun _ c' _ => J c') s₀ c := by
  cases f with
  | startInLoop => exact startInLoop_ends fun c' hc' => h c' (.startInLoop c' hc')
  | stopInLoop =>
    exact stopInLoop_ends fun c' hc' => ⟨h c' (.stopInLoop c' hc'), h c' (.stopInLoop c' hc')⟩
  | resetChannel sockfd => exact h _ (.resetChannel sockfd)

theorem entry_ends {label : ConnectorLabel} {p : ConnectorM Unit} (hp : entry label c = some p)
    (h : ∀ c', Step answer c label c' → J c') : Ends J answer p (fun _ c' _ => J c') c c := by
  cases label with
  | start =>
    obtain rfl := Option.some.inj hp
    exact startInLoop_ends fun c' hc' => h c' (.start c' hc')
  | startElsewhere =>
    obtain rfl := Option.some.inj hp
    exact h _ .startElsewhere
  | restart =>
    obtain rfl := Option.some.inj hp
    exact startInLoop_ends fun c' hc' => h c' (.restart c' hc')
  | stop =>
    obtain rfl := Option.some.inj hp
    exact h _ .stop
  | poll events =>
    simp only [entry] at hp
    split at hp
    · rename_i hpoll
      obtain rfl := Option.some.inj hp
      refine fillActiveChannels_ends ?_
      rintro done rest rfl
      exact h _ (.poll done rest hpoll.1 hpoll.2.1 hpoll.2.2.2)
    · cases hp
  | handleEvent =>
    rcases hactive : c.active with _ | ⟨sockfd, rest⟩
    · simp only [entry, hactive] at hp
      cases hp
    · simp only [entry, hactive] at hp
      obtain rfl := Option.some.inj hp
      exact handleEvent_ends fun c' hc' => h c' (.handleEvent sockfd rest c' hactive hc')
  | timer place =>
    simp only [entry] at hp
    split at hp
    · rename_i htimer
      obtain rfl := Option.some.inj hp
      exact startInLoop_ends fun c' hc' => h c' (.timer place c' htimer.1 htimer.2 hc')
    · cases hp
  | doPendingFunctors =>
    simp only [entry] at hp
    split at hp
    · rename_i hnone
      obtain rfl := Option.some.inj hp
      exact h _ (.doPendingFunctors hnone.1 hnone.2)
    · cases hp
  | functor =>
    rcases hfunctors : c.functors with _ | ⟨f, rest⟩
    · simp only [entry, hfunctors] at hp
      cases hp
    · simp only [entry, hfunctors] at hp
      obtain rfl := Option.some.inj hp
      exact runFunctor_ends fun c' hc' => h c' (.functor f rest c' hfunctors hc')

end

theorem step_of_start {c c' : Config Unit Connector ConnectorCall Nat Nat Fault}
    {label : ConnectorLabel} {answers : List Nat}
    (hs : machine.step c (.start label answers) = some c') :
    Step (fun _ _ _ => True) c.st label c'.st := by
  obtain ⟨p, stop, hp, hexec, rfl⟩ := machine.step_start hs
  have hends := entry_ends (J := Step (fun _ _ _ => True) c.st label) hp fun _ h => h
  have hstop := exec_sound (fun _ _ _ _ _ => trivial) hends
    (Machine.meets_anyStep_prog p c.st answers) hexec
  cases stop with
  | done s a => exact hstop
  | called s u k => exact hstop.1.1
  | faulted s e => exact hstop

/-- **The rule for connectors**: what every step keeps holds in every run, also where it crashes. -/
theorem invariant_of_step {cond : Machine.Condition Connector ConnectorCall Nat ConnectorLabel}
    {J : Connector → Prop} (hinit : ∀ b, J (new b))
    (hstep : ∀ label c c', J c → cond.label c label → Step cond.answer c label c' → J c')
    {c : Config Unit Connector ConnectorCall Nat Nat Fault} (h : machine.Reach cond c) : J c.st := by
  have hkeeps : machine.Keeps (stepContract J cond.answer) (fun _ _ _ => True) cond := by
    refine Machine.Keeps.of_inv ?_ (fun _ _ _ _ ha => ha) ?_
    · rintro c ⟨b, rfl⟩
      exact hinit b
    · intro label c p hp hlabel hc
      exact entry_ends hp fun c' hs => hstep label c c' hc hlabel hs
  have hrun := hkeeps.runOk h
  rcases hcrash : c.crashed with _ | e
  · exact hrun.inv hcrash
  · exact hrun.crash e hcrash

end Connector

end Agora
