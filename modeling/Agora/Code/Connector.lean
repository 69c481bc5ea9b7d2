import Agora.Code.Channel
import Agora.Lib.Machine

/-!
# The code of `Connector`, and the part of the event loop it uses

Each function runs as one step on its thread. A descriptor stands for the socket that was created
with it: numbers are not used again, so that a use of a closed one shows. A socket has at most one
channel, and the channel is known by it.
-/

open Agora.Lib

namespace Agora

inductive ConnectorState
  | kDisconnected | kConnecting | kConnected
deriving DecidableEq, Repr

/-- The system calls whose result the connector uses: an `errno`, or zero. -/
inductive ConnectorCall
  | connect (sockfd : Nat)
  | getSocketError (sockfd : Nat)
deriving DecidableEq, Repr

def EINTR : Nat := 4
def EINPROGRESS : Nat := 115

def isInProgress (err : Nat) : Bool := err == EINPROGRESS || err == EINTR

inductive ConnectorFunctor
  | startInLoop
  | stopInLoop
  /-- The code binds the connector only; `sockfd` tells for which channel it was queued. -/
  | resetChannel (sockfd : Nat)
deriving DecidableEq, Repr

inductive ConnectorEvent
  | start
  | stop
  /-- It is called with this `channel_`. -/
  | removeAndResetChannel (channel : Option (Nat × Index))
  | socket (sockfd : Nat)
  | connect (sockfd : Nat)
  | getSocketError (sockfd : Nat)
  | epollCtl (ctl : EpollCtl)
  | newConnection (sockfd : Nat)
  | close (sockfd : Nat)
  /-- A `resetChannel` that was queued for `sockfd` has run. It has destroyed `channel`, if any, and
  this is whether the poller had it registered. -/
  | resetChannel (sockfd : Nat) (channel : Option (Nat × Bool))
deriving DecidableEq, Repr

structure Connector where
  connect_ : Bool
  state : ConnectorState
  channel : Option Channel
  retryDelayMs : Nat
  /-- Whether the callback is set. -/
  newConnectionCallback : Bool
  pendingFunctors : List ConnectorFunctor
  /-- What is left of the functors that `doPendingFunctors` has taken. -/
  functors : List ConnectorFunctor
  /-- The delays of the retry timers that have not fired. -/
  timers : List Nat
  /-- What is left of `activeChannels_`. -/
  active : List Nat
  /-- The channels whose address epoll holds. -/
  registered : Nat → Bool
  nextFd : Nat
  trace : List ConnectorEvent

abbrev ConnectorM := Prog Connector ConnectorCall Nat Nat Fault

namespace Connector

open Prog

def kInitRetryDelayMs : Nat := 500
def kMaxRetryDelayMs : Nat := 30000

def new (newConnectionCallback : Bool) : Connector :=
  ⟨false, .kDisconnected, none, kInitRetryDelayMs, newConnectionCallback, [], [], [], [],
    fun _ => false, 0, []⟩

/-! ## What the functions do to the loop, to the kernel and to the history -/

def setState (s : ConnectorState) : ConnectorM Unit := modify fun c => { c with state := s }
def emit (e : ConnectorEvent) : ConnectorM Unit := modify fun c => { c with trace := c.trace ++ [e] }
def queueInLoop (f : ConnectorFunctor) : ConnectorM Unit :=
  modify fun c => { c with pendingFunctors := c.pendingFunctors ++ [f] }
def runAfter (delayMs : Nat) : ConnectorM Unit :=
  modify fun c => { c with timers := c.timers ++ [delayMs] }

/-- The kernel does one `epoll_ctl`. -/
def control (c : Connector) (ctl : EpollCtl) : Connector :=
  { c with
    registered := match ctl.op with
      | .add => Function.update c.registered ctl.fd true
      | .mod => c.registered
      | .del => Function.update c.registered ctl.fd false
    trace := c.trace ++ [.epollCtl ctl] }

/-- `channel_` with what `f` does to it. -/
def putChannel (c : Connector) (r : Channel × List EpollCtl) : Connector :=
  r.2.foldl control { c with channel := some r.1 }

/-- `channel_->f()` -/
def onChannel (f : Channel → Channel × List EpollCtl) : ConnectorM Unit := do
  let c ← read
  match c.channel with
  | none => fault .nullChannel
  | some ch => modify fun c => c.putChannel (f ch)

/-- A closed descriptor leaves epoll. -/
def closed (sockfd : Nat) (c : Connector) : Connector :=
  { c with
    registered := Function.update c.registered sockfd false
    trace := c.trace ++ [.close sockfd] }

def close (sockfd : Nat) : ConnectorM Unit := modify (closed sockfd)

def createNonblockingOrDie : ConnectorM Nat := do
  let c ← read
  modify fun c => { c with nextFd := c.nextFd + 1, trace := c.trace ++ [.socket c.nextFd] }
  pure c.nextFd

def getSocketError (sockfd : Nat) : ConnectorM Nat := do
  emit (.getSocketError sockfd)
  syscall (.getSocketError sockfd)

/-! ## Connecting -/

def removeAndResetChannel : ConnectorM Nat := do
  let c ← read
  emit (.removeAndResetChannel (c.channel.map fun ch => (ch.fd, ch.index)))
  onChannel Channel.disableAll
  onChannel Channel.removeChannel
  let c ← read
  match c.channel with
  | none => fault .nullChannel
  | some ch =>
    queueInLoop (.resetChannel ch.fd)
    pure ch.fd

def resetChannel (sockfd : Nat) : ConnectorM Unit := do
  let c ← read
  emit (.resetChannel sockfd (c.channel.map fun ch => (ch.fd, c.registered ch.fd)))
  modify fun c => { c with channel := none }

def retry : ConnectorM Unit := do
  setState .kDisconnected
  let c ← read
  when c.connect_ do
    runAfter c.retryDelayMs
    modify fun c => { c with retryDelayMs := min (c.retryDelayMs * 2) kMaxRetryDelayMs }

def connecting (sockfd : Nat) : ConnectorM Unit := do
  setState .kConnecting
  let c ← read
  assert .assertConnecting c.channel.isNone
  modify fun c => { c with channel := some (.new sockfd) }
  onChannel Channel.enableWriting

def connect : ConnectorM Unit := do
  let c ← read
  when c.channel.isSome do
    onChannel Channel.disableAll
    onChannel Channel.removeChannel
    modify fun c => { c with channel := none }
  let sockfd ← createNonblockingOrDie
  emit (.connect sockfd)
  let savedErrno ← syscall (.connect sockfd)
  if savedErrno == 0 then
    modify fun c => { c with retryDelayMs := kInitRetryDelayMs }
    connecting sockfd
  else if isInProgress savedErrno then connecting sockfd
  else
    close sockfd
    let c ← read
    when c.connect_ retry

def startInLoop : ConnectorM Unit := do
  let c ← read
  when (c.state = .kDisconnected && c.connect_) connect

def stopInLoop : ConnectorM Unit := do
  let c ← read
  when (c.state = .kConnecting) do
    let sockfd ← removeAndResetChannel
    close sockfd
    setState .kDisconnected

/-- On the loop thread `runInLoop` calls at once. -/
def start : ConnectorM Unit := do
  emit .start
  modify fun c => { c with connect_ := true }
  startInLoop

/-- From another thread `runInLoop` queues. -/
def startElsewhere : ConnectorM Unit := do
  emit .start
  modify fun c => { c with connect_ := true }
  queueInLoop .startInLoop

def restart : ConnectorM Unit := do
  setState .kDisconnected
  modify fun c => { c with retryDelayMs := kInitRetryDelayMs, connect_ := true }
  startInLoop

def stop : ConnectorM Unit := do
  emit .stop
  modify fun c => { c with connect_ := false }
  queueInLoop .stopInLoop

/-! ## Handlers -/

def handleWrite : ConnectorM Unit := do
  let c ← read
  when (c.state = .kConnecting) do
    let sockfd ← removeAndResetChannel
    let err ← getSocketError sockfd
    if err == 0 then
      setState .kConnected
      modify fun c => { c with retryDelayMs := kInitRetryDelayMs }
      let c ← read
      if c.connect_ && c.newConnectionCallback then
        emit (.newConnection sockfd)
        callback sockfd
      else close sockfd
    else
      close sockfd
      let c ← read
      when c.connect_ retry

def handleError : ConnectorM Unit := do
  let c ← read
  when (c.state = .kConnecting) do
    let sockfd ← removeAndResetChannel
    let _ ← getSocketError sockfd
    close sockfd
    let c ← read
    when c.connect_ retry

/-- The channel behind an address that epoll has handed out. -/
def channelAt (sockfd : Nat) : ConnectorM Channel := do
  let c ← read
  match c.channel with
  | none => fault .danglingChannel
  | some ch => if ch.fd = sockfd then pure ch else fault .danglingChannel

/-- `Channel::handleEvent`: the close callback and the read callback are not set. -/
def handleEvent (sockfd : Nat) : ConnectorM Unit := do
  let ch ← channelAt sockfd
  when ch.revents.epollerr handleError
  let ch ← channelAt sockfd
  when ch.revents.epollout handleWrite

def fillActiveChannels : List (Nat × EventMask) → ConnectorM Unit
  | [] => pure ()
  | (sockfd, revents) :: events => do
    let ch ← channelAt sockfd
    modify fun c => { c with
      channel := some { ch with revents := revents }, active := c.active ++ [sockfd] }
    fillActiveChannels events

def runFunctor : ConnectorFunctor → ConnectorM Unit
  | .startInLoop => startInLoop
  | .stopInLoop => stopInLoop
  | .resetChannel sockfd => resetChannel sockfd

end Connector

/-! ## A connector, its loop and its users -/

inductive ConnectorLabel
  | start
  | startElsewhere
  | restart
  | stop
  | poll (events : List (Nat × EventMask))
  | handleEvent
  /-- The timer at this place fires. -/
  | timer (place : Nat)
  | doPendingFunctors
  | functor
deriving DecidableEq, Repr

namespace Connector

open Prog

/-- The loop polls, handles the channels, then calls the functors that are pending by then. Timers
fire among the channels. -/
def entry : ConnectorLabel → Connector → Option (ConnectorM Unit)
  | .start, _ => some start
  | .startElsewhere, _ => some startElsewhere
  | .restart, _ => some restart
  | .stop, _ => some stop
  | .poll events, c =>
    if c.functors = [] ∧ c.active = [] ∧ (events.map Prod.fst).Nodup ∧
        ∀ e ∈ events, c.registered e.1 = true then
      some (fillActiveChannels events)
    else none
  | .handleEvent, c =>
    match c.active with
    | [] => none
    | sockfd :: rest => some do
      modify fun c => { c with active := rest }
      handleEvent sockfd
  | .timer place, c =>
    if c.functors = [] ∧ place < c.timers.length then some do
      modify fun c => { c with timers := c.timers.eraseIdx place }
      startInLoop
    else none
  | .doPendingFunctors, c =>
    if c.functors = [] ∧ c.active = [] then
      some (modify fun c => { c with functors := c.pendingFunctors, pendingFunctors := [] })
    else none
  | .functor, c =>
    match c.functors with
    | [] => none
    | f :: rest => some do
      modify fun c => { c with functors := rest }
      runFunctor f

def loopOnly : ConnectorLabel → Bool
  | .poll _ | .handleEvent | .timer _ | .doPendingFunctors | .functor => true
  | _ => false

def machine : Machine Unit Connector ConnectorCall Nat Nat Fault ConnectorLabel where
  init c := ∃ newConnectionCallback, c = new newConnectionCallback
  valid _ _ := true
  thread _ := ()
  idleOnly := loopOnly
  entry := entry

end Connector

end Agora
