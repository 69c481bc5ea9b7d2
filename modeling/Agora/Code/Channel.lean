import Mathlib.Logic.Basic

/-!
# The code of `Channel` and of `EPollPoller::updateChannel` and `removeChannel`

An event mask is its five bits.
-/

namespace Agora

/-- Why the process dies. -/
inductive Fault
  | assertConnectEstablished
  | assertHandleClose
  | assertConnecting
  | assertRemoveConnection
  /-- the assertion of `~Connector` -/
  | assertConnector
  | nullChannel
  | nullContext
  | danglingChannel
  | destroyedServer
  | destroyedConnector
  | destroyedTimer
  /-- `addTimer` reads the sequence of a timer that is deleted already. -/
  | deletedSequence
  /-- `LOG_FATAL` in `sockets::accept` -/
  | fatalAccept
deriving DecidableEq, Repr

structure EventMask where
  epollin : Bool
  epollpri : Bool
  epollout : Bool
  epollerr : Bool
  epollhup : Bool
deriving DecidableEq, Repr

namespace EventMask

def none : EventMask := ⟨false, false, false, false, false⟩

/-- The bits of either mask. -/
def or (a b : EventMask) : EventMask :=
  ⟨a.epollin || b.epollin, a.epollpri || b.epollpri, a.epollout || b.epollout,
    a.epollerr || b.epollerr, a.epollhup || b.epollhup⟩

/-- The bits of `a` that are not in `b`. -/
def minus (a b : EventMask) : EventMask :=
  ⟨a.epollin && !b.epollin, a.epollpri && !b.epollpri, a.epollout && !b.epollout,
    a.epollerr && !b.epollerr, a.epollhup && !b.epollhup⟩

end EventMask

def kNoneEvent : EventMask := .none
def kReadEvent : EventMask := { EventMask.none with epollin := true, epollpri := true }
def kWriteEvent : EventMask := { EventMask.none with epollout := true }

/-- The `index_` that the poller keeps in a channel. -/
inductive Index
  | kNew | kAdded | kDeleted
deriving DecidableEq, Repr

inductive EpollOp
  | add | mod | del
deriving DecidableEq, Repr

structure EpollCtl where
  op : EpollOp
  fd : Nat
  events : EventMask
deriving DecidableEq, Repr

structure Channel where
  fd : Nat
  events : EventMask
  revents : EventMask
  index : Index
deriving DecidableEq, Repr

namespace EPollPoller

/-- The channel, and the `epoll_ctl` that is issued. -/
def updateChannel (ch : Channel) : Channel × List EpollCtl :=
  match ch.index with
  | .kNew | .kDeleted => ({ ch with index := .kAdded }, [⟨.add, ch.fd, ch.events⟩])
  | .kAdded =>
    if ch.events = kNoneEvent then ({ ch with index := .kDeleted }, [⟨.del, ch.fd, ch.events⟩])
    else (ch, [⟨.mod, ch.fd, ch.events⟩])

def removeChannel (ch : Channel) : Channel × List EpollCtl :=
  ({ ch with index := .kNew }, if ch.index = .kAdded then [⟨.del, ch.fd, ch.events⟩] else [])

end EPollPoller

namespace Channel

def new (fd : Nat) : Channel := ⟨fd, kNoneEvent, .none, .kNew⟩

def isNoneEvent (ch : Channel) : Bool := ch.events = kNoneEvent
def isWriting (ch : Channel) : Bool := ch.events.epollout

def setEvents (ch : Channel) (events : EventMask) : Channel × List EpollCtl :=
  EPollPoller.updateChannel { ch with events := events }

def enableReading (ch : Channel) : Channel × List EpollCtl := ch.setEvents (ch.events.or kReadEvent)
def enableWriting (ch : Channel) : Channel × List EpollCtl := ch.setEvents (ch.events.or kWriteEvent)
def disableWriting (ch : Channel) : Channel × List EpollCtl :=
  ch.setEvents (ch.events.minus kWriteEvent)
def disableAll (ch : Channel) : Channel × List EpollCtl := ch.setEvents kNoneEvent
def removeChannel (ch : Channel) : Channel × List EpollCtl := EPollPoller.removeChannel ch

end Channel

end Agora
