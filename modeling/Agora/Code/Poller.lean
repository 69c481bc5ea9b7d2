import Agora.Code.Channel
import Agora.Lib.System
import Mathlib.Logic.Function.Basic

/-!
# The code of `EPollPoller` with its map of channels, and the interest set of the kernel

`κ` are the addresses of the channels. `epoll_ctl` fails only for a descriptor that is there already
or that is missing.
-/

namespace Agora

structure EpollEvent (κ : Type) where
  events : EventMask
  ptr : κ
deriving DecidableEq, Repr

/-- The interest set behind `epollfd_`, or none where `epoll_ctl` fails. -/
def epollCtl {κ : Type} (interest : Nat → Option (EpollEvent κ)) (op : EpollOp) (fd : Nat)
    (event : EpollEvent κ) : Option (Nat → Option (EpollEvent κ)) :=
  match op, interest fd with
  | .add, none => some (Function.update interest fd (some event))
  | .mod, some _ => some (Function.update interest fd (some event))
  | .del, some _ => some (Function.update interest fd none)
  | .add, some _ | .mod, none | .del, none => none

structure Poller (κ : Type) where
  channel : κ → Channel
  channels : Nat → Option κ
  interest : Nat → Option (EpollEvent κ)
  /-- The calls of `epoll_ctl` that have failed. -/
  failed : List EpollCtl

inductive ChannelOp
  | enableReading | disableReading | enableWriting | disableWriting | disableAll | removeChannel
deriving DecidableEq, Repr

namespace Poller

variable {κ : Type} [DecidableEq κ]

def new (fd : κ → Nat) : Poller κ := ⟨fun i => .new (fd i), fun _ => none, fun _ => none, []⟩

def setChannel (p : Poller κ) (i : κ) (ch : Channel) : Poller κ :=
  { p with channel := Function.update p.channel i ch }

def setIndex (p : Poller κ) (i : κ) (index : Index) : Poller κ :=
  p.setChannel i { p.channel i with index := index }

omit [DecidableEq κ] in
def update (p : Poller κ) (op : EpollOp) (i : κ) : Poller κ :=
  let ch := p.channel i
  match epollCtl p.interest op ch.fd ⟨ch.events, i⟩ with
  | some interest => { p with interest := interest }
  | none => { p with failed := p.failed ++ [⟨op, ch.fd, ch.events⟩] }

def updateChannel (p : Poller κ) (i : κ) : Poller κ :=
  let ch := p.channel i
  match ch.index with
  | .kNew =>
    ({ p with channels := Function.update p.channels ch.fd (some i) }.setIndex i .kAdded).update .add i
  | .kDeleted => (p.setIndex i .kAdded).update .add i
  | .kAdded => if ch.isNoneEvent then (p.update .del i).setIndex i .kDeleted else p.update .mod i

def removeChannel (p : Poller κ) (i : κ) : Poller κ :=
  let ch := p.channel i
  let p := if ch.index = .kAdded then p.update .del i else p
  { p with channels := Function.update p.channels ch.fd none }.setIndex i .kNew

/-! ## The functions of the channel behind `i` -/

def setEvents (p : Poller κ) (i : κ) (events : EventMask) : Poller κ :=
  (p.setChannel i { p.channel i with events := events }).updateChannel i

def enableReading (p : Poller κ) (i : κ) : Poller κ := p.setEvents i ((p.channel i).events.or kReadEvent)
def disableReading (p : Poller κ) (i : κ) : Poller κ :=
  p.setEvents i ((p.channel i).events.minus kReadEvent)
def enableWriting (p : Poller κ) (i : κ) : Poller κ := p.setEvents i ((p.channel i).events.or kWriteEvent)
def disableWriting (p : Poller κ) (i : κ) : Poller κ :=
  p.setEvents i ((p.channel i).events.minus kWriteEvent)
def disableAll (p : Poller κ) (i : κ) : Poller κ := p.setEvents i kNoneEvent

def perform (p : Poller κ) (i : κ) : ChannelOp → Poller κ
  | .enableReading => p.enableReading i
  | .disableReading => p.disableReading i
  | .enableWriting => p.enableWriting i
  | .disableWriting => p.disableWriting i
  | .disableAll => p.disableAll i
  | .removeChannel => p.removeChannel i

/-- New channels on descriptors of their own, and any calls of their functions. -/
def system (κ : Type) [DecidableEq κ] : Lib.System (Poller κ) (κ × ChannelOp) where
  init p := ∃ fd : κ → Nat, Function.Injective fd ∧ p = new fd
  step p label := some (p.perform label.1 label.2)

end Poller

end Agora
