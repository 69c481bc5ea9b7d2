import Agora.Code.Channel
import Agora.Lib.Machine
import Mathlib.Algebra.Group.Nat.Defs

/-!
# The code of `TimerQueue` and `Timer`

Times are microseconds, and no difference of two times overflows. `timers_` is a set: here a list in
its order. A timer is known by its address, which the allocator may use again, and by its sequence.
Each function runs as one step on its thread, up to the callbacks of `handleRead`.
-/

open Agora.Lib

namespace Agora

structure Timer where
  expiration : Int
  /-- Microseconds, `none` when `interval_` is not positive. -/
  interval : Option Int
  sequence : Nat
deriving DecidableEq, Repr

def Timer.repeats (t : Timer) : Bool := t.interval.isSome

def Timer.restart (t : Timer) (now : Int) : Timer :=
  match t.interval with
  | some delta => { t with expiration := now + delta }
  | none => { t with expiration := 0 }

structure TimerId where
  timer : Nat
  sequence : Nat
deriving DecidableEq, Repr

/-- A `std::pair` of the expiration and the address. -/
abbrev Entry := Int × Nat

namespace Entry

def before (a b : Entry) : Bool := a.1 < b.1 || (a.1 == b.1 && a.2 < b.2)

/-- `std::set::insert` -/
def insert (e : Entry) : List Entry → List Entry
  | [] => [e]
  | x :: xs => if e.before x then e :: x :: xs else if x.before e then x :: insert e xs else x :: xs

end Entry

def UINTPTR_MAX : Nat := 2 ^ 64 - 1

inductive TimerFunctor
  | addTimerInLoop (timer : Nat)
  | cancelInLoop (id : TimerId)
deriving DecidableEq, Repr

inductive TimerEvent
  /-- The callback of the timer with this sequence is started. -/
  | run (sequence : Nat)
  /-- `cancelInLoop` has returned. -/
  | cancelInLoop (id : TimerId)
deriving DecidableEq, Repr

structure Timespec where
  tv_sec : Int
  tv_nsec : Int
deriving DecidableEq, Repr

/-- A `timerfd_settime` with the clock reading that its `it_value` was computed from. -/
structure Arming where
  reading : Int
  it_value : Timespec
deriving DecidableEq, Repr

structure TimerQueue where
  timers : List Entry
  /-- The timers that are allocated, by their addresses. -/
  heap : Nat → Option Timer
  numCreated : Nat
  pendingFunctors : List TimerFunctor
  /-- The timers that `addTimer` has queued on other threads, where it still has to read their sequences. -/
  returning : List Nat
  /-- The ids that `addTimer` has returned. -/
  ids : List TimerId
  /-- Whether `handleRead` is running. -/
  handling : Bool
  /-- Its `expired`: the entries it will run, and those it has run. -/
  waiting : List Entry
  done : List Entry
  /-- How the timerfd is armed, and whether it has expired unread. -/
  armed : Option Arming
  unread : Bool
  trace : List TimerEvent

/-- The only system call whose result counts reads the clock. -/
abbrev TimerM := Prog TimerQueue Unit Int Nat Fault

namespace TimerQueue

open Prog

def new : TimerQueue := ⟨[], fun _ => none, 0, [], [], [], false, [], [], none, false, []⟩

def emit (e : TimerEvent) : TimerM Unit := modify fun s => { s with trace := s.trace ++ [e] }

def queueInLoop (f : TimerFunctor) : TimerM Unit :=
  modify fun s => { s with pendingFunctors := s.pendingFunctors ++ [f] }

/-! ## The memory of the timers -/

def deref (timer : Nat) : TimerM Timer := do
  let s ← read
  match s.heap timer with
  | none => fault .destroyedTimer
  | some t => pure t

def store (timer : Nat) (t : Option Timer) : TimerM Unit :=
  modify fun s => { s with heap := Function.update s.heap timer t }

/-- `new Timer` at this address -/
def newTimer (timer : Nat) (expiration : Int) (interval : Option Int) : TimerM Unit :=
  modify fun s => { s with
    numCreated := s.numCreated + 1
    heap := Function.update s.heap timer (some ⟨expiration, interval, s.numCreated + 1⟩) }

def delete (timer : Nat) : TimerM Unit := do
  let _ ← deref timer
  store timer none

/-! ## The timerfd -/

def howMuchTimeFromNow (expiration now : Int) : Timespec :=
  let microseconds := if expiration - now < 100 then 100 else expiration - now
  ⟨microseconds / (1000 * 1000), microseconds % (1000 * 1000) * 1000⟩

/-- `timerfd_settime` forgets an expiration that was not read. -/
def resetTimerfd (expiration : Int) : TimerM Unit := do
  let now ← syscall ()
  modify fun s => { s with armed := some ⟨now, howMuchTimeFromNow expiration now⟩, unread := false }

def readTimerfd : TimerM Unit := modify fun s => { s with unread := false }

/-- Arms for the first of `timers_`, if there is one. -/
def rearm : TimerM Unit := do
  let s ← read
  match s.timers with
  | [] => pure ()
  | entry :: _ => resetTimerfd entry.1

/-! ## Adding and cancelling -/

def earliestChanged (s : TimerQueue) (expiration : Int) : Bool :=
  s.timers.head?.all fun first => expiration < first.1

def insert (timer : Nat) : TimerM Bool := do
  let t ← deref timer
  let s ← read
  modify fun s => { s with timers := Entry.insert (t.expiration, timer) s.timers }
  pure (s.earliestChanged t.expiration)

def addTimerInLoop (timer : Nat) : TimerM Unit := do
  let earliestChanged ← insert timer
  when earliestChanged do
    let t ← deref timer
    resetTimerfd t.expiration

/-- On the loop thread, where nobody deletes the timer before its sequence is read. -/
def addTimer (timer : Nat) (expiration : Int) (interval : Option Int) : TimerM Unit := do
  newTimer timer expiration interval
  addTimerInLoop timer
  let t ← deref timer
  modify fun s => { s with ids := s.ids ++ [⟨timer, t.sequence⟩] }

/-- On another thread, up to the end of `runInLoop`. From here on the loop may run and delete the timer. -/
def addTimerElsewhere (timer : Nat) (expiration : Int) (interval : Option Int) : TimerM Unit := do
  newTimer timer expiration interval
  queueInLoop (.addTimerInLoop timer)
  modify fun s => { s with returning := s.returning ++ [timer] }

/-- The rest of it: `TimerId(timer, timer->sequence())`. -/
def returnElsewhere (timer : Nat) : TimerM Unit := do
  let s ← read
  match s.heap timer with
  | none => fault .deletedSequence
  | some t => modify fun s => { s with
      returning := s.returning.erase timer
      ids := s.ids ++ [⟨timer, t.sequence⟩] }

def cancelInLoop (id : TimerId) : TimerM Unit := do
  let s ← read
  when (id.timer != 0 && s.timers.any fun entry => entry.2 == id.timer) do
    modify fun s => { s with timers := s.timers.eraseP fun entry => entry.2 == id.timer }
    delete id.timer
    rearm
  emit (.cancelInLoop id)

/-! ## A pass -/

/-- The bound of `lower_bound` in `getExpired`. -/
def sentry (now : Int) : Entry := (now, UINTPTR_MAX)

def getExpired (now : Int) : TimerM Unit :=
  modify fun s => { s with
    waiting := s.timers.takeWhile fun entry => entry.before (sentry now)
    timers := s.timers.dropWhile fun entry => entry.before (sentry now) }

def run (timer : Nat) : TimerM Unit := do
  let t ← deref timer
  emit (.run t.sequence)
  callback t.sequence

def runExpired : List Entry → TimerM Unit
  | [] => pure ()
  | entry :: expired => do
    modify fun s => { s with waiting := expired, done := s.done ++ [entry] }
    run entry.2
    runExpired expired

def resetOne (now : Int) (timer : Nat) : TimerM Unit := do
  let t ← deref timer
  if t.repeats then
    store timer (some (t.restart now))
    let _ ← insert timer
  else delete timer

def resetExpired (now : Int) : List Entry → TimerM Unit
  | [] => pure ()
  | entry :: expired => do
    modify fun s => { s with done := expired }
    resetOne now entry.2
    resetExpired now expired

def reset (now : Int) (expired : List Entry) : TimerM Unit := do
  resetExpired now expired
  rearm

def handleRead : TimerM Unit := do
  modify fun s => { s with handling := true }
  let now ← syscall ()
  readTimerfd
  getExpired now
  let s ← read
  runExpired s.waiting
  reset now s.waiting
  modify fun s => { s with handling := false }

def runFunctor : TimerFunctor → TimerM Unit
  | .addTimerInLoop timer => addTimerInLoop timer
  | .cancelInLoop id => cancelInLoop id

end TimerQueue

/-! ## A timer queue, its loop and its users -/

inductive TimerLabel
  /-- `timer` is the address that the allocator gives out. -/
  | addTimer (timer : Nat) (expiration : Int) (interval : Option Int)
  | addTimerElsewhere (timer : Nat) (expiration : Int) (interval : Option Int)
  | returnElsewhere (timer : Nat)
  | cancel (id : TimerId)
  | cancelElsewhere (id : TimerId)
  | functor
  | handleRead
  /-- The timerfd expires. -/
  | expire
deriving DecidableEq, Repr

namespace TimerQueue

open Prog

/-- Whether the allocator may give out the address. -/
def vacant (s : TimerQueue) (timer : Nat) : Bool :=
  timer != 0 && timer < UINTPTR_MAX && (s.heap timer).isNone

/-- Users have the ids that were returned to them, and the null id. -/
def known (s : TimerQueue) (id : TimerId) : Bool := id ∈ s.ids || id = ⟨0, 0⟩

def entry : TimerLabel → TimerQueue → Option (TimerM Unit)
  | .addTimer timer expiration interval, s =>
    if s.vacant timer then some (addTimer timer expiration interval) else none
  | .addTimerElsewhere timer expiration interval, s =>
    if s.vacant timer then some (addTimerElsewhere timer expiration interval) else none
  | .returnElsewhere timer, s => if timer ∈ s.returning then some (returnElsewhere timer) else none
  | .cancel id, s => if s.known id then some (cancelInLoop id) else none
  | .cancelElsewhere id, s => if s.known id then some (queueInLoop (.cancelInLoop id)) else none
  | .functor, s =>
    match s.pendingFunctors with
    | [] => none
    | f :: rest => some do
      modify fun s => { s with pendingFunctors := rest }
      runFunctor f
  | .handleRead, s => if s.handling then none else some handleRead
  | .expire, s =>
    match s.armed with
    | none => none
    | some _ => some (modify fun s => { s with armed := none, unread := true })

def loopOnly : TimerLabel → Bool
  | .functor | .handleRead => true
  | _ => false

def machine : Machine Unit TimerQueue Unit Int Nat Fault TimerLabel where
  init s := s = new
  valid _ _ := true
  thread _ := ()
  idleOnly := loopOnly
  entry := entry

end TimerQueue

end Agora
