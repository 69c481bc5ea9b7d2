import Agora.Lib.System
import Mathlib.Algebra.Group.Nat.Defs
import Mathlib.Logic.Function.Basic

/-!
# The event loop and the threads that queue into it (event_loop.cpp)

One step is one access to what the threads share: the functor queue under its mutex, `quit_`,
`callingPendingFunctors_` and the eventfd. `τ` are the other threads and `φ` the functors.
-/

namespace Agora

/-- A channel that `poll` reports: the wakeup channel, or one whose handler runs other code. -/
inductive Active
  | wakeup
  | other
  deriving DecidableEq

/-- Where the loop thread is in `loop` and `doPendingFunctors`. -/
inductive LoopPc (φ : Type)
  | outside
  | entered
  | testing
  | polling
  | dispatching (current : Option Active) (rest : List Active)
  | swapping
  | calling (current : Option φ) (rest : List φ)
  /-- The batch is executed, and its functors are destroyed with all they own. -/
  | destroying
  | leaving
  deriving DecidableEq

/-- Where another thread is in `queueInLoop` or `quit`. -/
inductive CallerPc
  | idle
  /-- Its functor has this place in `queued`. -/
  | pushed (place : Nat)
  | quitSet
  deriving DecidableEq

structure EventLoop (τ φ : Type) where
  looping : Bool
  quit : Bool
  callingPendingFunctors : Bool
  pendingFunctors : List φ
  /-- The counter behind `wakeupFd_`. -/
  eventfd : Nat
  pc : LoopPc φ
  /-- The loop thread itself is in `queueInLoop`, behind the push of this place in `queued`. -/
  queueing : Option Nat
  callers : τ → CallerPc
  /-- All functors ever pushed, and all ever called, in order. -/
  queued : List φ
  executed : List φ

inductive LoopLabel (τ φ : Type)
  | advance (active : List Active)
  | queueInLoop (cb : φ)
  | wakeupIfCalling
  | quit
  | queueInLoopFrom (t : τ) (cb : φ)
  | quitFrom (t : τ)
  | wakeupFrom (t : τ)

/-- The thread can run user code: a handler, a functor, or a destructor. -/
def LoopPc.inUserCode {φ : Type} : LoopPc φ → Bool
  | .dispatching (some .other) _ | .calling (some _) _ | .destroying => true
  | _ => false

def LoopPc.isLeaving {φ : Type} : LoopPc φ → Bool
  | .leaving => true
  | _ => false

/-- The steps of `system`, and the calls of `queueInLoop` that the loop's own thread makes while it
is not in `loop`. -/
inductive OutsideLabel (τ φ : Type)
  | inLoop (label : LoopLabel τ φ)
  | queueInLoopOutside (cb : φ)

def LoopPc.isOutside {φ : Type} : LoopPc φ → Bool
  | .outside => true
  | _ => false

namespace EventLoop

variable {τ φ : Type}

def new : EventLoop τ φ :=
  ⟨false, false, false, [], 0, .outside, none, fun _ => .idle, [], []⟩

/-- `write` of 1 on a non-blocking eventfd; at its greatest value the counter stays as it is. -/
def wakeup (s : EventLoop τ φ) : EventLoop τ φ :=
  { s with eventfd := min (s.eventfd + 1) (2 ^ 64 - 2) }

def handleRead (s : EventLoop τ φ) : EventLoop τ φ := { s with eventfd := 0 }

def push (s : EventLoop τ φ) (cb : φ) : EventLoop τ φ :=
  { s with pendingFunctors := s.pendingFunctors ++ [cb], queued := s.queued ++ [cb] }

/-- The next statement of the loop thread in `loop` and `doPendingFunctors`; `active` is what `poll`
reports. The wakeup channel is only reported while its counter is positive. -/
def advance (s : EventLoop τ φ) (active : List Active) : Option (EventLoop τ φ) :=
  match s.pc with
  | .outside => if s.looping then none else some { s with looping := true, pc := .entered }
  | .entered => some { s with quit := false, pc := .testing }
  | .testing => some { s with pc := if s.quit then .leaving else .polling }
  | .polling =>
    if Active.wakeup ∈ active ∧ s.eventfd = 0 then none
    else some { s with pc := .dispatching none active }
  | .dispatching _ (.wakeup :: rest) =>
    some { s.handleRead with pc := .dispatching (some .wakeup) rest }
  | .dispatching _ (.other :: rest) => some { s with pc := .dispatching (some .other) rest }
  | .dispatching _ [] => some { s with callingPendingFunctors := true, pc := .swapping }
  | .swapping => some { s with pendingFunctors := [], pc := .calling none s.pendingFunctors }
  | .calling _ (functor :: rest) =>
    some { s with pc := .calling (some functor) rest, executed := s.executed ++ [functor] }
  | .calling _ [] => some { s with callingPendingFunctors := false, pc := .destroying }
  | .destroying => some { s with pc := .testing }
  | .leaving => some { s with looping := false, pc := .outside }

variable [DecidableEq τ]

def moveCaller (s : EventLoop τ φ) (t : τ) (pc : CallerPc) : EventLoop τ φ :=
  { s with callers := Function.update s.callers t pc }

def step (s : EventLoop τ φ) : LoopLabel τ φ → Option (EventLoop τ φ)
  | .advance active => if s.queueing.isSome then none else s.advance active
  | .queueInLoop cb =>
    if s.queueing.isSome || !s.pc.inUserCode then none
    else some { s.push cb with queueing := some s.queued.length }
  | .wakeupIfCalling =>
    if s.queueing.isNone then none
    else if s.callingPendingFunctors then some { s.wakeup with queueing := none }
    else some { s with queueing := none }
  | .quit => if s.queueing.isSome || !s.pc.inUserCode then none else some { s with quit := true }
  | .queueInLoopFrom t cb =>
    if s.callers t = .idle then some ((s.push cb).moveCaller t (.pushed s.queued.length)) else none
  | .quitFrom t =>
    if s.callers t = .idle then some ({ s with quit := true }.moveCaller t .quitSet) else none
  | .wakeupFrom t =>
    if s.callers t = .idle then none else some (s.wakeup.moveCaller t .idle)

def system (τ φ : Type) [DecidableEq τ] : Lib.System (EventLoop τ φ) (LoopLabel τ φ) where
  init s := s = new
  step := step

def threadStep (s : EventLoop τ φ) : OutsideLabel τ φ → Option (EventLoop τ φ)
  | .inLoop label => s.step label
  | .queueInLoopOutside cb =>
    if s.queueing.isSome || !s.pc.isOutside then none
    else some { s.push cb with queueing := some s.queued.length }

/-- As `system`, with `loop` not the only code that the loop's own thread runs. -/
def threads (τ φ : Type) [DecidableEq τ] : Lib.System (EventLoop τ φ) (OutsideLabel τ φ) where
  init s := s = new
  step := threadStep

end EventLoop

end Agora
