import Agora.Code.EventLoop

/-!
# The code of `EventLoopThread`, and the threads around its loop

The owner is the thread `none` of the loop, the others are `some t`. One step is one access to what
they share. The init callback of the thread does not touch the loop.
-/

namespace Agora

/-- Where the thread is in `threadFunc`. -/
inductive WorkerPc
  | absent
  | constructing
  /-- `loop_` is set, and `loop` is not called yet. -/
  | published
  | looping
  | returned
  | cleared
  | exited
  deriving DecidableEq

/-- Where the owner is in `startLoop` and in the destructor. -/
inductive OwnerPc
  | outside
  | waiting
  | started
  /-- It has read `loop_`, and is at `loop_->quit()`. -/
  | quitting
  | waking
  | joining
  | joined
  /-- It has called a loop that does not exist any more. -/
  | crashed
  deriving DecidableEq

structure EventLoopThread (τ φ : Type) where
  loop : EventLoop (Option τ) φ
  loop_ : Bool
  worker : WorkerPc
  owner : OwnerPc
  /-- The destructor has set `quit_`. -/
  quitSet : Bool

inductive ThreadLabel (τ φ : Type)
  | startLoop
  | startedLoop
  | publish
  /-- A step in the code of the loop: of the worker, or of a thread that calls it. -/
  | loop (label : LoopLabel (Option τ) φ)
  | clear
  | exit
  /-- `~EventLoopThread` reads `loop_`. -/
  | destroy
  | quit
  | wakeup
  | join

namespace EventLoopThread

variable {τ φ : Type}

def new : EventLoopThread τ φ := ⟨.new, false, .absent, .outside, false⟩

/-- The thread that takes the step is there, and has the loop. -/
def mayStep (s : EventLoopThread τ φ) : LoopLabel (Option τ) φ → Bool
  | .advance _ => s.worker = .published || s.worker = .looping
  | .queueInLoop _ | .wakeupIfCalling | .quit => s.worker = .looping
  | .queueInLoopFrom none _ | .quitFrom none | .wakeupFrom none =>
    s.owner = .started && s.worker ≠ .exited
  | .queueInLoopFrom (some _) _ | .quitFrom (some _) | .wakeupFrom (some _) =>
    s.worker ≠ .absent && s.worker ≠ .constructing && s.worker ≠ .exited

def afterLoop (s : EventLoopThread τ φ) : LoopLabel (Option τ) φ → WorkerPc
  | .advance _ => if s.loop.pc.isLeaving then .returned else .looping
  | _ => s.worker

variable [DecidableEq τ]

def step (s : EventLoopThread τ φ) : ThreadLabel τ φ → Option (EventLoopThread τ φ)
  | .startLoop =>
    if s.owner = .outside then some { s with worker := .constructing, owner := .waiting } else none
  | .startedLoop => if s.owner = .waiting && s.loop_ then some { s with owner := .started } else none
  | .publish =>
    if s.worker = .constructing then some { s with loop_ := true, worker := .published } else none
  | .loop label =>
    if s.mayStep label then
      (s.loop.step label).map fun loop => { s with loop := loop, worker := s.afterLoop label }
    else none
  | .clear => if s.worker = .returned then some { s with loop_ := false, worker := .cleared } else none
  | .exit => if s.worker = .cleared then some { s with worker := .exited } else none
  | .destroy =>
    if s.owner = .outside then some { s with owner := .joined }
    else if s.owner = .started ∧ s.loop.callers none = .idle then
      some { s with owner := if s.loop_ then .quitting else .joining }
    else none
  | .quit =>
    if s.owner ≠ .quitting then none
    else if s.worker = .exited then some { s with owner := .crashed }
    else (s.loop.step (.quitFrom none)).map fun loop =>
      { s with loop := loop, owner := .waking, quitSet := true }
  | .wakeup =>
    if s.owner ≠ .waking then none
    else if s.worker = .exited then some { s with owner := .crashed }
    else (s.loop.step (.wakeupFrom none)).map fun loop => { s with loop := loop, owner := .joining }
  | .join => if s.owner = .joining ∧ s.worker = .exited then some { s with owner := .joined } else none

def system (τ φ : Type) [DecidableEq τ] : Lib.System (EventLoopThread τ φ) (ThreadLabel τ φ) where
  init s := s = new
  step := step

end EventLoopThread

end Agora
