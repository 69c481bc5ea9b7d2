import Agora.Code.TcpConnection
import Agora.Lib.Embed

/-!
# The code of `TcpServer`, and the loops it uses

A thread is known by its loop. The connections are numbered as their names are. Each loop has its
functors in one queue; what a batch of them has taken is the front of it.
-/

open Agora.Lib

namespace Agora

variable {τ : Type}

inductive ServerFunctor
  | connectEstablished (i : Nat)
  | connectDestroyed (i : Nat)
  | removeConnectionInLoop (i : Nat)
deriving DecidableEq, Repr

/-- What the functions of the server do, and on which thread those of its connections run. -/
inductive ServerEvent (τ : Type)
  | connectEstablished (i : Nat) (t : τ)
  | connectDestroyed (i : Nat) (t : τ)
  | removeConnection (i : Nat)
  | removeConnectionInLoop (i : Nat)
  | destructing
deriving DecidableEq, Repr

inductive ServerPhase
  | running
  | destructing
  | destroyed
deriving DecidableEq, Repr

structure TcpServer (τ : Type) where
  loop : τ
  /-- `loops_` of the thread pool -/
  loops : List τ
  next : Nat
  nextConnId : Nat
  conns : Nat → TcpConnection
  /-- `getLoop()` of each connection -/
  loopOf : Nat → τ
  /-- The entries of `connections_` that hold a connection. -/
  connections : List Nat
  connectionCallback : Bool
  messageCallback : Bool
  writeCompleteCallback : Bool
  queue : τ → List ServerFunctor
  phase : ServerPhase
  trace : List (ServerEvent τ)

/-- A system call, for the connection `i`. -/
abbrev ServerCall := Nat × SysCall

abbrev ServerM (τ : Type) := Prog (TcpServer τ) ServerCall SysResult (Nat × Callback) Fault

namespace TcpServer

open Prog

def new (loop : τ) (loops : List τ) (connectionCallback messageCallback writeCompleteCallback : Bool) :
    TcpServer τ :=
  ⟨loop, loops, 0, 1, fun _ => .new 0 false false false false, fun _ => loop, [], connectionCallback,
    messageCallback, writeCompleteCallback, fun _ => [], .running, []⟩

def emit (e : ServerEvent τ) : ServerM τ Unit := modify fun s => { s with trace := s.trace ++ [e] }

/-- `EventLoopThreadPool::getNextLoop`: the loop, and `next_` afterwards. -/
def getNextLoop (s : TcpServer τ) : τ × Nat :=
  match s.loops with
  | [] => (s.loop, s.next)
  | _ :: _ => (s.loops.getD s.next s.loop, if s.next + 1 ≥ s.loops.length then 0 else s.next + 1)

def setConn (i : Nat) (c : TcpConnection) (s : TcpServer τ) : TcpServer τ :=
  { s with conns := Function.update s.conns i c }

def connPart (i : Nat) (handler : Callback → ServerM τ Unit) :
    Embedding TcpConnection SysCall SysResult Callback (TcpServer τ) ServerCall SysResult
      (Nat × Callback) Fault :=
  ⟨fun s => s.conns i, setConn i, fun q => (i, q), id, handler⟩

variable [DecidableEq τ]

def queueInLoop (t : τ) (f : ServerFunctor) : ServerM τ Unit :=
  modify fun s => { s with queue := Function.update s.queue t (s.queue t ++ [f]) }

/-- On the server's thread, also from a callback that the destructor makes. -/
def removeConnectionInLoop (i : Nat) : ServerM τ Unit := do
  emit (.removeConnectionInLoop i)
  let s ← read
  assert .destroyedServer (s.phase ≠ .destroyed)
  modify fun s => { s with connections := s.connections.erase i }
  queueInLoop (s.loopOf i) (.connectDestroyed i)

/-- On thread `me`. The threads of the pool are joined before the memory of the server is gone. -/
def removeConnection (me : τ) (i : Nat) : ServerM τ Unit := do
  emit (.removeConnection i)
  let s ← read
  assert .destroyedServer (s.phase ≠ .destroyed || s.loop ≠ me)
  if s.loop = me then removeConnectionInLoop i
  else queueInLoop s.loop (.removeConnectionInLoop i)

def handler (me : τ) (i : Nat) : Callback → ServerM τ Unit
  | .close => removeConnection me i
  | u => callback (i, u)

/-- A function of connection `i` on thread `me`, with the callbacks that `newConnection` sets. -/
def onConn {α : Type} (me : τ) (i : Nat) (p : ConnM α) : ServerM τ α := (connPart i (handler me i)).run p

def connectEstablished (me : τ) (i : Nat) : ServerM τ Unit := do
  emit (.connectEstablished i me)
  onConn me i TcpConnection.connectEstablished

def connectDestroyed (me : τ) (i : Nat) : ServerM τ Unit := do
  emit (.connectDestroyed i me)
  onConn me i TcpConnection.connectDestroyed

def newConnection (me : τ) (sockfd : Nat) : ServerM τ Unit := do
  let s ← read
  let i := s.nextConnId
  let (ioLoop, next) := s.getNextLoop
  modify fun s => { s with
    next := next
    nextConnId := i + 1
    conns := Function.update s.conns i
      (.new sockfd s.connectionCallback s.messageCallback true s.writeCompleteCallback)
    loopOf := Function.update s.loopOf i ioLoop
    connections := s.connections ++ [i] }
  if ioLoop = me then connectEstablished me i else queueInLoop ioLoop (.connectEstablished i)

/-- The loop of the destructor, over the entries that are left. A callback may have erased some of them. -/
def destroyConnections (me : τ) : List Nat → ServerM τ Unit
  | [] => pure ()
  | i :: rest => do
    let s ← read
    when (i ∈ s.connections) do
      modify fun s => { s with connections := s.connections.erase i }
      if s.loopOf i = me then connectDestroyed me i
      else queueInLoop (s.loopOf i) (.connectDestroyed i)
    destroyConnections me rest

/-- `~TcpServer`, with the entries of `connections_` in the order of the map. The body is over in phase
`destroyed`, in which the threads of the pool may still run until they are joined. -/
def destroy (me : τ) (entries : List Nat) : ServerM τ Unit := do
  emit .destructing
  modify fun s => { s with phase := .destructing }
  destroyConnections me entries
  modify fun s => { s with phase := .destroyed }

def runFunctor (me : τ) : ServerFunctor → ServerM τ Unit
  | .connectEstablished i => connectEstablished me i
  | .connectDestroyed i => connectDestroyed me i
  | .removeConnectionInLoop i => removeConnectionInLoop i

end TcpServer

/-! ## A server, its loops and its users -/

inductive ServerLabel (τ : Type)
  | newConnection (me : τ) (sockfd : Nat)
  /-- The loop calls the next functor of its queue. -/
  | functor (me : τ)
  /-- A call on a connection: of its loop, or of a user. -/
  | conn (me : τ) (i : Nat) (label : ConnLabel)
  | destroy (me : τ) (entries : List Nat)

namespace TcpServer

open Prog

variable [DecidableEq τ]

/-- A batch of `poll` may hold an event of a connection that has been closed since. -/
def entry : ServerLabel τ → TcpServer τ → Option (ServerM τ Unit)
  | .newConnection me sockfd, s =>
    if me = s.loop ∧ s.phase = .running then some (newConnection me sockfd) else none
  | .functor me, s =>
    match s.queue me with
    | [] => none
    | f :: rest => some do
      modify fun s => { s with queue := Function.update s.queue me rest }
      runFunctor me f
  | .conn _ _ .connectEstablished, _ | .conn _ _ .connectDestroyed, _ => none
  | .conn me i label, s =>
    if i < s.nextConnId ∧ s.loopOf i = me ∧ (s.conns i).state ≠ .kConnecting then
      some (onConn me i (TcpConnection.entry label))
    else none
  | .destroy me entries, s =>
    if me = s.loop ∧ s.phase = .running ∧ entries.Perm s.connections then some (destroy me entries)
    else none

/-- Whether only the loop takes the step, between the calls of user code. -/
def loopOnly : ServerLabel τ → Bool
  | .newConnection _ _ | .functor _ | .conn _ _ (.event _) => true
  | _ => false

def ServerLabel.thread : ServerLabel τ → τ
  | .newConnection me _ | .functor me | .conn me _ _ | .destroy me _ => me

def machine (τ : Type) [DecidableEq τ] :
    Machine τ (TcpServer τ) ServerCall SysResult (Nat × Callback) Fault (ServerLabel τ) where
  init s := ∃ loop loops a b c, s = new loop loops a b c
  valid q a := q.2.valid a
  thread := ServerLabel.thread
  idleOnly := loopOnly
  entry := entry

end TcpServer

end Agora
