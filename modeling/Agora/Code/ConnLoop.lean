import Agora.Code.TcpConnection
import Agora.Lib.Embed

/-!
# The connections of one event loop

`poll` reports a batch of channels, and the loop handles them one after the other. User code runs in
the callbacks, in the handlers of other channels and in functors, and may call any connection.
`TcpServer::removeConnection` and `TcpClient::removeConnection` end in a `connectDestroyed` that is
queued on the loop.
-/

open Agora.Lib

namespace Agora

structure ConnLoop where
  conns : Nat → TcpConnection
  /-- What is left of `activeChannels_`. -/
  active : List Nat
  /-- The connections whose `connectDestroyed` is queued. -/
  closing : List Nat

abbrev LoopM := Prog ConnLoop SysCall SysResult (Nat × Callback) Fault

namespace ConnLoop

open Prog

def setConn (i : Nat) (c : TcpConnection) (s : ConnLoop) : ConnLoop :=
  { s with conns := Function.update s.conns i c }

def handler (i : Nat) : Callback → LoopM Unit
  | .close => modify fun s => { s with closing := s.closing ++ [i] }
  | u => callback (i, u)

def connection (i : Nat) :
    Embedding TcpConnection SysCall SysResult Callback ConnLoop SysCall SysResult (Nat × Callback)
      Fault :=
  ⟨fun s => s.conns i, setConn i, id, id, handler i⟩

/-- A function of connection `i`. -/
def onConn {α : Type} (i : Nat) (p : ConnM α) : LoopM α := (connection i).run p

/-- What `EPollPoller::poll` leaves in the channels and in `activeChannels_`. -/
def fillActiveChannels (events : List (Nat × EventMask)) (s : ConnLoop) : ConnLoop :=
  { s with
    conns := fun i => match events.lookup i with
      | some revents =>
        { s.conns i with channel := { (s.conns i).channel with revents := revents } }
      | none => s.conns i
    active := events.map Prod.fst }

end ConnLoop

inductive ConnLoopLabel
  | connectEstablished (i : Nat)
  | poll (events : List (Nat × EventMask))
  | handleEvent
  | connectDestroyed (i : Nat)
  | send (i : Nat) (message : List Byte)
  | sendBuffer (i : Nat) (buffer : WfBuffer)
  | shutdown (i : Nat)
  | forceClose (i : Nat)
  | consume (i : Nat) (len : Nat)

namespace ConnLoop

open Prog

/-- The functors wait until the batch is handled. -/
def entry : ConnLoopLabel → ConnLoop → Option (LoopM Unit)
  | .connectEstablished i, s =>
    if (s.conns i).state = .kConnecting then some (onConn i TcpConnection.connectEstablished) else none
  | .poll events, s =>
    if s.active = [] ∧ (events.map Prod.fst).Nodup ∧
        ∀ e ∈ events, (s.conns e.1).channel.index = .kAdded then
      some (modify (fillActiveChannels events))
    else none
  | .handleEvent, s =>
    match s.active with
    | [] => none
    | i :: rest => some do
      modify fun s => { s with active := rest }
      onConn i TcpConnection.handleEvent
  | .connectDestroyed i, s =>
    if s.active = [] ∧ i ∈ s.closing then some do
      modify fun s => { s with closing := s.closing.erase i }
      onConn i TcpConnection.connectDestroyed
    else none
  | .send i message, _ => some (onConn i (TcpConnection.entry (.send message)))
  | .sendBuffer i buffer, _ => some (onConn i (TcpConnection.entry (.sendBuffer buffer)))
  | .shutdown i, _ => some (onConn i (TcpConnection.entry .shutdown))
  | .forceClose i, _ => some (onConn i (TcpConnection.entry .forceClose))
  | .consume i len, _ => some (onConn i (TcpConnection.entry (.consume len)))

def loopOnly : ConnLoopLabel → Bool
  | .connectEstablished _ | .poll _ | .handleEvent | .connectDestroyed _ => true
  | _ => false

def machine : Machine Unit ConnLoop SysCall SysResult (Nat × Callback) Fault ConnLoopLabel where
  init s := (∀ i, ∃ fd a b d e, s.conns i = .new fd a b d e) ∧ s.active = [] ∧ s.closing = []
  valid := SysCall.valid
  thread _ := ()
  idleOnly := loopOnly
  entry := entry

end ConnLoop

end Agora
