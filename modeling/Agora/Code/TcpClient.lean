import Agora.Code.Connector
import Agora.Code.TcpConnection
import Agora.Lib.Embed

/-!
# The code of `TcpClient`

The connections are numbered as they are made. The connector runs on its part of the client, and its
loop is the loop of the client; the `connectDestroyed` that are queued on it stand apart. Where they
stand among the functors of the connector is left open.
-/

open Agora.Lib

namespace Agora

inductive ClientEvent
  | connect
  | stop
  /-- `newConnection` is called while `connection_` is this. -/
  | newConnection (sockfd : Nat) (connection : Option Nat)
  | removeConnection (i : Nat) (connection : Option Nat)
deriving DecidableEq, Repr

structure TcpClient where
  connector : Connector
  conns : Nat → TcpConnection
  /-- How many connections have been made. -/
  made : Nat
  connection : Option Nat
  connectionCallback : Bool
  messageCallback : Bool
  writeCompleteCallback : Bool
  retry : Bool
  connect_ : Bool
  /-- The connections whose `connectDestroyed` is queued. -/
  closing : List Nat
  alive : Bool
  trace : List ClientEvent

inductive ClientCall
  | connector (q : ConnectorCall)
  | conn (q : SysCall)

inductive ClientAnswer
  | errno (err : Nat)
  | conn (r : SysResult)

def ClientCall.valid : ClientCall → ClientAnswer → Bool
  | .connector _, .errno _ => true
  | .conn q, .conn r => q.valid r
  | _, _ => false

def ClientAnswer.connectorResult : ClientAnswer → Nat
  | .errno err => err
  | .conn _ => 0

def ClientAnswer.connResult : ClientAnswer → SysResult
  | .conn r => r
  | .errno _ => .error .other

abbrev ClientM := Prog TcpClient ClientCall ClientAnswer (Nat × Callback) Fault

namespace TcpClient

open Prog

def new (connectionCallback messageCallback writeCompleteCallback : Bool) : TcpClient :=
  ⟨.new true, fun _ => .new 0 false false false false, 0, none, connectionCallback, messageCallback,
    writeCompleteCallback, false, false, [], true, []⟩

def emit (e : ClientEvent) : ClientM Unit := modify fun s => { s with trace := s.trace ++ [e] }

def setConnector (k : Connector) (s : TcpClient) : TcpClient := { s with connector := k }

def setConn (i : Nat) (c : TcpConnection) (s : TcpClient) : TcpClient :=
  { s with conns := Function.update s.conns i c }

/-- The connector's part of the client, with `handler` for its `newConnectionCallback_`. -/
def connectorPart (handler : Nat → ClientM Unit) :
    Embedding Connector ConnectorCall Nat Nat TcpClient ClientCall ClientAnswer (Nat × Callback) Fault :=
  ⟨connector, setConnector, .connector, ClientAnswer.connectorResult, handler⟩

def connPart (i : Nat) (handler : Callback → ClientM Unit) :
    Embedding TcpConnection SysCall SysResult Callback TcpClient ClientCall ClientAnswer
      (Nat × Callback) Fault :=
  ⟨fun s => s.conns i, setConn i, .conn, ClientAnswer.connResult, handler⟩

/-- `connector_->restart()`, which does not get as far as `newConnectionCallback_`. -/
def restartConnector : ClientM Unit := (connectorPart fun _ => pure ()).run Connector.restart

def removeConnection (i : Nat) : ClientM Unit := do
  let s ← read
  emit (.removeConnection i s.connection)
  assert .assertRemoveConnection (s.connection = some i)
  modify fun s => { s with connection := none, closing := s.closing ++ [i] }
  when (s.retry && s.connect_) restartConnector

def handler (i : Nat) : Callback → ClientM Unit
  | .close => removeConnection i
  | u => callback (i, u)

/-- A function of connection `i`, with the callbacks that `newConnection` sets. -/
def onConn {α : Type} (i : Nat) (p : ConnM α) : ClientM α := (connPart i (handler i)).run p

def newConnection (sockfd : Nat) : ClientM Unit := do
  let s ← read
  emit (.newConnection sockfd s.connection)
  modify fun s => { s with
    conns := Function.update s.conns s.made
      (.new sockfd s.connectionCallback s.messageCallback true s.writeCompleteCallback)
    made := s.made + 1
    connection := some s.made }
  onConn s.made TcpConnection.connectEstablished

/-- A function of the connector, with the callback that the constructor sets. -/
def onConnector {α : Type} (p : ConnectorM α) : ClientM α := (connectorPart newConnection).run p

def connect : ClientM Unit := do
  emit .connect
  modify fun s => { s with connect_ := true }
  onConnector Connector.start

/-- `connect` from another thread. -/
def connectElsewhere : ClientM Unit := do
  emit .connect
  modify fun s => { s with connect_ := true }
  onConnector Connector.startElsewhere

def disconnect : ClientM Unit := do
  modify fun s => { s with connect_ := false }
  let s ← read
  match s.connection with
  | some i => onConn i TcpConnection.shutdown
  | none => pure ()

def stop : ClientM Unit := do
  emit .stop
  modify fun s => { s with connect_ := false }
  onConnector Connector.stop

def setCloseCallback (i : Nat) (set : Bool) : ClientM Unit :=
  modify fun s => setConn i { s.conns i with closeCallback := set } s

/-- `~Connector`, when the client has released it. -/
def destroyConnector : ClientM Unit := do
  let s ← read
  assert .assertConnector (s.connector.channel.all Channel.isNoneEvent)

/-- `~TcpClient` -/
def destroy : ClientM Unit := do
  onConnector Connector.stop
  let s ← read
  match s.connection with
  | some i =>
    modify fun s => { s with connection := none }
    setCloseCallback i false
    modify fun s => { s with closing := s.closing ++ [i] }
  | none => pure ()
  modify fun s => { s with alive := false }
  destroyConnector

end TcpClient

/-! ## A client, its loop and its users -/

inductive ClientLabel
  | connect
  | connectElsewhere
  | disconnect
  | stop
  /-- `enableRetry` and `disableRetry` -/
  | setRetry (retry : Bool)
  /-- A step of the loop for the connector. -/
  | connector (label : ConnectorLabel)
  /-- A call on a connection: of the loop, or of a user. -/
  | conn (i : Nat) (label : ConnLabel)
  | destroy

namespace TcpClient

open Prog

/-- Whether the loop calls the connector, or touches its channel. -/
def callsConnector : ConnectorLabel → Bool
  | .poll events => !events.isEmpty
  | .doPendingFunctors => false
  | _ => true

/-- Nobody calls a client that is destroyed. What the loop still has of its connector is called. A batch
of `poll` may hold an event of a connection that has been closed since. -/
def entry : ClientLabel → TcpClient → Option (ClientM Unit)
  | .connect, s => if s.alive then some connect else none
  | .connectElsewhere, s => if s.alive then some connectElsewhere else none
  | .disconnect, s => if s.alive then some disconnect else none
  | .stop, s => if s.alive then some stop else none
  | .setRetry retry, s => if s.alive then some (modify fun s => { s with retry := retry }) else none
  | .connector label, s =>
    if Connector.loopOnly label then
      (Connector.entry label s.connector).map fun p =>
        if s.alive || !callsConnector label then onConnector p else fault .destroyedConnector
    else none
  | .conn _ .connectEstablished, _ => none
  | .conn i .connectDestroyed, s =>
    if i ∈ s.closing then some do
      modify fun s => { s with closing := s.closing.erase i }
      onConn i TcpConnection.connectDestroyed
    else none
  | .conn i label, s => if i < s.made then some (onConn i (TcpConnection.entry label)) else none
  | .destroy, s => if s.alive then some destroy else none

/-- Whether only the loop takes the step, between the calls of user code. -/
def loopOnly : ClientLabel → Bool
  | .connector _ | .conn _ .connectDestroyed | .conn _ (.event _) => true
  | _ => false

def machine : Machine Unit TcpClient ClientCall ClientAnswer (Nat × Callback) Fault ClientLabel where
  init s := ∃ a b c, s = new a b c
  valid := ClientCall.valid
  thread _ := ()
  idleOnly := loopOnly
  entry := entry

end TcpClient

end Agora
