import Agora.Buffer
import Agora.Code.Channel
import Agora.Lib.Machine

/-!
# The code of `TcpConnection`

Every function runs on the loop thread of the connection. A callback that is set hands control to
user code, which may call the connection again. `trace` is no field of the class: it is the history
of the connection, for the statements.
-/

open Agora.Lib

namespace Agora

inductive ConnState
  | kDisconnected | kConnecting | kConnected | kDisconnecting
deriving DecidableEq, Repr

inductive Errno
  | again | other
deriving DecidableEq, Repr

/-- The system calls of a connection: a `write` of so many bytes, a `readv` into so much space. -/
inductive SysCall
  | write (len : Nat)
  | readv (space : Nat)
  | getSocketError
deriving DecidableEq, Repr

inductive SysResult
  | count (n : Nat)
  | bytes (data : List Byte)
  | error (e : Errno)
deriving DecidableEq, Repr

/-- What the kernel may answer: a prefix of what it is given, as much as there is space, an error. -/
def SysCall.valid : SysCall → SysResult → Bool
  | .write len, .count n => n ≤ len
  | .readv space, .bytes data => data.length ≤ space
  | .write _, .bytes _ => false
  | .readv _, .count _ => false
  | _, _ => true

inductive Callback
  | connection | message | close | writeComplete
deriving DecidableEq, Repr

inductive ConnEvent
  /-- a payload passed to `send` while the state was `kConnected` -/
  | accepted (payload : List Byte)
  /-- bytes that the kernel took -/
  | written (bytes : List Byte)
  | shutdownWrite
  | connectionCallback (connected : Bool)
  | messageCallback
  | closeCallback
  | writeCompleteCallback
  /-- `connectDestroyed` was entered in this state, and has returned in this state -/
  | destroying (state : ConnState)
  | destroyed (state : ConnState)
deriving DecidableEq, Repr

structure TcpConnection where
  state : ConnState
  channel : Channel
  inputBuffer : WfBuffer
  outputBuffer : WfBuffer
  /-- Whether the callbacks are set. -/
  connectionCallback : Bool
  messageCallback : Bool
  closeCallback : Bool
  writeCompleteCallback : Bool
  trace : List ConnEvent

abbrev ConnM := Prog TcpConnection SysCall SysResult Callback Fault

namespace TcpConnection

open Prog

def new (fd : Nat) (connectionCallback messageCallback closeCallback writeCompleteCallback : Bool) :
    TcpConnection :=
  ⟨.kConnecting, .new fd, .new, .new, connectionCallback, messageCallback, closeCallback,
    writeCompleteCallback, []⟩

def setState (s : ConnState) : ConnM Unit := modify fun c => { c with state := s }
def setChannel (f : Channel → Channel × List EpollCtl) : ConnM Unit :=
  modify fun c => { c with channel := (f c.channel).1 }
def appendOutput (data : List Byte) : ConnM Unit :=
  modify fun c => { c with outputBuffer := c.outputBuffer.append data }
def emit (e : ConnEvent) : ConnM Unit := modify fun c => { c with trace := c.trace ++ [e] }

/-- `::write`: how many bytes the kernel took, or an error. -/
def write (data : List Byte) : ConnM (Option Nat) := do
  match ← syscall (.write data.length) with
  | .count n =>
    emit (.written (data.take n))
    pure (some n)
  | _ => pure none

def shutdownWrite : ConnM Unit := emit .shutdownWrite

def invokeConnectionCallback : ConnM Unit := do
  let c ← read
  when c.connectionCallback do
    emit (.connectionCallback (c.state = .kConnected))
    callback .connection

def invokeCloseCallback : ConnM Unit := do
  let c ← read
  when c.closeCallback do
    emit .closeCallback
    callback .close

def invokeMessageCallback : ConnM Unit := do
  let c ← read
  when c.messageCallback do
    emit .messageCallback
    callback .message

def invokeWriteCompleteCallback : ConnM Unit := do
  emit .writeCompleteCallback
  callback .writeComplete

/-! ## The life of a connection -/

def connectEstablished : ConnM Unit := do
  let c ← read
  assert .assertConnectEstablished (c.state = .kConnecting)
  setState .kConnected
  setChannel Channel.enableReading
  invokeConnectionCallback

def connectDestroyed : ConnM Unit := do
  let c ← read
  emit (.destroying c.state)
  when (c.state = .kConnected) do
    setState .kDisconnected
    setChannel Channel.disableAll
    invokeConnectionCallback
  setChannel Channel.removeChannel
  let c ← read
  emit (.destroyed c.state)

/-! ## Sending -/

def sendInLoop (data : List Byte) : ConnM Unit := do
  let c ← read
  if c.state = .kDisconnected then pure ()
  else if !c.channel.isWriting && c.outputBuffer.readableBytes == 0 then
    match ← write data with
    | some n =>
      let remaining := data.length - n
      if remaining == 0 && c.writeCompleteCallback then
        invokeWriteCompleteCallback
      else when (remaining > 0) do
        appendOutput (data.drop n)
        setChannel Channel.enableWriting
    | none =>
      -- `EAGAIN` and real errors alike: the data waits for the next writable event.
      appendOutput data
      setChannel Channel.enableWriting
  else appendOutput data

def send (message : List Byte) : ConnM Unit := do
  let c ← read
  when (c.state = .kConnected) do
    emit (.accepted message)
    sendInLoop message

/-- The `send(Buffer*)` overload: the user's buffer is emptied when the connection takes it. -/
def sendBuffer (buffer : WfBuffer) : ConnM WfBuffer := do
  let c ← read
  if c.state = .kConnected then
    emit (.accepted buffer.readable)
    sendInLoop (buffer.bytesAtPeek buffer.readableBytes)
    pure buffer.retrieveAll
  else pure buffer

def shutdownInLoop : ConnM Unit := do
  let c ← read
  when (!c.channel.isWriting) shutdownWrite

def shutdown : ConnM Unit := do
  let c ← read
  when (c.state = .kConnected) do
    setState .kDisconnecting
    shutdownInLoop

/-! ## Handlers -/

def handleClose : ConnM Unit := do
  let c ← read
  assert .assertHandleClose (c.state = .kConnected || c.state = .kDisconnecting)
  setState .kDisconnected
  setChannel Channel.disableAll
  invokeConnectionCallback
  invokeCloseCallback

def forceClose : ConnM Unit := do
  let c ← read
  when (c.state = .kConnected || c.state = .kDisconnecting) do
    setState .kDisconnecting
    handleClose

/-- It only asks for the error and logs it. -/
def handleError : ConnM Unit := do
  let _ ← syscall .getSocketError

def handleRead : ConnM Unit := do
  let c ← read
  match ← syscall (.readv c.inputBuffer.readSpace) with
  | .bytes [] => handleClose
  | .bytes data =>
    modify fun c => { c with inputBuffer := c.inputBuffer.readFd (some data) }
    invokeMessageCallback
  | .error .again => pure ()
  | _ => handleError

/-- The end of `handleWrite`: the buffer has been drained. -/
def finishWrite : ConnM Unit := do
  setChannel Channel.disableWriting
  let c ← read
  when c.writeCompleteCallback invokeWriteCompleteCallback
  let c ← read
  when (c.state = .kDisconnecting) shutdownInLoop

def handleWrite : ConnM Unit := do
  let c ← read
  when c.channel.isWriting do
    match ← write c.outputBuffer.writeFd with
    | some n =>
      when (n > 0) do
        modify fun c => { c with outputBuffer := c.outputBuffer.retrieve n }
        let c ← read
        when (c.outputBuffer.readableBytes == 0) finishWrite
    | none => pure ()

/-- `Channel::handleEvent` with the callbacks of a connection. -/
def handleEvent : ConnM Unit := do
  let c ← read
  when (c.channel.revents.epollhup && !c.channel.revents.epollin) handleClose
  let c ← read
  when c.channel.revents.epollerr handleError
  let c ← read
  when (c.channel.revents.epollin || c.channel.revents.epollpri) handleRead
  let c ← read
  when c.channel.revents.epollout handleWrite

end TcpConnection

/-! ## One connection and its users -/

/-- What may be called on a connection: by its owner, by the poller, and by user code. -/
inductive ConnLabel
  | connectEstablished
  | connectDestroyed
  | event (revents : EventMask)
  | send (message : List Byte)
  | sendBuffer (buffer : WfBuffer)
  | shutdown
  | forceClose
  /-- the message callback takes bytes from the buffer it is given -/
  | consume (len : Nat)

namespace TcpConnection

def entry : ConnLabel → ConnM Unit
  | .connectEstablished => connectEstablished
  | .connectDestroyed => connectDestroyed
  | .event revents => do
    Prog.modify fun c => { c with channel := { c.channel with revents := revents } }
    handleEvent
  | .send message => send message
  | .sendBuffer buffer => do let _ ← sendBuffer buffer
  | .shutdown => shutdown
  | .forceClose => forceClose
  | .consume len => Prog.modify fun c => { c with inputBuffer := c.inputBuffer.retrieve len }

/-- Whether the label is the loop's own: no user code calls it. -/
def loopOnly : ConnLabel → Bool
  | .connectEstablished | .event _ => true
  | _ => false

/-- One connection on its loop thread, with any callbacks set. -/
def machine : Machine Unit TcpConnection SysCall SysResult Callback Fault ConnLabel where
  init c := ∃ fd a b d e, c = new fd a b d e
  valid := SysCall.valid
  thread _ := ()
  idleOnly := loopOnly
  entry label _ := some (entry label)

end TcpConnection

end Agora
