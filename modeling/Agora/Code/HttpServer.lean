import Agora.Code.HttpResponse
import Agora.Code.TcpConnection
import Agora.Lib.Embed

/-!
# One connection of an `HttpServer`

The connection runs on its part of the session; its callbacks are those that `TcpServer` and
`HttpServer` have set. `consumed` and `dispatched` are no fields of a class: they are the history of
the session.
-/

open Agora.Lib

namespace Agora

structure HttpSession where
  conn : TcpConnection
  /-- `conn->getContext()`. -/
  context : Option HttpContext
  /-- Whether `httpCallback_` is set. -/
  httpCallback : Bool
  consumed : List Byte
  /-- Each call of `httpCallback_`: the place in the stream where its request ends, and the request. -/
  dispatched : List (Nat × HttpRequest)

inductive HttpCall
  | sys (q : SysCall)
  | httpCallback (request : HttpRequest)

inductive HttpAnswer
  | sys (r : SysResult)
  /-- The response as the callback leaves it. -/
  | response (r : HttpResponse)

def HttpCall.valid : HttpCall → HttpAnswer → Bool
  | .sys q, .sys r => q.valid r
  | .httpCallback _, .response _ => true
  | _, _ => false

def HttpAnswer.sysResult : HttpAnswer → SysResult
  | .sys r => r
  | .response _ => .error .other

abbrev HttpM := Prog HttpSession HttpCall HttpAnswer Empty Fault

namespace HttpSession

open Prog

/-- The bytes that have arrived. -/
def stream (s : HttpSession) : List Byte := s.consumed ++ s.conn.inputBuffer.readable

def setConn (c : TcpConnection) (s : HttpSession) : HttpSession := { s with conn := c }

/-- The connection's part of the session, with `handler` for its callbacks. -/
def connection (handler : Callback → HttpM Unit) :
    Embedding TcpConnection SysCall SysResult Callback HttpSession HttpCall HttpAnswer Empty Fault :=
  ⟨conn, setConn, .sys, HttpAnswer.sysResult, handler⟩

/-- A call that `HttpServer` makes on the connection. `send` can only call back into
`writeCompleteCallback_`, which an `HttpServer` leaves unset. -/
def onConn {α : Type} (p : ConnM α) : HttpM α := (connection fun _ => pure ()).run p

def setContext (context : HttpContext) : HttpM Unit :=
  modify fun s => { s with context := some context }

def badRequest : List Byte :=
  ascii ['H', 'T', 'T', 'P', '/', '1', '.', '1', ' ', '4', '0', '0', ' ', 'B', 'a', 'd', ' ', 'R', 'e',
    'q', 'u', 'e', 's', 't', '\r', '\n', '\r', '\n']

def notFound : HttpResponse :=
  { HttpResponse.new true with
    statusCode := .k404NotFound
    statusMessage := ascii ['N', 'o', 't', ' ', 'F', 'o', 'u', 'n', 'd'] }

def onConnection : HttpM Unit := do
  let s ← read
  when (s.conn.state = .kConnected) (setContext .new)

/-- What `parseRequest` does to the context and to the input buffer. -/
def parse (context : HttpContext) (s : HttpSession) : HttpSession :=
  let r := context.parseRequest s.conn.inputBuffer
  let taken := s.conn.inputBuffer.readable.length - r.2.1.readable.length
  { s with
    context := some r.1
    conn := { s.conn with inputBuffer := r.2.1 }
    consumed := s.consumed ++ s.conn.inputBuffer.readable.take taken }

/-- The response to a complete request, from `httpCallback_` if it is set. -/
def respond (request : HttpRequest) : HttpM HttpResponse := do
  let s ← read
  if s.httpCallback then
    modify fun s => { s with dispatched := s.dispatched ++ [(s.consumed.length, request)] }
    match ← syscall (.httpCallback request) with
    | .response response => pure response
    | .sys _ => pure notFound
  else pure notFound

/-- `onMessage` once the request is complete. -/
def answer (context : HttpContext) : HttpM Unit := do
  let response ← respond context.request
  let _ ← onConn (TcpConnection.sendBuffer (response.appendToBuffer .new))
  if response.closeConnection then onConn TcpConnection.shutdown
  else setContext context.reset

def onMessage : HttpM Unit := do
  let s ← read
  match s.context with
  | none => fault .nullContext
  | some context =>
    modify (parse context)
    let r := context.parseRequest s.conn.inputBuffer
    when (!r.2.2) do
      onConn (TcpConnection.send badRequest)
      onConn TcpConnection.shutdown
    when r.1.gotAll (answer r.1)

/-- The callbacks of the connection. `closeCallback_` hands the connection over to the server, which
destroys it later. -/
def handler : Callback → HttpM Unit
  | .connection => onConnection
  | .message => onMessage
  | .close => pure ()
  | .writeComplete => pure ()

def onLoop {α : Type} (p : ConnM α) : HttpM α := (connection handler).run p

/-- A new connection, with the callbacks that `TcpServer::newConnection` sets. -/
def new (fd : Nat) (httpCallback : Bool) : HttpSession :=
  ⟨.new fd true true true false, none, httpCallback, [], []⟩

end HttpSession

inductive HttpLabel
  | connectEstablished
  | event (revents : EventMask)
  | connectDestroyed

namespace HttpSession

/-- The poller only reports a channel that is registered. -/
def entry : HttpLabel → HttpSession → Option (HttpM Unit)
  | .connectEstablished, s =>
    if s.conn.state = .kConnecting then some (onLoop TcpConnection.connectEstablished) else none
  | .event revents, s =>
    if s.conn.channel.index = .kAdded then some (onLoop (TcpConnection.entry (.event revents)))
    else none
  | .connectDestroyed, _ => some (onLoop TcpConnection.connectDestroyed)

def machine : Machine Unit HttpSession HttpCall HttpAnswer Empty Fault HttpLabel where
  init s := ∃ fd httpCallback, s = new fd httpCallback
  valid := HttpCall.valid
  thread _ := ()
  idleOnly _ := true
  entry := entry

end HttpSession

end Agora
