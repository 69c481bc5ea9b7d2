import Agora.Code.HttpServer
import Agora.Code.Service
import Agora.Code.StaticFileServer

/-! # The programs that the repository builds on its library -/

open Agora.Lib

namespace Agora

/-! ## `HttpServer` -/

namespace HttpServer

/-- The callbacks that the constructor sets, with or without `httpCallback_`. -/
def application (httpCallback : Bool) : Application HttpSession HttpCall HttpAnswer where
  part := HttpSession.connection HttpSession.handler
  lawful := ⟨fun _ _ => rfl, fun _ _ _ => rfl, fun _ => rfl⟩
  close := rfl
  blank := .new 0 httpCallback
  connectionCallback := true
  messageCallback := true
  writeCompleteCallback := false
  valid := HttpCall.valid

end HttpServer

/-- What `httpCallback_` makes of a request: the response that it may leave. -/
abbrev HttpCallback := HttpRequest → HttpResponse → Prop

namespace Main

/-- The lambda of `main.cpp`. -/
def onRequest (req : HttpRequest) (resp : HttpResponse) : HttpResponse :=
  if req.path = ascii "/".toList then
    let resp := resp.setStatusCode .k200Ok
    let resp := resp.setStatusMessage (ascii "OK".toList)
    let resp := resp.setContentType (ascii "text/html".toList)
    resp.setBody (ascii "<h1>Hello, AgoraIM!</h1>".toList)
  else if req.path = ascii "/hello".toList then
    let resp := resp.setStatusCode .k200Ok
    let resp := resp.setStatusMessage (ascii "OK".toList)
    let resp := resp.setContentType (ascii "text/plain".toList)
    resp.setBody (ascii "Hello, World!".toList)
  else
    let resp := resp.setStatusCode .k404NotFound
    let resp := resp.setStatusMessage (ascii "Not Found".toList)
    resp.setBody (ascii "404 Not Found".toList)

def httpCallback : HttpCallback := fun req resp => resp = onRequest req (.new true)

end Main

/-- Each request finds the files as they are at that time, in one of the states of `disk`. -/
def StaticFileServer.httpCallback (s : StaticFileServer) (disk : Files → Prop) : HttpCallback := fun req resp =>
  ∃ files, disk files ∧ (s.onRequest files req (.new true)).response = some resp

/-! ## The echo examples -/

/-- A connection whose user keeps no context. `globals` are the variables of the program, and `consumed` is the
history of what its message callback has taken from the buffer. -/
structure PlainSession (γ : Type) where
  conn : TcpConnection
  globals : γ
  consumed : List Byte

abbrev PlainM (γ : Type) := Prog (PlainSession γ) SysCall SysResult Empty Fault

namespace PlainSession

open Prog

variable {γ : Type}

/-- The bytes that have arrived. -/
def arrived (s : PlainSession γ) : List Byte := s.consumed ++ s.conn.inputBuffer.readable

def setConn (c : TcpConnection) (s : PlainSession γ) : PlainSession γ := { s with conn := c }

def connection (handler : Callback → PlainM γ Unit) :
    Embedding TcpConnection SysCall SysResult Callback (PlainSession γ) SysCall SysResult Empty Fault :=
  ⟨conn, setConn, id, id, handler⟩

/-- A call that a callback makes on the connection. `send` can only call back into
`writeCompleteCallback_`, which is not set. -/
def onConn {α : Type} (p : ConnM α) : PlainM γ α := (connection fun _ => pure ()).run p

/-- `retrieveAllAsString` on the input buffer. -/
def retrieveAllAsString : PlainM γ (List Byte) := do
  let s ← read
  let len := s.conn.inputBuffer.readableBytes
  let msg := s.conn.inputBuffer.bytesAtPeek len
  modify fun s => { s with
    conn := { s.conn with inputBuffer := s.conn.inputBuffer.retrieve len }
    consumed := s.consumed ++ msg }
  pure msg

/-- The user sets the callbacks for connections and messages. -/
def application (handler : Callback → PlainM γ Unit) (close : handler .close = pure ()) (globals : γ) :
    Application (PlainSession γ) SysCall SysResult where
  part := connection handler
  lawful := ⟨fun _ _ => rfl, fun _ _ _ => rfl, fun _ => rfl⟩
  close := close
  blank := ⟨.new 0 true true true false, globals, []⟩
  connectionCallback := true
  messageCallback := true
  writeCompleteCallback := false
  valid := SysCall.valid

end PlainSession

open Prog PlainSession

namespace EchoServer

def onMessage : PlainM Unit Unit := do
  let msg ← retrieveAllAsString
  onConn (TcpConnection.send msg)

/-- `onConnection` only logs. -/
def handler : Callback → PlainM Unit Unit
  | .message => onMessage
  | .connection | .close | .writeComplete => pure ()

def application : Application (PlainSession Unit) SysCall SysResult :=
  PlainSession.application handler rfl ()

end EchoServer

namespace EchoClient

def hello : List Byte := ascii "Hello from EchoClient!\n".toList

def message (count : Nat) : List Byte := ascii "Message ".toList ++ stdToString count ++ ascii ['\n']

def onConnection : PlainM Nat Unit := do
  let s ← read
  when (s.conn.state = .kConnected) (onConn (TcpConnection.send hello))

/-- The global is the static `count`. -/
def onMessage : PlainM Nat Unit := do
  let _ ← retrieveAllAsString
  modify fun s => { s with globals := s.globals + 1 }
  let s ← read
  if s.globals < 3 then onConn (TcpConnection.send (message s.globals))
  else onConn TcpConnection.shutdown

def handler : Callback → PlainM Nat Unit
  | .connection => onConnection
  | .message => onMessage
  | .close | .writeComplete => pure ()

def application : Application (PlainSession Nat) SysCall SysResult :=
  PlainSession.application handler rfl 0

end EchoClient

end Agora
