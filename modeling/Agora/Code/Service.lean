import Agora.Code.Acceptor
import Agora.Server.Rules

/-!
# A `TcpServer` whose callbacks are code

An application is the code that a user has set as callbacks, with the context that it keeps for each
connection. The session of a connection is the connection with that context.
-/

open Agora.Lib

namespace Agora

/-- `S` are the sessions, `Q` and `ι` the system calls of a session and their results. -/
structure Application (S Q ι : Type) where
  /-- The connection in its session, and the callbacks of the user. -/
  part : Embedding TcpConnection SysCall SysResult Callback S Q ι Empty Fault
  lawful : part.Lawful
  /-- `closeCallback_` is the server's own. -/
  close : part.handler .close = pure ()
  blank : S
  connectionCallback : Bool
  messageCallback : Bool
  writeCompleteCallback : Bool
  valid : Q → ι → Bool

variable {S Q ι : Type}

/-- The connection that `newConnection` makes. -/
def Application.newConn (A : Application S Q ι) (sockfd : Nat) : TcpConnection :=
  .new sockfd A.connectionCallback A.messageCallback true A.writeCompleteCallback

/-- What the loop of a connection calls. -/
inductive SessionLabel
  | connectEstablished
  | event (revents : EventMask)
  | connectDestroyed

namespace Application

/-- The poller only reports a channel that is registered. -/
def entry (A : Application S Q ι) : SessionLabel → S → Option (Prog S Q ι Empty Fault Unit)
  | .connectEstablished, t =>
    if (A.part.view t).state = .kConnecting then some (A.part.run TcpConnection.connectEstablished) else none
  | .event revents, t =>
    if (A.part.view t).channel.index = .kAdded then some (A.part.run (TcpConnection.entry (.event revents)))
    else none
  | .connectDestroyed, _ => some (A.part.run TcpConnection.connectDestroyed)

/-- One session on its loop thread. -/
def machine (A : Application S Q ι) : Machine Unit S Q ι Empty Fault SessionLabel where
  init t := ∃ sockfd, t = A.part.put (A.newConn sockfd) A.blank
  valid := A.valid
  thread _ := ()
  idleOnly _ := true
  entry := A.entry

end Application

/-- The server, and the session of each of its connections. -/
@[ext] structure Service (A : Application S Q ι) (τ : Type) where
  server : TcpServer τ
  sessions : Nat → S
  synced : ∀ i, A.part.view (sessions i) = server.conns i

/-- A system call, for the session `i`. -/
abbrev ServiceM (A : Application S Q ι) (τ : Type) := Prog (Service A τ) (Nat × Q) ι Empty Fault

namespace Service

open Prog

variable {A : Application S Q ι} {τ : Type}

def new (A : Application S Q ι) (loop : τ) (loops : List τ) : Service A τ where
  server := .new loop loops A.connectionCallback A.messageCallback A.writeCompleteCallback
  sessions _ := A.part.put (.new 0 false false false false) A.blank
  synced _ := A.lawful.view_put _ _

def setServer (server : TcpServer τ) (s : Service A τ) : Service A τ where
  server := server
  sessions i := A.part.put (server.conns i) (s.sessions i)
  synced _ := A.lawful.view_put _ _

def setSession (i : Nat) (t : S) (s : Service A τ) : Service A τ where
  server := TcpServer.setConn i (A.part.view t) s.server
  sessions := Function.update s.sessions i t
  synced j := by
    rcases eq_or_ne j i with rfl | hne
    · rw [Function.update_self, TcpServer.setConn_self]
    · rw [Function.update_of_ne hne, TcpServer.setConn_other hne]
      exact s.synced j

/-- The callbacks run on their session. -/
def sessionPart (A : Application S Q ι) (τ : Type) (i : Nat) :
    Embedding S Q ι Empty (Service A τ) (Nat × Q) ι Empty Fault :=
  ⟨fun s => s.sessions i, setSession i, fun q => (i, q), id, Empty.elim⟩

def serverPart (A : Application S Q ι) (τ : Type) :
    Embedding (TcpServer τ) ServerCall SysResult (Nat × Callback) (Service A τ) (Nat × Q) ι Empty Fault :=
  ⟨server, setServer, fun q => (q.1, A.part.lift q.2), A.part.back,
    fun u => (sessionPart A τ u.1).run (A.part.handler u.2)⟩

end Service

inductive ServiceLabel (τ : Type)
  /-- The listening socket is readable, and `accept4` gives these descriptors until it fails. -/
  | accept (connfds : List Nat) (errno : AcceptErrno)
  | functor (me : τ)
  | event (me : τ) (i : Nat) (revents : EventMask)
  | destroy (entries : List Nat)

namespace Service

open Prog

variable {A : Application S Q ι} {τ : Type} [DecidableEq τ]

/-- The program of the server for a label. The poller only reports a channel that is registered. -/
def serverEntry : ServiceLabel τ → TcpServer τ → Option (ServerM τ Unit)
  | .accept connfds errno, s =>
    if s.phase = .running then
      some (Acceptor.handleRead (some (TcpServer.newConnection s.loop)) (fun _ => pure ()) errno connfds)
    else none
  | .functor me, s => TcpServer.entry (.functor me) s
  | .event me i revents, s =>
    if (s.conns i).channel.index = .kAdded then TcpServer.entry (.conn me i (.event revents)) s else none
  | .destroy entries, s => TcpServer.entry (.destroy s.loop entries) s

def entry (label : ServiceLabel τ) (s : Service A τ) : Option (ServiceM A τ Unit) :=
  (serverEntry label s.server).map (serverPart A τ).run

def machine (A : Application S Q ι) (τ : Type) [DecidableEq τ] :
    Machine Unit (Service A τ) (Nat × Q) ι Empty Fault (ServiceLabel τ) where
  init s := ∃ loop loops, s = new A loop loops
  valid q a := A.valid q.2 a
  thread _ := ()
  idleOnly _ := true
  entry := entry

end Service

end Agora
