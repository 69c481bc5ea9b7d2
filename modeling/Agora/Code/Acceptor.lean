import Agora.Code.Channel
import Agora.Lib.Prog

/-! # The code of `Acceptor` -/

open Agora.Lib

namespace Agora

/-- Why `accept4` fails. -/
inductive AcceptErrno
  | EAGAIN | ECONNABORTED | EINTR | EPROTO | EPERM | EMFILE
  | unexpected
deriving DecidableEq, Repr

namespace Acceptor

variable {σ Q ι κ : Type}

/-- `sockets::accept` when `accept4` fails. -/
def acceptFails : AcceptErrno → Prog σ Q ι κ Fault Unit
  | .unexpected => Prog.fault .fatalAccept
  | .EAGAIN | .ECONNABORTED | .EINTR | .EPROTO | .EPERM | .EMFILE => pure ()

/-- `handleRead`: `connfds` are the descriptors that `accept4` gives before it fails for the first time. -/
def handleRead (newConnectionCallback : Option (Nat → Prog σ Q ι κ Fault Unit))
    (close : Nat → Prog σ Q ι κ Fault Unit) (errno : AcceptErrno) : List Nat → Prog σ Q ι κ Fault Unit
  | [] => acceptFails errno
  | connfd :: connfds => do
    match newConnectionCallback with
    | some newConnection => newConnection connfd
    | none => close connfd
    handleRead newConnectionCallback close errno connfds

end Acceptor

end Agora
