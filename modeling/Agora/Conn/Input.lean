import Agora.Conn.Mute

/-!
# What leaves the input of a connection alone

Only `handleRead` and the message callback touch `inputBuffer_`. Once a connection is established,
`connectionCallback_` is called as connected no more.
-/

open Agora.Lib Agora.Lib.Prog

namespace Agora.TcpConnection

structure SameInput (buffer : WfBuffer) (c : TcpConnection) : Prop where
  inputBuffer : c.inputBuffer = buffer
  established : c.state ≠ .kConnecting
  connectionCallback : c.connectionCallback = true
  messageCallback : c.messageCallback = true

/-- A function that does not read, and that only asserts if `asserts` holds. -/
def inputContract (buffer : WfBuffer) (asserts : Prop) :
    Contract TcpConnection SysCall SysResult Callback Fault where
  inv := SameInput buffer
  pre u c := u ≠ .message ∧ (u = .connection → c.state ≠ .kConnected)
  tolerates _ c := asserts ∧ SameInput buffer c
  allow _ _ _ := True

variable {buffer : WfBuffer} {asserts : Prop}

theorem SameInput.of_eq {c c' : TcpConnection} (h : SameInput buffer c)
    (hi : c'.inputBuffer = c.inputBuffer) (hs : c'.state = c.state)
    (hc : c'.connectionCallback = c.connectionCallback) (hm : c'.messageCallback = c.messageCallback) :
    SameInput buffer c' :=
  ⟨hi.trans h.inputBuffer, hs ▸ h.established, hc.trans h.connectionCallback,
    hm.trans h.messageCallback⟩

theorem SameInput.setState {c : TcpConnection} (h : SameInput buffer c) {s : ConnState}
    (hs : s ≠ .kConnecting) : SameInput buffer { c with state := s } :=
  ⟨h.inputBuffer, hs, h.connectionCallback, h.messageCallback⟩

theorem SameInput.emit {c : TcpConnection} (h : SameInput buffer c) (e : ConnEvent) :
    SameInput buffer { c with trace := c.trace ++ [e] } := h.of_eq rfl rfl rfl rfl

theorem input_rule : KeepsMute (inputContract buffer asserts) where
  same _ _ _ h hi hm hc _ hs := h.of_eq hi hs hc hm
  snoc _ _ e h _ _ := h.emit e
  disconnect _ _ h := h.setState nofun
  call _ _ _ h hm hc := ⟨h, trivial, hm, hc⟩
  back _ _ h _ := h

theorem input_sendBuffer (b : WfBuffer) : Keeps (inputContract buffer asserts) (sendBuffer b) :=
  Stable.bind Stable.read fun _ => Stable.ite
    (Stable.bind (Keeps.modify fun _ h => h.emit _) fun _ =>
      Stable.bind (mute_sendInLoop input_rule _) fun _ => Stable.pure _)
    (Stable.pure _)

end Agora.TcpConnection
