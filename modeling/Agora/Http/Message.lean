import Agora.Code.HttpServer

/-! # The rule for the callbacks of an `HttpServer` -/

open Agora.Lib Agora.Lib.Prog

namespace Agora.HttpSession

/-- What has to keep `J` for the callbacks to keep it: the calls on the connection, and the changes of the
rest of the session. -/
structure MessageRule (C : Contract HttpSession HttpCall HttpAnswer Empty Fault)
    (J : HttpSession → HttpSession → Prop) : Prop where
  noContext : ∀ s₀ s, J s₀ s → s.context = none → C.tolerates .nullContext s
  context : ∀ s₀ s context, J s₀ s → J s₀ { s with context := some context }
  dispatched : ∀ s₀ s d, J s₀ s → J s₀ { s with dispatched := d }
  parse : ∀ s₀ s context, J s₀ s → J s₀ (HttpSession.parse context s)
  send : ∀ message, Stable C (fun _ _ => True) (fun _ _ => True) J (onConn (TcpConnection.send message))
  sendBuffer : ∀ buffer, Stable C (fun _ _ => True) (fun _ _ => True) J (onConn (TcpConnection.sendBuffer buffer))
  shutdown : Stable C (fun _ _ => True) (fun _ _ => True) J (onConn TcpConnection.shutdown)

namespace MessageRule

variable {C : Contract HttpSession HttpCall HttpAnswer Empty Fault} {J : HttpSession → HttpSession → Prop}
  (h : MessageRule C J)
include h

theorem setContext (context : HttpContext) :
    Stable C (fun _ _ => True) (fun _ _ => True) J (HttpSession.setContext context) :=
  Stable.modify fun s₀ s hs => h.context s₀ s context hs

theorem respond (request : HttpRequest) :
    Stable C (fun _ _ => True) (fun _ _ => True) J (HttpSession.respond request) := by
  refine Stable.bind Stable.read fun s => Stable.ite ?_ (Stable.pure _)
  refine Stable.bind (Stable.modify fun s₀ s hs => h.dispatched s₀ s _ hs) fun _ => ?_
  refine Stable.bind (Stable.syscall _) fun a => ?_
  cases a with
  | response r => exact Stable.pure r
  | sys r => exact Stable.pure _

theorem answer (context : HttpContext) :
    Stable C (fun _ _ => True) (fun _ _ => True) J (HttpSession.answer context) := by
  refine Stable.bind (h.respond _) fun response => ?_
  exact Stable.bind (h.sendBuffer _) fun _ => Stable.ite h.shutdown (h.setContext _)

theorem onMessage : Stable C (fun _ _ => True) (fun _ _ => True) J HttpSession.onMessage := by
  intro s₀ s hs
  unfold HttpSession.onMessage
  rw [wp_bind, wp_read]
  cases hcontext : s.context with
  | none => exact h.noContext s₀ s hs hcontext
  | some context =>
    refine Stable.bind (Stable.modify fun s₀ s hs => h.parse s₀ s context hs) (fun _ => ?_) s₀ s hs
    refine Stable.bind (Stable.when ?_) fun _ => Stable.when (h.answer _)
    exact Stable.bind (h.send _) fun _ => h.shutdown

theorem handler (u : Callback) : Stable C (fun _ _ => True) (fun _ _ => True) J (HttpSession.handler u) := by
  cases u with
  | connection => exact Stable.bind Stable.read fun _ => Stable.when (h.setContext _)
  | message => exact h.onMessage
  | close | writeComplete => exact Stable.pure ()

end MessageRule

end Agora.HttpSession
