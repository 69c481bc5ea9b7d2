import Agora.Conn.Calls
import Agora.Server.Sessions

/-! # The output stream of each connection of a server -/

open Agora.Lib Agora.Lib.Prog Agora.Spec

namespace Agora

namespace Application

variable {S Q ι τ : Type} (A : Application S Q ι)

def streamContract : Contract S Q ι Empty Fault where
  inv t := TcpConnection.StreamInv (A.part.view t)
  pre _ _ := True
  tolerates _ t := StreamOk (A.part.view t).trace
  allow _ q a := A.valid q a = true

/-- What a callback does to the connection leaves nothing out of the stream. -/
structure Streams : Prop where
  valid : ∀ q a, A.valid (A.part.lift q) a = true → q.valid (A.part.back a) = true
  handler : ∀ u, Prog.Keeps A.streamContract (A.part.handler u)

variable {A}

theorem stream_run {E : Embedding TcpConnection SysCall SysResult Callback S Q ι Empty Fault} (hE : E.Lawful)
    {C : Contract S Q ι Empty Fault} (hinv : ∀ t, C.inv t ↔ TcpConnection.StreamInv (E.view t))
    (hvalid : ∀ t q a, C.allow t (E.lift q) a → q.valid (E.back a) = true)
    (hfault : ∀ e t, StreamOk (E.view t).trace → C.tolerates e t) (hhandler : ∀ u, Prog.Keeps C (E.handler u))
    {α : Type} {p : ConnM α} (hp : Prog.Keeps TcpConnection.streamContract p) : Prog.Keeps C (E.run p) := by
  intro t₀ t h
  refine E.wp_run (I := fun _ _ => True) hE (fun t q a ha => hvalid t q a ha) ?_ ?_ ?_ trivial
    (hp _ _ ((hinv t).mp h))
  · intro _ t₁ c e _ hc
    refine hfault e _ ?_
    rw [hE.view_put]
    exact hc
  · intro t₀ t₁ c u _ hc _ _
    refine wp_mono (hhandler u t₀ _ ((hinv _).mpr ?_)) fun _ t' _ h' => ⟨trivial, (hinv t').mp h', trivial⟩
    rw [hE.view_put]
    exact hc
  · intro _ t₁ c _ _ hc
    refine (hinv _).mpr ?_
    rw [hE.view_put]
    exact hc

theorem Streams.run (h : A.Streams) {p : ConnM Unit} (hp : Prog.Keeps TcpConnection.streamContract p) :
    Prog.Keeps A.streamContract (A.part.run p) :=
  stream_run A.lawful (fun _ => .rfl) (fun _ q a => h.valid q a) (fun _ _ hok => hok) h.handler hp

theorem Streams.keeps (h : A.Streams) : A.Keeps A.streamContract fun _ _ => True where
  new sockfd := by
    show TcpConnection.StreamInv _
    rw [A.lawful.view_put]
    exact TcpConnection.new_streamInv ..
  connectEstablished t ht _ := h.run TcpConnection.keeps_connectEstablished t t ht
  event t revents ht _ _ := h.run (TcpConnection.keeps_entry (.event revents)) t t ht
  connectDestroyed t ht := h.run TcpConnection.keeps_connectDestroyed t t ht

end Application

end Agora
