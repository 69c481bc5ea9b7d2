import Agora.Conn.Drain
import Agora.Server.Sessions

/-! # The half-close of each connection of a server -/

open Agora.Lib Agora.Lib.Prog Agora.Spec

namespace Agora.Application

open TcpConnection (Drained HalfClosed StaysDrained)

variable {S Q ι τ : Type} (A : Application S Q ι)

/-- The output, and the half-close as far as it has come. -/
def drainContract : Contract S Q ι Empty Fault where
  inv t := Drained False (A.part.view t) ∧ HalfClosed (A.part.view t)
  pre _ _ := True
  tolerates _ t := Drained False (A.part.view t)
  allow _ q a := A.valid q a = true

/-- `P` says that the half-close had come so far before. -/
def Draining (P : Prop) (_ t : S) : Prop := Drained False (A.part.view t) ∧ (P → HalfClosed (A.part.view t))

abbrev StaysDraining (P : Prop) {α : Type} (p : Prog S Q ι Empty Fault α) : Prop :=
  Stable A.drainContract (fun _ _ => True) (fun _ _ => True) (A.Draining P) p

/-- What a callback does to the connection leaves no output behind. -/
structure Drains : Prop where
  valid : ∀ q a, A.valid (A.part.lift q) a = true → q.valid (A.part.back a) = true
  handler : ∀ P u, A.StaysDraining P (A.part.handler u)

variable {A}

theorem draining_run {E : Embedding TcpConnection SysCall SysResult Callback S Q ι Empty Fault} (hE : E.Lawful)
    (hview : E.view = A.part.view)
    (hvalid : ∀ q a, A.valid (E.lift q) a = true → q.valid (E.back a) = true)
    (hhandler : ∀ P u, A.StaysDraining P (E.handler u)) {P : Prop} {α : Type} {p : ConnM α}
    (hp : StaysDrained False P (fun _ _ => True) p) : A.StaysDraining P (E.run p) := by
  have hallow : ∀ t q a, A.drainContract.allow t (E.lift q) a →
      (TcpConnection.drainContract False).allow (E.view t) q (E.back a) :=
    fun _ q a ha => ⟨hvalid q a ha, False.elim⟩
  intro t₀ t h
  have hconn : TcpConnection.Draining False P (E.view t) (E.view t) := by
    rw [hview]
    exact h
  refine E.wp_run (I := fun _ _ => True) hE hallow ?_ ?_ ?_ trivial (hp _ _ hconn)
  · intro _ t₁ c e _ hc
    show Drained False (A.part.view (E.put c t₁))
    rw [← hview, hE.view_put]
    exact hc
  · intro t₀ t₁ c u _ hc _ _
    have hthere : A.Draining (HalfClosed c) t₀ (E.put c t₁) := by
      unfold Draining
      rw [← hview, hE.view_put]
      exact ⟨hc, id⟩
    refine wp_mono (hhandler _ u t₀ _ hthere) fun _ t' _ h' => ?_
    rw [hview]
    exact ⟨trivial, h'.1, h'.2⟩
  · intro _ t₁ c _ _ hc
    unfold Draining
    rw [← hview, hE.view_put]
    exact hc

namespace Drains

variable (h : A.Drains)
include h

theorem run {P : Prop} {p : ConnM Unit} (hp : StaysDrained False P (fun _ _ => True) p) :
    A.StaysDraining P (A.part.run p) :=
  draining_run A.lawful rfl h.valid h.handler hp

theorem entry {t : S} {p : ConnM Unit} (hp : StaysDrained False True (fun _ _ => True) p)
    (ht : A.drainContract.inv t) :
    wp A.drainContract (fun _ _ => True) (fun _ _ => True) (A.part.run p)
      (fun _ t' _ => A.drainContract.inv t') t t :=
  wp_mono (h.run hp t t ⟨ht.1, fun _ => ht.2⟩) fun _ _ _ h' => ⟨h'.1, h'.2 trivial⟩

theorem keeps : A.Keeps A.drainContract fun _ _ => True where
  new sockfd := by
    show Drained False _ ∧ HalfClosed _
    rw [A.lawful.view_put]
    exact ⟨TcpConnection.new_drained .., HalfClosed.of_state nofun⟩
  connectEstablished t ht _ := h.entry (TcpConnection.drained_connectEstablished fun _ _ _ => trivial) ht
  event t revents ht _ _ :=
    h.entry (TcpConnection.drained_entry (fun _ _ _ => trivial) (.event revents) fun _ _ _ => trivial) ht
  connectDestroyed t ht := h.entry (TcpConnection.drained_connectDestroyed fun _ _ _ => trivial) ht

end Drains

end Agora.Application
