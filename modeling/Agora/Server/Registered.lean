import Agora.Conn.Registered
import Agora.Server.Sessions

/-! # Each connection of a server that is up is registered -/

open Agora.Lib Agora.Lib.Prog

namespace Agora.Application

open TcpConnection (Quiet Registered StaysRegistered)

variable {S Q ι : Type} (A : Application S Q ι)

def registeredContract : Contract S Q ι Empty Fault where
  inv t := Registered (A.part.view t)
  pre _ _ := True
  tolerates _ _ := True
  allow _ _ _ := True

/-- The callbacks read, write and shut down, and do nothing else to the connection. -/
def Gentle : Prop := ∀ u c, Stable A.registeredContract (fun _ _ => True) (fun _ _ => True)
  (fun _ t => Quiet c (A.part.view t)) (A.part.handler u)

variable {A}

namespace Gentle

variable (h : A.Gentle)
include h

theorem entry {t : S} {p : ConnM Unit} (hp : StaysRegistered p) (ht : A.registeredContract.inv t) :
    wp A.registeredContract (fun _ _ => True) (fun _ _ => True) (A.part.run p)
      (fun _ t' _ => A.registeredContract.inv t') t t := by
  refine A.part.wp_run (I := fun _ _ => True) A.lawful (fun _ _ _ _ => trivial) (fun _ _ _ _ _ _ => trivial)
    ?_ ?_ trivial (hp _ _ ht)
  · intro t₀ t₁ c u _ hc _ _
    have hview : Quiet c (A.part.view (A.part.put c t₁)) := by
      rw [A.lawful.view_put]
      exact .refl c
    exact wp_mono (h u c t₀ _ hview) fun _ _ _ hq => ⟨trivial, hc.quiet hq, hq⟩
  · intro _ t₁ c _ _ hc
    show Registered (A.part.view (A.part.put c t₁))
    rw [A.lawful.view_put]
    exact hc

theorem keeps : A.Keeps A.registeredContract fun _ _ => True where
  new sockfd := by
    show Registered (A.part.view (A.part.put _ _))
    rw [A.lawful.view_put]
    exact nofun
  connectEstablished _ ht _ := h.entry TcpConnection.registered_connectEstablished ht
  event _ revents ht _ _ := h.entry (TcpConnection.registered_event revents) ht
  connectDestroyed _ ht := h.entry TcpConnection.registered_connectDestroyed ht

end Gentle

end Agora.Application
