import Agora.Client.Life
import Agora.Server.Life

/-! # Which connections have been notified of their end -/

open Agora.Lib

namespace Agora.TcpConnection

/-- **The user is told of the whole life of a connection** of a server or a client, just when
`connectDestroyed` has not come between `shutdown` and the close. -/
theorem notified_iff_destroyedCalmly (τ : Type) [DecidableEq τ] :
    (∀ c, (TcpServer.notifyingMachine τ).Reachable c → ∀ i, c.st.Created i →
      (Notified (c.st.conns i) ↔ DestroyedCalmly (c.st.conns i))) ∧
    ∀ c, TcpClient.notifyingMachine.Reachable c → ∀ i < c.st.made,
      (Notified (c.st.conns i) ↔ DestroyedCalmly (c.st.conns i)) := by
  constructor
  · intro c hc i hi
    exact (TcpServer.life_of_reachable hc hi).past.notified_iff
  · intro c hc i hi
    exact (TcpClient.life_of_reachable hc hi).past.notified_iff

/-- Both notifications, when the peer closes first. -/
theorem notified_iff_destroyedCalmly_closed :
    ∃ c, (TcpServer.notifyingMachine Unit).Reachable c ∧
      .destroyed .kDisconnected ∈ (c.st.conns 1).trace ∧ Notified (c.st.conns 1) := by
  have hrun : ((TcpServer.notifyingMachine Unit).system.run (fun _ _ => True)
      (.initial (.new () [] true true true))
      [.start (.newConnection () 5) [], .resume () [], .start (.conn () 1 (.event kReadEvent)) [.bytes []],
        .resume () [], .start (.functor ()) []]).map (fun c => (c.st.nextConnId, (c.st.conns 1).trace)) =
      some (2, [.connectionCallback true, .connectionCallback false, .closeCallback,
        .destroying .kDisconnected, .destroyed .kDisconnected]) := by decide +kernel
  obtain ⟨c, hc, heq⟩ := Option.map_eq_some_iff.mp hrun
  obtain ⟨hnext, htrace⟩ : _ ∧ _ := by simpa only [Prod.mk.injEq] using heq
  have hreach := (TcpServer.notifyingMachine Unit).reachable_of_run ⟨(), [], true, true, rfl⟩ hc
  have hcreated : c.st.Created 1 := ⟨Nat.one_pos, hnext ▸ Nat.lt_succ_self 1⟩
  refine ⟨c, hreach, ?_, ((notified_iff_destroyedCalmly Unit).1 c hreach 1 hcreated).mpr ?_⟩
  · rw [htrace]
    decide
  · unfold DestroyedCalmly
    rw [htrace]
    decide

/-- A server is destroyed between `shutdown` and the close: the user is never told that the connection is
down, and it stays `kDisconnecting`. -/
theorem destroyed_without_notice :
    ∃ c, (TcpServer.notifyingMachine Unit).Reachable c ∧ c.crashed = none ∧ c.st.Created 1 ∧
      (c.st.conns 1).trace = [.connectionCallback true, .shutdownWrite, .destroying .kDisconnecting,
        .destroyed .kDisconnecting] ∧ ¬ Notified (c.st.conns 1) := by
  have hrun : ((TcpServer.notifyingMachine Unit).system.run (fun _ _ => True)
      (.initial (.new () [] true true true))
      [.start (.newConnection () 5) [], .resume () [], .start (.conn () 1 .shutdown) [],
        .start (.destroy () [1]) []]).map
      (fun c => (c.crashed, c.st.nextConnId, (c.st.conns 1).trace)) =
      some (none, 2, [.connectionCallback true, .shutdownWrite, .destroying .kDisconnecting,
        .destroyed .kDisconnecting]) := by decide +kernel
  obtain ⟨c, hc, heq⟩ := Option.map_eq_some_iff.mp hrun
  obtain ⟨hcrash, hnext, htrace⟩ : _ ∧ _ ∧ _ := by simpa only [Prod.mk.injEq] using heq
  have hreach := (TcpServer.notifyingMachine Unit).reachable_of_run ⟨(), [], true, true, rfl⟩ hc
  refine ⟨c, hreach, hcrash, ⟨Nat.one_pos, hnext ▸ Nat.lt_succ_self 1⟩, htrace, fun h => ?_⟩
  have hend := h [.connectionCallback true, .shutdownWrite, .destroying .kDisconnecting] .kDisconnecting
    (by rw [htrace]; exact List.prefix_rfl)
  exact nomatch hend.2

end Agora.TcpConnection
