import Agora.Conn.Closed
import Agora.Server.Sessions

/-!
# Servers that do not abort

The callbacks of a tame application only write, read and shut down, and never fail once the connection is
established.
-/

open Agora.Lib Agora.Lib.Prog

namespace Agora

open TcpConnection (CloseOk Good Quiet Segment UserStep closeContract CalmMask)

namespace TcpConnection

theorem Quiet.userStep {c c' : TcpConnection} (h : Quiet c c') : UserStep c c' := by
  refine ⟨fun hs => ⟨?_, h.closes⟩⟩
  rcases h.state with hs' | ⟨hs', -⟩
  · exact hs'.trans hs
  · cases hs'.symm.trans hs

theorem CloseOk.report {revents : EventMask} {c : TcpConnection} (h : CloseOk revents c) (revents' : EventMask) :
    CloseOk revents' { c with channel := { c.channel with revents := revents' } } :=
  ⟨rfl, h.opened, h.silent, h.quiet, h.once, h.order⟩

theorem CloseOk.isOpen {revents : EventMask} {c : TcpConnection} (h : CloseOk revents c)
    (hindex : c.channel.index = .kAdded) : c.isOpen = true := by
  by_contra hn
  exact (h.silent (eq_false_of_ne_true hn)).1 hindex

theorem new_sound (fd : Nat) (a b d e : Bool) : CloseOk .none (new fd a b d e) := by
  refine ⟨rfl, nofun, fun _ => ⟨nofun, rfl⟩, fun _ => ⟨nofun, rfl⟩, Nat.zero_le _, fun u hu => ?_⟩
  have hlen := hu.length_le
  simp [new] at hlen

end TcpConnection

namespace Application

variable {S Q ι τ : Type} (A : Application S Q ι) (Ready : S → Prop)

/-- The connection is sound as long as events come, and `Ready` from the first callback on. -/
structure Calm (t : S) : Prop where
  sound : (A.part.view t).state = .kConnecting ∨ (A.part.view t).channel.index = .kAdded →
    ∃ revents, CloseOk revents (A.part.view t)
  ready : Ready t ∨ (A.part.view t).state = .kConnecting ∧ (A.part.view t).channel.index = .kNew ∧
    (A.part.view t).connectionCallback = true

def calmContract : Contract S Q ι Empty Fault where
  inv := A.Calm Ready
  pre _ _ := True
  tolerates _ _ := False
  allow _ _ _ := True

/-- In a callback: the connection has only changed quietly since `c`. -/
structure InCallback (c : TcpConnection) (t : S) : Prop where
  quiet : Quiet c (A.part.view t)
  ready : Ready t

structure Tame : Prop where
  set : A.connectionCallback = true
  put : ∀ c t, Ready t → Ready (A.part.put c t)
  /-- The first call of `connectionCallback_`. -/
  opens : ∀ t₀ t, (A.part.view t).state = .kConnected →
    wp (A.calmContract Ready) (fun _ _ => True) (fun _ _ => True) (A.part.handler .connection)
      (fun _ t' _ => A.InCallback Ready (A.part.view t) t') t₀ t
  handler : ∀ u c, Stable (A.calmContract Ready) (fun _ _ => True) (fun _ _ => True)
    (fun _ t => A.InCallback Ready c t) (A.part.handler u)

namespace Tame

variable {A Ready} {t t₀ : S} (h : A.Tame Ready)
include h

theorem runCallback (hready : Ready t) (u : Callback) :
    wp (A.calmContract Ready) (fun _ _ => True) (fun _ _ => True) (A.part.handler u)
      (fun _ t' _ => A.InCallback Ready (A.part.view t) t') t₀ t :=
  h.handler u (A.part.view t) t₀ t ⟨.refl _, hready⟩

theorem run (revents : EventMask) {p : ConnM Unit} (hready : Ready t)
    (hp : TcpConnection.Does revents True p (A.part.view t)) :
    wp (A.calmContract Ready) (fun _ _ => True) (fun _ _ => True) (A.part.run p)
      (fun _ t' _ => A.Calm Ready t') t₀ t := by
  refine Embedding.wp_run (I := fun _ t => Ready t) _ A.lawful (fun _ _ _ _ => trivial)
    (fun _ _ _ _ _ hf => hf) ?_ ?_ hready (hp _ (.refl True _))
  · intro t₀ t₁ c u hready hok _ _
    refine wp_mono (h.runCallback (h.put c t₁ hready) u) fun _ t' _ h' => ?_
    rw [A.lawful.view_put] at h'
    exact ⟨h'.ready, hok.quiet_step h'.quiet, h'.quiet.userStep⟩
  · intro _ t₁ c _ hready hgood
    refine ⟨fun _ => ⟨revents, ?_⟩, .inl (h.put c t₁ hready)⟩
    rw [A.lawful.view_put]
    exact hgood.ok

theorem event (ht : A.Calm Ready t) {revents : EventMask} (hindex : (A.part.view t).channel.index = .kAdded)
    (hcalm : CalmMask revents) :
    wp (A.calmContract Ready) (fun _ _ => True) (fun _ _ => True)
      (A.part.run (TcpConnection.entry (.event revents))) (fun _ t' _ => A.Calm Ready t') t₀ t := by
  obtain ⟨before, hok⟩ := ht.sound (.inr hindex)
  have hready : Ready t := by
    refine ht.ready.resolve_right fun hnew => ?_
    cases hindex.symm.trans hnew.2.1
  unfold TcpConnection.entry
  rw [Embedding.wp_run_bind, Embedding.wp_run_modify]
  refine h.run revents (h.put _ t hready) ?_
  rw [A.lawful.view_put]
  have hreport := hok.report revents
  exact TcpConnection.does_handleEvent hreport hcalm fun _ => ⟨hreport.isOpen hindex, trivial⟩

theorem connectEstablished (ht : A.Calm Ready t) (hs : (A.part.view t).state = .kConnecting) :
    wp (A.calmContract Ready) (fun _ _ => True) (fun _ _ => True) (A.part.run TcpConnection.connectEstablished)
      (fun _ t' _ => A.Calm Ready t') t₀ t := by
  obtain ⟨revents, hok⟩ := ht.sound (.inl hs)
  have hup : CloseOk revents
      { A.part.view t with state := .kConnected, channel := (A.part.view t).channel.enableReading.1 } := by
    refine hok.of_channel rfl (Channel.setEvents_revents _ _) (fun _ => by rw [hs]; nofun) ?_ nofun
    exact fun _ => Channel.enableReading_reading _
  have hnotified := hup.emit (e := .connectionCallback true) nofun nofun nofun
  unfold TcpConnection.connectEstablished TcpConnection.setState TcpConnection.setChannel
    TcpConnection.invokeConnectionCallback TcpConnection.emit
  simp only [Embedding.wp_run_bind, Embedding.wp_run_read, Embedding.wp_run_assert, Embedding.wp_run_modify,
    Embedding.wp_run_when, Embedding.wp_run_callback, A.lawful.view_put, A.lawful.put_put]
  rw [if_pos (decide_eq_true hs)]
  split
  · refine wp_mono (h.opens t₀ _ (congrArg TcpConnection.state (A.lawful.view_put ..))) fun _ t' _ h' => ?_
    rw [A.lawful.view_put] at h'
    exact ⟨fun _ => ⟨revents, hnotified.quiet_step h'.quiet⟩, .inl h'.ready⟩
  · rename_i hunset
    have hready : Ready t := ht.ready.resolve_right fun hnew => hunset hnew.2.2
    refine ⟨fun _ => ⟨revents, ?_⟩, .inl (h.put _ t hready)⟩
    rw [A.lawful.view_put]
    exact hup

theorem connectDestroyed_early (ht : A.Calm Ready t) (hs : (A.part.view t).state = .kConnecting) :
    wp (A.calmContract Ready) (fun _ _ => True) (fun _ _ => True) (A.part.run TcpConnection.connectDestroyed)
      (fun _ t' _ => A.Calm Ready t') t₀ t := by
  obtain ⟨revents, hok⟩ := ht.sound (.inl hs)
  have hopen : (A.part.view t).isOpen = false := by simp [TcpConnection.isOpen, hs]
  have hentered := hok.emit (e := .destroying (A.part.view t).state) (by simp) (by simp) (by simp)
  have hremoved : CloseOk revents { A.part.view t with
      channel := (A.part.view t).channel.removeChannel.1
      trace := (A.part.view t).trace ++ [.destroying (A.part.view t).state] } := by
    refine hentered.of_channel rfl rfl id (fun ho => ?_) fun _ => (hok.silent hopen).removeChannel
    cases hopen.symm.trans ho
  have hleft := hremoved.emit (e := .destroyed (A.part.view t).state) (by simp) (by simp) (by simp)
  unfold TcpConnection.connectDestroyed TcpConnection.setChannel TcpConnection.emit
  simp only [Embedding.wp_run_bind, Embedding.wp_run_read, Embedding.wp_run_modify, Embedding.wp_run_when,
    A.lawful.view_put, A.lawful.put_put]
  rw [if_neg (by simp [hs])]
  refine ⟨fun _ => ⟨revents, ?_⟩, ?_⟩
  · rw [A.lawful.view_put]
    exact hleft
  · rw [A.lawful.view_put]
    exact ht.ready.imp (h.put _ t) fun hnew => ⟨hs, rfl, hnew.2.2⟩

theorem connectDestroyed (ht : A.Calm Ready t) :
    wp (A.calmContract Ready) (fun _ _ => True) (fun _ _ => True) (A.part.run TcpConnection.connectDestroyed)
      (fun _ t' _ => A.Calm Ready t') t₀ t := by
  by_cases hs : (A.part.view t).state = .kConnecting
  · exact h.connectDestroyed_early ht hs
  have hready : Ready t := ht.ready.resolve_right fun hnew => hs hnew.1
  -- Nothing is registered behind `removeChannel`.
  have hlast : ∀ t₀ t, Ready t → (A.part.view t).state ≠ .kConnecting →
      wp (A.calmContract Ready) (fun _ _ => True) (fun _ _ => True)
        (A.part.run do
          TcpConnection.setChannel Channel.removeChannel
          let c ← read
          TcpConnection.emit (.destroyed c.state))
        (fun _ t' _ => A.Calm Ready t') t₀ t := by
    intro t₀ t hready hs
    unfold TcpConnection.setChannel TcpConnection.emit
    simp only [Embedding.wp_run_bind, Embedding.wp_run_read, Embedding.wp_run_modify, A.lawful.view_put,
      A.lawful.put_put]
    refine ⟨fun hwhen => ?_, .inl (h.put _ t hready)⟩
    rw [A.lawful.view_put] at hwhen
    rcases hwhen with hconnecting | hadded
    · exact absurd hconnecting hs
    · cases hadded
  unfold TcpConnection.connectDestroyed
  rw [Embedding.wp_run_bind, Embedding.wp_run_read, Embedding.wp_run_bind]
  unfold TcpConnection.emit
  rw [Embedding.wp_run_modify, Embedding.wp_run_bind, Embedding.wp_run_when]
  split
  · have hdown : ∀ t₀ t, Ready t → (A.part.view t).state = .kDisconnected →
        wp (A.calmContract Ready) (fun _ _ => True) (fun _ _ => True)
          (A.part.run TcpConnection.invokeConnectionCallback)
          (fun _ t' _ => Ready t' ∧ (A.part.view t').state ≠ .kConnecting) t₀ t := by
      intro t₀ t hready hs
      unfold TcpConnection.invokeConnectionCallback TcpConnection.emit
      simp only [Embedding.wp_run_bind, Embedding.wp_run_read, Embedding.wp_run_when, Embedding.wp_run_modify,
        Embedding.wp_run_callback]
      split
      · refine wp_mono (h.runCallback (h.put _ t hready) .connection) fun _ t' _ h' => ⟨h'.ready, ?_⟩
        have hstep := h'.quiet.userStep
        rw [A.lawful.view_put] at hstep
        rw [(hstep.closed hs).1]
        nofun
      · refine ⟨hready, ?_⟩
        rw [hs]
        nofun
    unfold TcpConnection.setState TcpConnection.setChannel
    simp only [Embedding.wp_run_bind, Embedding.wp_run_modify, A.lawful.view_put, A.lawful.put_put]
    refine wp_mono (hdown t₀ _ (h.put _ t hready) (congrArg TcpConnection.state (A.lawful.view_put ..))) ?_
    exact fun t₀ t' _ h' => hlast t₀ t' h'.1 h'.2
  · refine hlast t₀ _ (h.put _ t hready) ?_
    rw [A.lawful.view_put]
    exact hs

theorem keeps : A.Keeps (A.calmContract Ready) fun _ => CalmMask where
  new sockfd := by
    refine ⟨fun _ => ⟨.none, ?_⟩, .inr ?_⟩
    · rw [A.lawful.view_put]
      exact TcpConnection.new_sound ..
    · rw [A.lawful.view_put]
      exact ⟨rfl, rfl, h.set⟩
  connectEstablished _ ht hs := h.connectEstablished ht hs
  event _ _ ht hindex hcalm := h.event ht hindex hcalm
  connectDestroyed _ ht := h.connectDestroyed ht

theorem keeps_events {cond : Machine.Condition S Q ι EventMask}
    (hcalm : ∀ t revents, cond.label t revents → CalmMask revents) :
    A.Keeps (A.calmContract Ready) cond.label :=
  ⟨⟨h.keeps.connectEstablished, fun t revents ht hindex hmay =>
    h.keeps.event t revents ht hindex (hcalm t revents hmay), h.keeps.connectDestroyed⟩, h.keeps.new⟩

/-- **The sessions of a tame server do not abort** while the poller reports calm masks only. -/
theorem never_aborts [DecidableEq τ] {cond : Machine.Condition S Q ι EventMask}
    (hcalm : ∀ t revents, cond.label t revents → CalmMask revents)
    {c : Config Unit (Service A τ) (Nat × Q) ι Empty Fault}
    (hreach : (Service.machine A τ).Reach (Service.each cond) c) {e : Fault} (he : c.crashed = some e) :
    e = .fatalAccept ∨ e = .destroyedServer ∧ c.st.server.phase = .destroyed := by
  have hok := (Service.keeps (τ := τ) (h.keeps_events hcalm) fun _ _ _ _ _ => trivial).runOk hreach
  rcases hok.crash e he with haccept | hdestroyed | ⟨i, -, hfalse⟩
  · exact .inl haccept
  · exact .inr hdestroyed
  · exact hfalse.elim

end Tame

end Application

end Agora
