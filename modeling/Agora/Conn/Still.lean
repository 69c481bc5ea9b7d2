import Agora.Conn.Mute
import Agora.Lib.Embed

/-!
# What a connection has said

The payloads are kept apart, and only `send` adds one.
-/

open Agora.Lib Agora.Lib.Prog

namespace Agora.TcpConnection

/-- The payloads passed to `send` while the state was `kConnected`, in call order. -/
def payloads (c : TcpConnection) : List (List Byte) :=
  c.trace.filterMap fun e => match e with
    | .accepted payload => some payload
    | _ => none

theorem payloads_snoc (c : TcpConnection) (e : ConnEvent) :
    payloads { c with trace := c.trace ++ [e] } = c.payloads ++ payloads { c with trace := [e] } :=
  List.filterMap_append

theorem payloads_muted {c : TcpConnection} {e : ConnEvent} (he : mutedEvent e = true) :
    payloads { c with trace := c.trace ++ [e] } = c.payloads := by
  have hnone : payloads { c with trace := [e] } = [] := by
    cases e with
    | accepted payload => cases he
    | _ => rfl
  rw [payloads_snoc, hnone, List.append_nil]

/-- The half-close is to be made, or has been made. -/
def HalfClosing (c : TcpConnection) : Prop := c.state = .kDisconnecting ∨ .shutdownWrite ∈ c.trace

theorem HalfClosing.of_snoc {c c' : TcpConnection} {e : ConnEvent} (h : c'.HalfClosing) (hs : c'.state = c.state)
    (ht : c'.trace = c.trace ++ [e]) (he : e ≠ .shutdownWrite) : c.HalfClosing := by
  unfold HalfClosing at h
  rw [hs, ht] at h
  refine h.imp id fun hmem => (List.mem_append.mp hmem).resolve_right fun hlast => ?_
  exact he (List.mem_singleton.mp hlast).symm

/-- An established connection that nobody has written to, read from or shut down since `c₀`. -/
structure Still (c₀ c : TcpConnection) : Prop where
  inputBuffer : c.inputBuffer = c₀.inputBuffer
  connectionCallback : c.connectionCallback = c₀.connectionCallback
  messageCallback : c.messageCallback = c₀.messageCallback
  payloads : c.payloads = c₀.payloads
  trace : c₀.trace <+: c.trace
  established : c.state ≠ .kConnecting
  connected : c.state = .kConnected → c₀.state = .kConnected
  halfClosing : c.HalfClosing → c₀.HalfClosing

theorem Still.refl {c : TcpConnection} (h : c.state ≠ .kConnecting) : Still c c :=
  ⟨rfl, rfl, rfl, rfl, List.prefix_rfl, h, id, id⟩

def stillContract (c₀ : TcpConnection) : Contract TcpConnection SysCall SysResult Callback Fault where
  inv := Still c₀
  pre u c := u ≠ .message ∧ (u = .connection → c.state ≠ .kConnected)
  tolerates _ := Still c₀
  allow _ _ _ := True

theorem still_rule (c₀ : TcpConnection) : KeepsMute (stillContract c₀) where
  same _ c c' h hi hm hc ht hs := by
    have hpayloads : c'.payloads = c.payloads := by
      unfold TcpConnection.payloads
      rw [ht]
    refine ⟨hi.trans h.inputBuffer, hc.trans h.connectionCallback, hm.trans h.messageCallback,
      hpayloads.trans h.payloads, ht ▸ h.trace, hs ▸ h.established, hs ▸ h.connected, fun hc => h.halfClosing ?_⟩
    unfold HalfClosing at hc ⊢
    rwa [hs, ht] at hc
  snoc _ _ e h he hs := by
    refine ⟨h.inputBuffer, h.connectionCallback, h.messageCallback, (payloads_muted he).trans h.payloads,
      h.trace.trans (List.prefix_append _ _), h.established, h.connected, fun hc => h.halfClosing ?_⟩
    by_cases heq : e = .shutdownWrite
    · exact .inl (hs heq)
    · exact hc.of_snoc rfl rfl heq
  disconnect _ c h := by
    refine ⟨h.inputBuffer, h.connectionCallback, h.messageCallback, h.payloads, h.trace, nofun, nofun, fun hc => ?_⟩
    exact h.halfClosing (.inr (hc.resolve_left nofun))
  call _ _ _ h hm hc := ⟨h, trivial, hm, hc⟩
  back _ _ h _ := h

/-! ## In the system of a session -/

variable {σ Q ι : Type} {E : Embedding TcpConnection SysCall SysResult Callback σ Q ι Empty Fault}
  {C : Contract σ Q ι Empty Fault} {J : σ → Prop} {s₀ s : σ}

/-- Still changes leave `J` alone, and so do the callbacks of a connection that is down. -/
structure Carries (E : Embedding TcpConnection SysCall SysResult Callback σ Q ι Empty Fault)
    (C : Contract σ Q ι Empty Fault) (J : σ → Prop) : Prop where
  lawful : E.Lawful
  fault : ∀ e s, J s → C.tolerates e s
  put : ∀ s c, J s → Still (E.view s) c → J (E.put c s)
  established : ∀ s, J s → (E.view s).state ≠ .kConnecting
  handler : ∀ s u, J s → u ≠ .message → (u = .connection → (E.view s).state ≠ .kConnected) → ∀ s₀,
    wp C (fun _ _ => True) (fun _ _ => True) (E.handler u) (fun _ s' _ => s' = s) s₀ s

namespace Carries

variable (h : Carries E C J)
include h

theorem wp_run {α : Type} {p : ConnM α} (post : TcpConnection → Prop) (hs : J s)
    (hp : wp (stillContract (E.view s)) (fun _ _ => True) (fun _ _ => True) p
      (fun _ c _ => Still (E.view s) c ∧ post c) (E.view s) (E.view s)) :
    wp C (fun _ _ => True) (fun _ _ => True) (E.run p) (fun _ s' _ => J s' ∧ post (E.view s')) s₀ s := by
  refine E.wp_run (I := fun _ s' => ∃ c, s' = E.put c s ∧ Still (E.view s) c) h.lawful
    (fun _ _ _ _ => trivial) ?_ ?_ ?_ ⟨E.view s, (h.lawful.put_view s).symm, .refl (h.established s hs)⟩ hp
  · rintro _ _ c e ⟨c₁, rfl, -⟩ hc
    rw [h.lawful.put_put]
    exact h.fault e _ (h.put s c hs hc)
  · rintro s₀ _ c u ⟨c₁, rfl, -⟩ hc - ⟨hm, hu⟩
    rw [h.lawful.put_put]
    have hview : E.view (E.put c s) = c := h.lawful.view_put c s
    refine wp_mono (h.handler (E.put c s) u (h.put s c hs hc) hm (hview.symm ▸ hu) s₀) ?_
    rintro _ _ _ rfl
    exact ⟨⟨c, rfl, hc⟩, hview.symm ▸ hc, trivial⟩
  · rintro _ _ c _ ⟨c₁, rfl, -⟩ ⟨hc, hpost⟩
    rw [h.lawful.put_put]
    refine ⟨h.put s c hs hc, ?_⟩
    rw [h.lawful.view_put]
    exact hpost

theorem keeps {α : Type} {p : ConnM α} (hp : ∀ c₀, Keeps (stillContract c₀) p) :
    Stable C (fun _ _ => True) (fun _ _ => True) (fun _ s => J s) (E.run p) := by
  intro s₀ s hs
  refine wp_mono (h.wp_run (fun _ => True) hs ?_) fun _ _ _ hs' => hs'.1
  exact wp_mono (hp _ _ _ (.refl (h.established s hs))) fun _ _ _ hc => ⟨hc, trivial⟩

theorem shutdown (hs : (E.view s).state ≠ .kConnected → J s)
    (hdown : (E.view s).state = .kConnected → J (E.put { E.view s with state := .kDisconnecting } s)) :
    wp C (fun _ _ => True) (fun _ _ => True) (E.run TcpConnection.shutdown)
      (fun _ s' _ => J s' ∧ (E.view s').state ≠ .kConnected) s₀ s := by
  unfold TcpConnection.shutdown setState
  simp only [Embedding.wp_run_bind, Embedding.wp_run_read, Embedding.wp_run_when, Embedding.wp_run_modify]
  split
  · rename_i hup
    have hJ := hdown (of_decide_eq_true hup)
    refine h.wp_run (fun c => c.state ≠ .kConnected) hJ ?_
    have hstate : (E.view (E.put { E.view s with state := .kDisconnecting } s)).state = .kDisconnecting :=
      congrArg TcpConnection.state (h.lawful.view_put _ _)
    refine wp_mono (mute_shutdownInLoop (still_rule _) (.refl (h.established _ hJ)) hstate) fun _ c _ hc => ⟨hc.1, ?_⟩
    rw [hc.2]
    nofun
  · rename_i hup
    have hne : (E.view s).state ≠ .kConnected := fun heq => hup (decide_eq_true heq)
    exact ⟨hs hne, hne⟩

theorem send {payload : List Byte} (hdown : (E.view s).state ≠ .kConnected → J s)
    (hup : (E.view s).state = .kConnected →
      J (E.put { E.view s with trace := (E.view s).trace ++ [.accepted payload] } s)) :
    wp C (fun _ _ => True) (fun _ _ => True) (E.run (send payload)) (fun _ s' _ => J s') s₀ s := by
  unfold TcpConnection.send emit
  rw [Embedding.wp_run_bind, Embedding.wp_run_read, Embedding.wp_run_when]
  split
  · rename_i hs
    rw [Embedding.wp_run_bind, Embedding.wp_run_modify]
    exact h.keeps (fun _ => mute_sendInLoop (still_rule _) payload) s₀ _ (hup (of_decide_eq_true hs))
  · rename_i hs
    exact hdown fun heq => hs (decide_eq_true heq)

theorem sendBuffer {buffer : WfBuffer} (hdown : (E.view s).state ≠ .kConnected → J s)
    (hup : (E.view s).state = .kConnected →
      J (E.put { E.view s with trace := (E.view s).trace ++ [.accepted buffer.readable] } s)) :
    wp C (fun _ _ => True) (fun _ _ => True) (E.run (sendBuffer buffer)) (fun _ s' _ => J s') s₀ s := by
  unfold TcpConnection.sendBuffer emit
  rw [Embedding.wp_run_bind, Embedding.wp_run_read, Embedding.wp_run_ite]
  split
  · rename_i hs
    rw [Embedding.wp_run_bind, Embedding.wp_run_modify, Embedding.wp_run_bind]
    exact h.keeps (fun _ => mute_sendInLoop (still_rule _) _) s₀ _ (hup hs)
  · rename_i hs
    exact hdown hs

end Carries

/-! ## The functions of a session -/

/-- `J` stays when bytes arrive, and then the message callback brings it back. -/
structure Talks (E : Embedding TcpConnection SysCall SysResult Callback σ Q ι Empty Fault)
    (C : Contract σ Q ι Empty Fault) (J : σ → Prop) : Prop extends Carries E C J where
  message : ∀ s₀ s space data, J s → C.allow s (E.lift (.readv space)) data →
    ∀ b bytes, E.back data = .bytes (b :: bytes) → (E.view s).messageCallback = true →
    wp C (fun _ _ => True) (fun _ _ => True) (E.handler .message) (fun _ s' _ => J s') s₀
      (E.put { E.view s with
        inputBuffer := (E.view s).inputBuffer.readFd (some (b :: bytes))
        trace := (E.view s).trace ++ [.messageCallback] } s)
  messageCallback : ∀ s, J s → (E.view s).messageCallback = true

namespace Talks

variable (h : Talks E C J)
include h

theorem handleClose : Stable C (fun _ _ => True) (fun _ _ => True) (fun _ s => J s) (E.run handleClose) :=
  h.keeps fun _ => mute_handleClose (still_rule _) fun _ _ hc => hc

theorem handleRead : Stable C (fun _ _ => True) (fun _ _ => True) (fun _ s => J s) (E.run handleRead) := by
  have herror : Stable C (fun _ _ => True) (fun _ _ => True) (fun _ s => J s) (E.run handleError) :=
    h.keeps fun _ => mute_handleError
  intro s₀ s hs
  unfold TcpConnection.handleRead invokeMessageCallback emit
  rw [Embedding.wp_run_bind, Embedding.wp_run_read, Embedding.wp_run_bind, Embedding.wp_run_syscall]
  intro a hallow
  rcases hanswer : E.back a with n | ⟨_ | ⟨b, data⟩⟩ | ⟨_ | _⟩
  · exact herror s₀ s hs
  · exact h.handleClose s₀ s hs
  · have hset := h.messageCallback s hs
    simp only [Embedding.wp_run_bind, Embedding.wp_run_modify, Embedding.wp_run_read, Embedding.wp_run_when,
      Embedding.wp_run_callback, h.lawful.view_put, h.lawful.put_put]
    rw [if_pos hset]
    exact h.message s₀ s _ a hs hallow b data hanswer hset
  · exact hs
  · exact herror s₀ s hs

theorem handleEvent : Stable C (fun _ _ => True) (fun _ _ => True) (fun _ s => J s) (E.run handleEvent) := by
  have herror : Stable C (fun _ _ => True) (fun _ _ => True) (fun _ s => J s) (E.run handleError) :=
    h.keeps fun _ => mute_handleError
  have hwrite : Stable C (fun _ _ => True) (fun _ _ => True) (fun _ s => J s) (E.run handleWrite) :=
    h.keeps fun _ => mute_handleWrite (still_rule _)
  unfold TcpConnection.handleEvent
  refine Embedding.stable_bind Embedding.stable_read fun _ => ?_
  refine Embedding.stable_bind (Embedding.stable_when h.handleClose) fun _ => ?_
  refine Embedding.stable_bind Embedding.stable_read fun _ => ?_
  refine Embedding.stable_bind (Embedding.stable_when herror) fun _ => ?_
  refine Embedding.stable_bind Embedding.stable_read fun _ => ?_
  refine Embedding.stable_bind (Embedding.stable_when h.handleRead) fun _ => ?_
  exact Embedding.stable_bind Embedding.stable_read fun _ => Embedding.stable_when hwrite

theorem event (revents : EventMask) :
    Stable C (fun _ _ => True) (fun _ _ => True) (fun _ s => J s) (E.run (entry (.event revents))) := by
  refine Embedding.stable_bind ?_ fun _ => h.handleEvent
  exact fun s₀ s hs => h.put s _ hs ⟨rfl, rfl, rfl, rfl, List.prefix_rfl, h.established s hs, id, id⟩

theorem connectDestroyed :
    Stable C (fun _ _ => True) (fun _ _ => True) (fun _ s => J s) (E.run connectDestroyed) :=
  h.keeps fun _ => mute_connectDestroyed (still_rule _)

end Talks

end Agora.TcpConnection
