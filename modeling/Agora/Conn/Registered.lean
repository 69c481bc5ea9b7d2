import Agora.Conn.Quiet

/-! # A connection that is up hears its peer -/

open Agora.Lib Agora.Lib.Prog

namespace Agora.TcpConnection

def Registered (c : TcpConnection) : Prop := c.state = .kConnected → c.channel.Reading

theorem Registered.quiet {c c' : TcpConnection} (h : Registered c) (hq : Quiet c c') : Registered c' := by
  intro hup
  have hs : c.state = .kConnected := by
    rcases hq.state with hs | ⟨-, hs⟩
    · exact hs.symm.trans hup
    · cases hs.symm.trans hup
  rcases hq.channel with hc | ⟨-, hreading, -⟩
  · rw [hc]
    exact h hs
  · exact hreading (h hs)

theorem Registered.of_down {c : TcpConnection} (h : c.state ≠ .kConnected) : Registered c :=
  fun hup => absurd hup h

/-- What the functions may do when user code only makes quiet changes. -/
def registeredContract : Contract TcpConnection SysCall SysResult Callback Fault where
  inv := Registered
  pre _ _ := True
  tolerates _ _ := True
  allow _ _ _ := True

abbrev StaysRegistered {α : Type} (p : ConnM α) : Prop :=
  Stable registeredContract (fun _ _ => True) Quiet (fun _ c => Registered c) p

theorem registered_rule : QuietRule registeredContract (fun _ _ => True) Quiet fun _ c => Registered c where
  quiet _ _ _ h hq := h.quiet hq
  call _ _ _ _ h := ⟨h, trivial, trivial⟩
  back _ _ h _ := h

/-! ## Functions -/

theorem registered_callback (u : Callback) : StaysRegistered (callback u) :=
  Stable.callback (fun _ _ h => ⟨h, trivial, trivial⟩) fun _ _ h _ => h

theorem registered_emit (e : ConnEvent) : StaysRegistered (emit e) := Stable.modify fun _ _ h => h

theorem registered_invokeConnectionCallback : StaysRegistered invokeConnectionCallback :=
  Stable.bind Stable.read fun _ => Stable.when
    (Stable.bind (registered_emit _) fun _ => registered_callback _)

theorem registered_invokeCloseCallback : StaysRegistered invokeCloseCallback :=
  Stable.bind Stable.read fun _ => Stable.when
    (Stable.bind (registered_emit _) fun _ => registered_callback _)

theorem registered_invokeMessageCallback : StaysRegistered invokeMessageCallback :=
  Stable.bind Stable.read fun _ => Stable.when
    (Stable.bind (registered_emit _) fun _ => registered_callback _)

theorem down_invokeConnectionCallback {c₀ c : TcpConnection} (h : c.state ≠ .kConnected) :
    wp registeredContract (fun _ _ => True) Quiet invokeConnectionCallback
      (fun _ c _ => c.state ≠ .kConnected) c₀ c := by
  unfold invokeConnectionCallback emit
  simp only [wp_bind, wp_read, wp_when, wp_modify, wp_callback]
  split
  · refine ⟨⟨Registered.of_down h, trivial, trivial⟩, fun c' _ hq => ?_⟩
    rcases hq.state with hs | ⟨hs, -⟩
    · rw [hs]
      exact h
    · exact absurd hs h
  · exact h

theorem registered_handleClose : StaysRegistered handleClose := by
  intro c₀ c _
  unfold handleClose setState setChannel
  simp only [wp_bind, wp_read, wp_assert, wp_modify]
  split
  · have hdown : Registered { c with state := .kDisconnected, channel := c.channel.disableAll.1 } :=
      .of_down nofun
    refine wp_mono (registered_invokeConnectionCallback c₀ _ hdown) ?_
    exact fun c₀ c _ h => registered_invokeCloseCallback c₀ c h
  · trivial

theorem registered_handleRead : StaysRegistered handleRead := by
  refine Stable.bind Stable.read fun c => Stable.bind (Stable.syscall _) fun a => ?_
  rcases a with n | ⟨_ | ⟨b, data⟩⟩ | ⟨_ | _⟩
  · exact stable_handleError
  · exact registered_handleClose
  · exact Stable.bind (Stable.modify fun _ _ h => h) fun _ => registered_invokeMessageCallback
  · exact Stable.pure ()
  · exact stable_handleError

theorem registered_event (revents : EventMask) : StaysRegistered (entry (.event revents)) := by
  refine Stable.bind (Stable.modify fun _ _ h => h) fun _ => ?_
  refine Stable.bind Stable.read fun _ => Stable.bind (Stable.when registered_handleClose) fun _ => ?_
  refine Stable.bind Stable.read fun _ => Stable.bind (Stable.when stable_handleError) fun _ => ?_
  refine Stable.bind Stable.read fun _ => Stable.bind (Stable.when registered_handleRead) fun _ => ?_
  exact Stable.bind Stable.read fun _ => Stable.when (stable_handleWrite registered_rule)

theorem registered_connectEstablished : StaysRegistered connectEstablished := by
  intro c₀ c _
  unfold connectEstablished setState setChannel
  simp only [wp_bind, wp_read, wp_assert, wp_modify]
  split
  · exact registered_invokeConnectionCallback c₀ _ fun _ => Channel.enableReading_reading _
  · trivial

theorem registered_connectDestroyed : StaysRegistered connectDestroyed := by
  -- a connection that is still up goes down before its channel is removed
  have hclosed : ∀ c₀ c : TcpConnection, wp registeredContract (fun _ _ => True) Quiet
      (when (c.state = .kConnected) do
        setState .kDisconnected
        setChannel Channel.disableAll
        invokeConnectionCallback)
      (fun _ c _ => c.state ≠ .kConnected) c₀ { c with trace := c.trace ++ [.destroying c.state] } := by
    intro c₀ c
    unfold setState setChannel
    simp only [wp_when, wp_bind, wp_modify]
    split
    · exact down_invokeConnectionCallback nofun
    · rename_i hs
      exact fun hup => hs (decide_eq_true hup)
  intro c₀ c _
  unfold connectDestroyed
  rw [wp_bind, wp_read, wp_bind]
  refine (wp_modify ..).mpr ?_
  rw [wp_bind]
  refine wp_mono (hclosed c₀ c) fun c₀ c _ hdown => ?_
  unfold setChannel emit
  simp only [wp_bind, wp_modify, wp_read]
  exact Registered.of_down hdown

end Agora.TcpConnection
