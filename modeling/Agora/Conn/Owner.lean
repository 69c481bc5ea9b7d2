import Agora.Conn.Closed

/-!
# The functions of a connection in the system of its owner

An owner says what a close does to the system. The rest of the functions follow from that.
-/

open Agora.Lib Agora.Lib.Prog

namespace Agora.TcpConnection

variable {σ Q ι κ : Type} {E : Embedding TcpConnection SysCall SysResult Callback σ Q ι κ Fault}
  {C : Contract σ Q ι κ Fault} {guar rely J Down : σ → σ → Prop} {May : σ → Prop}

/-- The connection may change as long as it stays in its state and `closeCallback_` is not called. -/
def StaysUp (E : Embedding TcpConnection SysCall SysResult Callback σ Q ι κ Fault)
    (J : σ → σ → Prop) : Prop :=
  ∀ s₀ s c, J s₀ s → c.state = (E.view s).state → c.closeCallback = (E.view s).closeCallback →
    c.closes = (E.view s).closes → J s₀ (E.put c s)

section
variable (hJ : StaysUp E J)
include hJ

theorem StaysUp.setChannel (f : Channel → Channel × List EpollCtl) :
    Stable C guar rely J (E.run (setChannel f)) := fun s₀ s h => hJ s₀ s _ h rfl rfl rfl

theorem StaysUp.emit {e : ConnEvent} (he : e ≠ .closeCallback) : Stable C guar rely J (E.run (emit e)) :=
  fun s₀ s h => hJ s₀ s _ h rfl rfl (closes_same rfl he)

theorem StaysUp.invokeConnectionCallback (huser : Stable C guar rely J (E.handler .connection)) :
    Stable C guar rely J (E.run invokeConnectionCallback) := by
  refine Embedding.stable_bind Embedding.stable_read fun c => Embedding.stable_when ?_
  refine Embedding.stable_bind (hJ.emit nofun) fun _ => fun s₀ s h => ?_
  rw [Embedding.wp_run_callback]
  exact huser s₀ s h

end

/-- The system keeps `J`, and `Down` from a close until `closeCallback_`. A close needs `May`. -/
structure Owns (E : Embedding TcpConnection SysCall SysResult Callback σ Q ι κ Fault)
    (C : Contract σ Q ι κ Fault) (guar rely J Down : σ → σ → Prop) (May : σ → Prop) : Prop where
  lawful : E.Lawful
  aborts : ∀ s₀ s e, J s₀ s → C.tolerates e s
  quiet : ∀ s₀ s c, J s₀ s → Quiet (E.view s) c → J s₀ (E.put c s)
  up : StaysUp E J
  down : StaysUp E Down
  user : ∀ u, u ≠ .close → Stable C guar rely J (E.handler u)
  userDown : Stable C guar rely Down (E.handler .connection)
  may : ∀ s c, May s → May (E.put c s)
  eof : ∀ s len a, C.allow s (E.lift (.readv len)) a → E.back a = .bytes [] →
    (E.view s).isOpen = true → May s
  close : ∀ s₀ s, J s₀ s → (E.view s).isOpen = true → May s →
    Down s₀ (E.put { E.view s with state := .kDisconnected } s)
  closeCallback : ∀ s₀ s, Down s₀ s →
    wp C guar rely (E.run invokeCloseCallback) (fun s₀ s _ => J s₀ s) s₀ s

namespace Owns

variable (h : Owns E C guar rely J Down May) {s₀ s : σ}
include h

theorem stays {α : Type} {p : ConnM α} (hp : StaysQuiet p) : Stable C guar rely J (E.run p) :=
  hp.run h.lawful h.quiet h.user

theorem invokeMessageCallback : Stable C guar rely J (E.run invokeMessageCallback) := by
  refine Embedding.stable_bind Embedding.stable_read fun c => Embedding.stable_when ?_
  refine Embedding.stable_bind (h.up.emit nofun) fun _ => fun s₀ s hs => ?_
  rw [Embedding.wp_run_callback]
  exact h.user .message nofun s₀ s hs

theorem handleClose (hs : J s₀ s) (hmay : (E.view s).isOpen = true → May s) :
    wp C guar rely (E.run handleClose) (fun s₀ s _ => J s₀ s) s₀ s := by
  unfold TcpConnection.handleClose
  rw [Embedding.wp_run_bind, Embedding.wp_run_read, Embedding.wp_run_bind, Embedding.wp_run_assert]
  split
  · rename_i hopen
    unfold setState
    rw [Embedding.wp_run_bind, Embedding.wp_run_modify, Embedding.wp_run_bind]
    refine wp_mono (h.down.setChannel _ s₀ _ (h.close s₀ s hs hopen (hmay hopen))) fun s₀ s _ hs => ?_
    rw [Embedding.wp_run_bind]
    refine wp_mono (h.down.invokeConnectionCallback h.userDown s₀ s hs) fun s₀ s _ hs => ?_
    exact h.closeCallback s₀ s hs
  · exact h.aborts s₀ s _ hs

theorem handleRead : Stable C guar rely J (E.run handleRead) := by
  have herror : Stable C guar rely J (E.run handleError) := h.stays stable_handleError
  have hread : ∀ data, Stable C guar rely J (E.run do
      modify fun c => { c with inputBuffer := c.inputBuffer.readFd (some data) }
      TcpConnection.invokeMessageCallback) := fun data =>
    Embedding.stable_bind (fun s₀ s hs => h.up s₀ s _ hs rfl rfl rfl) fun _ => h.invokeMessageCallback
  intro s₀ s hs
  unfold TcpConnection.handleRead
  rw [Embedding.wp_run_bind, Embedding.wp_run_read, Embedding.wp_run_bind, Embedding.wp_run_syscall]
  intro a hallow
  rcases hanswer : E.back a with n | ⟨_ | ⟨b, data⟩⟩ | ⟨_ | _⟩
  · exact herror s₀ s hs
  · exact h.handleClose hs (h.eof s _ a hallow hanswer)
  · exact hread (b :: data) s₀ s hs
  · exact hs
  · exact herror s₀ s hs

theorem handleEvent (hs : J s₀ s)
    (hmay : ((E.view s).channel.revents.epollhup && !(E.view s).channel.revents.epollin) = true →
      (E.view s).isOpen = true → May s) :
    wp C guar rely (E.run handleEvent) (fun s₀ s _ => J s₀ s) s₀ s := by
  have hlater : Stable C guar rely J (E.run do
      let c ← read
      when c.channel.revents.epollerr handleError
      let c ← read
      when (c.channel.revents.epollin || c.channel.revents.epollpri) TcpConnection.handleRead
      let c ← read
      when c.channel.revents.epollout handleWrite) :=
    Embedding.stable_bind Embedding.stable_read fun _ =>
    Embedding.stable_bind (Embedding.stable_when (h.stays stable_handleError)) fun _ =>
    Embedding.stable_bind Embedding.stable_read fun _ =>
    Embedding.stable_bind (Embedding.stable_when h.handleRead) fun _ =>
    Embedding.stable_bind Embedding.stable_read fun _ =>
    Embedding.stable_when (h.stays (stable_handleWrite quiet_rule))
  unfold TcpConnection.handleEvent
  rw [Embedding.wp_run_bind, Embedding.wp_run_read, Embedding.wp_run_bind, Embedding.wp_run_when]
  split
  · rename_i hhup
    exact wp_mono (h.handleClose hs (hmay hhup)) fun s₀ s _ hs => hlater s₀ s hs
  · exact hlater s₀ s hs

theorem forceClose (hs : J s₀ s) (hmay : (E.view s).isOpen = true → May s) :
    wp C guar rely (E.run forceClose) (fun s₀ s _ => J s₀ s) s₀ s := by
  unfold TcpConnection.forceClose setState
  rw [Embedding.wp_run_bind, Embedding.wp_run_read, Embedding.wp_run_when]
  split
  · rename_i hopen
    have hset : J s₀ (E.put { E.view s with state := .kDisconnecting } s) := by
      rcases hstate : (E.view s).state with _ | _ | _ | _
      · simp [hstate] at hopen
      · simp [hstate] at hopen
      · exact h.quiet s₀ s _ hs (quiet_kDisconnecting hstate)
      · exact h.up s₀ s _ hs hstate.symm rfl rfl
    rw [Embedding.wp_run_bind, Embedding.wp_run_modify]
    exact h.handleClose hset fun _ => h.may _ _ (hmay hopen)
  · exact hs

/-- The owner calls this once, for a connection that is `kConnecting`. -/
theorem connectEstablished (hfail : C.tolerates .assertConnectEstablished s)
    (hset : (E.view s).state = .kConnecting → J s₀ (E.put { E.view s with state := .kConnected } s)) :
    wp C guar rely (E.run connectEstablished) (fun s₀ s _ => J s₀ s) s₀ s := by
  unfold TcpConnection.connectEstablished setState
  rw [Embedding.wp_run_bind, Embedding.wp_run_read, Embedding.wp_run_bind, Embedding.wp_run_assert]
  split
  · rename_i hstate
    rw [Embedding.wp_run_bind, Embedding.wp_run_modify]
    exact Embedding.stable_bind (h.up.setChannel _) (fun _ =>
      h.up.invokeConnectionCallback (h.user .connection (by simp))) s₀ _ (hset (of_decide_eq_true hstate))
  · exact hfail

/-- The owner calls this behind `closeCallback_`, or for a connection that it gives up. -/
theorem connectDestroyed (hs : J s₀ s)
    (hset : ∀ c, J s₀ (E.put c s) →
      J s₀ (E.put { E.view (E.put c s) with state := .kDisconnected } (E.put c s))) :
    wp C guar rely (E.run connectDestroyed) (fun s₀ s _ => J s₀ s) s₀ s := by
  have hlast : Stable C guar rely J (E.run do
      TcpConnection.setChannel Channel.removeChannel
      let c ← read
      TcpConnection.emit (.destroyed c.state)) :=
    Embedding.stable_bind (h.up.setChannel _) fun _ =>
    Embedding.stable_bind Embedding.stable_read fun _ => h.up.emit (by simp)
  have hentered : J s₀ (E.put { E.view s with
      trace := (E.view s).trace ++ [.destroying (E.view s).state] } s) :=
    h.up s₀ s _ hs rfl rfl (closes_same rfl (by simp))
  unfold TcpConnection.connectDestroyed TcpConnection.emit setState
  rw [Embedding.wp_run_bind, Embedding.wp_run_read, Embedding.wp_run_bind, Embedding.wp_run_modify,
    Embedding.wp_run_bind, Embedding.wp_run_when]
  split
  · rw [Embedding.wp_run_bind, Embedding.wp_run_modify]
    refine wp_mono (Embedding.stable_bind (h.up.setChannel _) (fun _ =>
      h.up.invokeConnectionCallback (h.user .connection (by simp))) s₀ _ (hset _ hentered)) ?_
    exact fun s₀ s _ hs => hlast s₀ s hs
  · exact hlast s₀ _ hentered

theorem entry {label : ConnLabel} (hup : label ≠ .connectEstablished) (hdown : label ≠ .connectDestroyed)
    (hs : J s₀ s)
    (hevent : ∀ revents, label = .event revents → (revents.epollhup && !revents.epollin) = true →
      (E.view s).isOpen = true → May s)
    (hforce : label = .forceClose → (E.view s).isOpen = true → May s) :
    wp C guar rely (E.run (entry label)) (fun s₀ s _ => J s₀ s) s₀ s := by
  cases label with
  | connectEstablished => exact absurd rfl hup
  | connectDestroyed => exact absurd rfl hdown
  | event revents =>
    have hset := h.up s₀ s { E.view s with channel := { (E.view s).channel with revents := revents } } hs
      rfl rfl rfl
    unfold TcpConnection.entry
    rw [Embedding.wp_run_bind, Embedding.wp_run_modify]
    refine h.handleEvent hset ?_
    rw [h.lawful.view_put]
    exact fun hhup hopen => h.may _ _ (hevent revents rfl hhup hopen)
  | send message => exact h.stays (stable_send quiet_rule message) s₀ s hs
  | sendBuffer buffer =>
    exact h.stays (Stable.bind (stable_sendBuffer quiet_rule buffer) fun _ => Stable.pure _) s₀ s hs
  | shutdown => exact h.stays (stable_shutdown quiet_rule) s₀ s hs
  | forceClose => exact h.forceClose hs (hforce rfl)
  | consume len => exact h.stays (stable_consume quiet_rule len) s₀ s hs

end Owns

end Agora.TcpConnection
