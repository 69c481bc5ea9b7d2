import Agora.Code.TcpConnection

/-!
# What a connection does without hearing or accepting anything

All functions but `handleRead`, `send` and `connectEstablished` leave the input alone, take no payload
and do not bring the connection up.
-/

open Agora.Lib Agora.Lib.Prog

namespace Agora.TcpConnection

def heard (c : TcpConnection) : Nat := c.trace.count .messageCallback

def accepts (payload : List Byte) (c : TcpConnection) : Nat := c.trace.count (.accepted payload)

def mutedEvent : ConnEvent → Bool
  | .messageCallback => false
  | .accepted _ => false
  | _ => true

structure Mute (c₀ c : TcpConnection) : Prop where
  inputBuffer : c.inputBuffer = c₀.inputBuffer
  messageCallback : c.messageCallback = c₀.messageCallback
  heard : c.heard = c₀.heard
  accepts : ∀ payload, c.accepts payload = c₀.accepts payload
  connecting : c.state = .kConnecting → c₀.state = .kConnecting
  connected : c.state = .kConnected → c₀.state = .kConnected

/-- A function that only asserts if `asserts` holds. -/
def muteContract (asserts : Prop) (c₀ : TcpConnection) :
    Contract TcpConnection SysCall SysResult Callback Fault where
  inv := Mute c₀
  pre u c := u ≠ .message ∧ (u = .connection → c.state ≠ .kConnected)
  tolerates _ c := asserts ∧ Mute c₀ c
  allow _ _ _ := True

theorem Mute.refl (c : TcpConnection) : Mute c c := ⟨rfl, rfl, rfl, fun _ => rfl, id, id⟩

theorem Mute.of_eq {c₀ c c' : TcpConnection} (h : Mute c₀ c) (hi : c'.inputBuffer = c.inputBuffer)
    (hm : c'.messageCallback = c.messageCallback) (ht : c'.trace = c.trace) (hs : c'.state = c.state) :
    Mute c₀ c' := by
  refine ⟨hi.trans h.inputBuffer, hm.trans h.messageCallback, ?_, fun payload => ?_, hs ▸ h.connecting,
    hs ▸ h.connected⟩
  · unfold TcpConnection.heard
    rw [ht]
    exact h.heard
  · unfold TcpConnection.accepts
    rw [ht]
    exact h.accepts payload

theorem Mute.snoc {c₀ c : TcpConnection} (h : Mute c₀ c) {e : ConnEvent} (he : mutedEvent e = true) :
    Mute c₀ { c with trace := c.trace ++ [e] } := by
  have hm : e ≠ .messageCallback := by rintro rfl; cases he
  have ha : ∀ payload, e ≠ .accepted payload := by rintro payload rfl; cases he
  refine ⟨h.inputBuffer, h.messageCallback, ?_, fun payload => ?_, h.connecting, h.connected⟩
  · unfold TcpConnection.heard
    rw [List.count_append, List.count_singleton, if_neg (by simpa using hm)]
    exact h.heard
  · unfold TcpConnection.accepts
    rw [List.count_append, List.count_singleton, if_neg (by simpa using ha payload)]
    exact h.accepts payload

theorem Mute.setState {c₀ c : TcpConnection} (h : Mute c₀ c) {s : ConnState} (hconnecting : s ≠ .kConnecting)
    (hconnected : s ≠ .kConnected) : Mute c₀ { c with state := s } :=
  ⟨h.inputBuffer, h.messageCallback, h.heard, h.accepts, fun hs => absurd hs hconnecting,
    fun hs => absurd hs hconnected⟩

/-! ## Functions -/

/-- Nothing that the functions below do disturbs `J`, and from it they may call back. The half-close is only
made while the connection shuts down. -/
structure MuteRule (C : Contract TcpConnection SysCall SysResult Callback Fault)
    (guar rely J : TcpConnection → TcpConnection → Prop) : Prop where
  same : ∀ c₀ c c', J c₀ c → c'.inputBuffer = c.inputBuffer → c'.messageCallback = c.messageCallback →
    c'.connectionCallback = c.connectionCallback → c'.trace = c.trace → c'.state = c.state → J c₀ c'
  snoc : ∀ c₀ c e, J c₀ c → mutedEvent e = true → (e = .shutdownWrite → c.state = .kDisconnecting) →
    J c₀ { c with trace := c.trace ++ [e] }
  disconnect : ∀ c₀ c, J c₀ c → J c₀ { c with state := .kDisconnected }
  call : ∀ c₀ c u, J c₀ c → u ≠ .message → (u = .connection → c.state ≠ .kConnected) →
    C.inv c ∧ guar c₀ c ∧ C.pre u c
  back : ∀ c c', C.inv c' → rely c c' → J c' c'

section
variable {C : Contract TcpConnection SysCall SysResult Callback Fault}
  {guar rely J : TcpConnection → TcpConnection → Prop} (hr : MuteRule C guar rely J)
include hr

theorem mute_setChannel (f : Channel → Channel × List EpollCtl) : Stable C guar rely J (setChannel f) :=
  Stable.modify fun _ _ h => hr.same _ _ _ h rfl rfl rfl rfl rfl

theorem mute_emit {e : ConnEvent} (he : mutedEvent e = true) (hs : e ≠ .shutdownWrite) :
    Stable C guar rely J (emit e) :=
  Stable.modify fun _ _ h => hr.snoc _ _ e h he fun heq => absurd heq hs

theorem mute_callback {u : Callback} (hm : u ≠ .message) (hc : u ≠ .connection) :
    Stable C guar rely J (callback u) :=
  Stable.callback (fun _ _ h => hr.call _ _ u h hm fun heq => absurd heq hc) hr.back

theorem mute_invokeWriteCompleteCallback : Stable C guar rely J invokeWriteCompleteCallback :=
  Stable.bind (mute_emit hr rfl nofun) fun _ => mute_callback hr nofun nofun

theorem mute_invokeConnectionCallback {c₀ c : TcpConnection} (h : J c₀ c) (hs : c.state ≠ .kConnected) :
    wp C guar rely invokeConnectionCallback (fun c₀ c _ => J c₀ c) c₀ c := by
  unfold invokeConnectionCallback emit
  simp only [wp_bind, wp_read, wp_when, wp_modify, wp_callback]
  split
  · have hcalled := hr.snoc c₀ c (.connectionCallback (c.state = .kConnected)) h rfl nofun
    exact ⟨hr.call _ _ _ hcalled nofun fun _ => hs, hr.back _⟩
  · exact h

theorem mute_invokeCloseCallback : Stable C guar rely J invokeCloseCallback :=
  Stable.bind Stable.read fun _ => Stable.when
    (Stable.bind (mute_emit hr rfl nofun) fun _ => mute_callback hr nofun nofun)

theorem mute_write (data : List Byte) : Stable C guar rely J (write data) := by
  refine Stable.bind (Stable.syscall _) fun a => ?_
  cases a with
  | count n => exact Stable.bind (mute_emit hr rfl nofun) fun _ => Stable.pure _
  | bytes _ => exact Stable.pure _
  | error _ => exact Stable.pure _

theorem mute_sendInLoop (data : List Byte) : Stable C guar rely J (sendInLoop data) := by
  have happend : ∀ rest, Stable C guar rely J (appendOutput rest) := fun rest =>
    Stable.modify fun _ _ h => hr.same _ _ _ h rfl rfl rfl rfl rfl
  have hlater : ∀ rest, Stable C guar rely J (do
      appendOutput rest
      setChannel Channel.enableWriting : ConnM Unit) := fun rest =>
    Stable.bind (happend rest) fun _ => mute_setChannel hr _
  refine Stable.bind Stable.read fun c => Stable.ite (Stable.pure ()) (Stable.ite ?_ (happend data))
  refine Stable.bind (mute_write hr data) fun n => ?_
  cases n with
  | some n => exact Stable.ite (mute_invokeWriteCompleteCallback hr) (Stable.when (hlater _))
  | none => exact hlater data

theorem mute_shutdownInLoop {c₀ c : TcpConnection} (h : J c₀ c) (hs : c.state = .kDisconnecting) :
    wp C guar rely shutdownInLoop (fun c₀ c' _ => J c₀ c' ∧ c'.state = .kDisconnecting) c₀ c := by
  unfold shutdownInLoop shutdownWrite emit
  simp only [wp_bind, wp_read, wp_when, wp_modify]
  split
  · exact ⟨hr.snoc _ _ _ h rfl fun _ => hs, hs⟩
  · exact ⟨h, hs⟩

theorem mute_shutdown {c₀ c : TcpConnection} (h : J c₀ c)
    (hdown : c.state = .kConnected → J c₀ { c with state := .kDisconnecting }) :
    wp C guar rely shutdown (fun c₀ c _ => J c₀ c ∧ c.state ≠ .kConnected) c₀ c := by
  unfold shutdown setState
  simp only [wp_bind, wp_read, wp_when, wp_modify]
  split
  · rename_i hs
    refine wp_mono (mute_shutdownInLoop hr (hdown (of_decide_eq_true hs)) rfl) fun _ c _ h => ⟨h.1, ?_⟩
    rw [h.2]
    nofun
  · rename_i hs
    exact ⟨h, by simpa using hs⟩

theorem mute_handleClose (hfail : ∀ c₀ c, J c₀ c → C.tolerates .assertHandleClose c) :
    Stable C guar rely J handleClose := by
  intro c₀ c h
  unfold handleClose setState setChannel
  simp only [wp_bind, wp_read, wp_assert, wp_modify]
  split
  · have hdown : J c₀ { c with state := .kDisconnected, channel := c.channel.disableAll.1 } :=
      hr.same _ _ _ (hr.disconnect c₀ c h) rfl rfl rfl rfl rfl
    refine wp_mono (mute_invokeConnectionCallback hr hdown nofun) ?_
    exact fun c₀ c _ h => mute_invokeCloseCallback hr c₀ c h
  · exact hfail c₀ c h

omit hr in
theorem mute_handleError : Stable C guar rely J handleError :=
  Stable.bind (Stable.syscall _) fun _ => Stable.pure _

theorem mute_finishWrite : Stable C guar rely J finishWrite := by
  refine Stable.bind (mute_setChannel hr _) fun _ => Stable.bind Stable.read fun _ => ?_
  refine Stable.bind (Stable.when (mute_invokeWriteCompleteCallback hr)) fun _ => ?_
  intro c₀ c h
  simp only [wp_bind, wp_read, wp_when]
  split
  · rename_i hs
    exact wp_mono (mute_shutdownInLoop hr h (of_decide_eq_true hs)) fun _ _ _ h => h.1
  · exact h

theorem mute_handleWrite : Stable C guar rely J handleWrite := by
  refine Stable.bind Stable.read fun c => Stable.when ?_
  refine Stable.bind (mute_write hr _) fun n => ?_
  cases n with
  | none => exact Stable.pure ()
  | some n =>
    refine Stable.when (Stable.bind (Stable.modify fun _ _ h => hr.same _ _ _ h rfl rfl rfl rfl rfl) fun _ => ?_)
    exact Stable.bind Stable.read fun _ => Stable.when (mute_finishWrite hr)

theorem mute_connectDestroyed : Stable C guar rely J connectDestroyed := by
  have hclose : Stable C guar rely J (do
      setState .kDisconnected
      setChannel Channel.disableAll
      invokeConnectionCallback : ConnM Unit) := by
    intro c₀ c h
    unfold setState setChannel
    simp only [wp_bind, wp_modify]
    refine mute_invokeConnectionCallback hr ?_ nofun
    exact hr.same _ _ _ (hr.disconnect c₀ c h) rfl rfl rfl rfl rfl
  exact Stable.bind Stable.read fun _ => Stable.bind (mute_emit hr rfl nofun) fun _ =>
    Stable.bind (Stable.when hclose) fun _ => Stable.bind (mute_setChannel hr _) fun _ =>
    Stable.bind Stable.read fun _ => mute_emit hr rfl nofun

end

/-- The rule for an invariant of the contract. -/
abbrev KeepsMute (C : Contract TcpConnection SysCall SysResult Callback Fault) : Prop :=
  MuteRule C (fun _ _ => True) (fun _ _ => True) fun _ c => C.inv c

variable {asserts : Prop} {c₀ : TcpConnection}

theorem mute_rule : KeepsMute (muteContract asserts c₀) where
  same _ _ _ h hi hm _ ht hs := h.of_eq hi hm ht hs
  snoc _ _ _ h he _ := h.snoc he
  disconnect _ _ h := h.setState nofun nofun
  call _ _ _ h hm hc := ⟨h, trivial, hm, hc⟩
  back _ _ h _ := h

abbrev StaysMute (asserts : Prop) (c₀ : TcpConnection) {α : Type} (p : ConnM α) : Prop :=
  Keeps (muteContract asserts c₀) p

end Agora.TcpConnection
