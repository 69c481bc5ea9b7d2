import Agora.Code.TcpConnection
import Agora.Lib.Embed

/-!
# What a connection does without a notification

Most functions of a connection move bytes, and neither close it nor notify anybody but
`writeCompleteCallback_`. Whatever such a quiet change does not disturb, they leave alone.
-/

open Agora.Lib Agora.Lib.Prog

namespace Agora

/-! ## Channels that are registered for reading, and channels that are off -/

namespace Channel

def Reading (ch : Channel) : Prop := ch.index = .kAdded ∧ ch.events.epollin = true

def Silent (ch : Channel) : Prop := ch.index ≠ .kAdded ∧ ch.events = kNoneEvent

theorem setEvents_revents (ch : Channel) (events : EventMask) :
    (ch.setEvents events).1.revents = ch.revents := by
  unfold setEvents EPollPoller.updateChannel
  split
  · rfl
  · rfl
  · split <;> rfl

theorem setEvents_reading {ch : Channel} {events : EventMask} (hin : events.epollin = true) :
    (ch.setEvents events).1.Reading := by
  have hsome : events ≠ kNoneEvent := by
    rintro rfl
    cases hin
  unfold setEvents EPollPoller.updateChannel
  split
  · exact ⟨rfl, hin⟩
  · exact ⟨rfl, hin⟩
  · rename_i hi
    rw [if_neg hsome]
    exact ⟨hi, hin⟩

theorem enableReading_reading (ch : Channel) : ch.enableReading.1.Reading :=
  setEvents_reading (by simp [EventMask.or, kReadEvent])

theorem Reading.enableWriting {ch : Channel} (h : ch.Reading) : ch.enableWriting.1.Reading :=
  setEvents_reading (by simp [EventMask.or, h.2])

theorem Reading.disableWriting {ch : Channel} (h : ch.Reading) : ch.disableWriting.1.Reading :=
  setEvents_reading (by simp [EventMask.minus, kWriteEvent, EventMask.none, h.2])

theorem Reading.disableAll {ch : Channel} (h : ch.Reading) : ch.disableAll.1.Silent := by
  unfold Channel.disableAll setEvents EPollPoller.updateChannel
  simp only [h.1, if_true]
  exact ⟨nofun, rfl⟩

theorem Silent.removeChannel {ch : Channel} (h : ch.Silent) : ch.removeChannel.1.Silent :=
  ⟨nofun, h.2⟩

theorem Silent.not_writing {ch : Channel} (h : ch.Silent) : ch.isWriting = false := by
  unfold isWriting
  rw [h.2]
  rfl

end Channel

namespace TcpConnection

def isOpen (c : TcpConnection) : Bool := c.state = .kConnected || c.state = .kDisconnecting

/-- An event of the history that is no notification and no part of `connectDestroyed`. -/
def quietEvent : ConnEvent → Bool
  | .accepted _ | .written _ | .shutdownWrite | .writeCompleteCallback => true
  | _ => false

structure Quiet (c c' : TcpConnection) : Prop where
  state : c'.state = c.state ∨ c.state = .kConnected ∧ c'.state = .kDisconnecting
  connectionCallback : c'.connectionCallback = c.connectionCallback
  closeCallback : c'.closeCallback = c.closeCallback
  trace : ∃ es, c'.trace = c.trace ++ es ∧ ∀ e ∈ es, quietEvent e = true
  channel : c'.channel = c.channel ∨ (c.isOpen = true ∨ c.channel.isWriting = true) ∧
    (c.channel.Reading → c'.channel.Reading) ∧ c'.channel.revents = c.channel.revents

theorem Quiet.isOpen {c c' : TcpConnection} (h : Quiet c c') : c'.isOpen = c.isOpen := by
  unfold TcpConnection.isOpen
  rcases h.state with hs | ⟨hs, hs'⟩
  · rw [hs]
  · rw [hs, hs']
    rfl

theorem Quiet.refl (c : TcpConnection) : Quiet c c :=
  ⟨.inl rfl, rfl, rfl, ⟨[], (List.append_nil _).symm, nofun⟩, .inl rfl⟩

theorem Quiet.trans {c c' c'' : TcpConnection} (h : Quiet c c') (h' : Quiet c' c'') :
    Quiet c c'' := by
  refine ⟨?_, h'.connectionCallback.trans h.connectionCallback, h'.closeCallback.trans h.closeCallback,
    ?_, ?_⟩
  · rcases h'.state with hs' | ⟨hs', hs''⟩
    · rw [hs']
      exact h.state
    · rcases h.state with hs | ⟨hs, -⟩
      · exact .inr ⟨hs ▸ hs', hs''⟩
      · exact .inr ⟨hs, hs''⟩
  · obtain ⟨es, ht, hes⟩ := h.trace
    obtain ⟨es', ht', hes'⟩ := h'.trace
    refine ⟨es ++ es', by rw [ht', ht, List.append_assoc], fun e he => ?_⟩
    rcases List.mem_append.mp he with he | he
    · exact hes e he
    · exact hes' e he
  · rcases h'.channel with hc' | ⟨hwhen', hread', hrev'⟩
    · rw [hc']
      exact h.channel
    · rcases h.channel with hc | ⟨hwhen, hread, hrev⟩
      · rw [h.isOpen, hc] at hwhen'
        rw [hc] at hread' hrev'
        exact .inr ⟨hwhen', hread', hrev'⟩
      · exact .inr ⟨hwhen, fun hr => hread' (hread hr), hrev'.trans hrev⟩

theorem quiet_emit (c : TcpConnection) {e : ConnEvent} (he : quietEvent e = true) :
    Quiet c { c with trace := c.trace ++ [e] } := by
  refine ⟨.inl rfl, rfl, rfl, ⟨[e], rfl, fun e' he' => ?_⟩, .inl rfl⟩
  rwa [List.mem_singleton.mp he']

theorem quiet_inputBuffer (c : TcpConnection) (b : WfBuffer) : Quiet c { c with inputBuffer := b } :=
  ⟨.inl rfl, rfl, rfl, ⟨[], (List.append_nil _).symm, nofun⟩, .inl rfl⟩

theorem quiet_outputBuffer (c : TcpConnection) (b : WfBuffer) :
    Quiet c { c with outputBuffer := b } :=
  ⟨.inl rfl, rfl, rfl, ⟨[], (List.append_nil _).symm, nofun⟩, .inl rfl⟩

theorem quiet_enableWriting {c : TcpConnection} (hopen : c.isOpen = true) :
    Quiet c { c with channel := c.channel.enableWriting.1 } :=
  ⟨.inl rfl, rfl, rfl, ⟨[], (List.append_nil _).symm, nofun⟩,
    .inr ⟨.inl hopen, fun h => h.enableWriting, Channel.setEvents_revents _ _⟩⟩

theorem quiet_disableWriting {c : TcpConnection} (hw : c.channel.isWriting = true) :
    Quiet c { c with channel := c.channel.disableWriting.1 } :=
  ⟨.inl rfl, rfl, rfl, ⟨[], (List.append_nil _).symm, nofun⟩,
    .inr ⟨.inr hw, fun h => h.disableWriting, Channel.setEvents_revents _ _⟩⟩

theorem quiet_kDisconnecting {c : TcpConnection} (hs : c.state = .kConnected) :
    Quiet c { c with state := .kDisconnecting } :=
  ⟨.inr ⟨hs, rfl⟩, rfl, rfl, ⟨[], (List.append_nil _).symm, nofun⟩, .inl rfl⟩

/-! ## The functions that make quiet changes only -/

/-- Quiet changes do not disturb `J`, and from it user code may be called, and comes back to it. -/
structure QuietRule (C : Contract TcpConnection SysCall SysResult Callback Fault)
    (guar rely J : TcpConnection → TcpConnection → Prop) : Prop where
  quiet : ∀ c₀ c c', J c₀ c → Quiet c c' → J c₀ c'
  call : ∀ c₀ c u, u ≠ .close → J c₀ c → C.inv c ∧ guar c₀ c ∧ C.pre u c
  back : ∀ c c', C.inv c' → rely c c' → J c' c'

section
variable {C : Contract TcpConnection SysCall SysResult Callback Fault}
  {guar rely J : TcpConnection → TcpConnection → Prop} (hr : QuietRule C guar rely J)
include hr

theorem stable_callback {u : Callback} (hu : u ≠ .close) : Stable C guar rely J (callback u) :=
  Stable.callback (fun c₀ c h => hr.call c₀ c u hu h) hr.back

theorem stable_writeComplete : Stable C guar rely J invokeWriteCompleteCallback := by
  refine Stable.bind (Stable.modify fun c₀ c h => ?_) fun _ => stable_callback hr nofun
  exact hr.quiet c₀ c _ h (quiet_emit c rfl)

theorem stable_sendInLoop {c₀ c : TcpConnection} (h : J c₀ c) (hopen : c.isOpen = true)
    (data : List Byte) :
    wp C guar rely (sendInLoop data) (fun c₀ c _ => J c₀ c) c₀ c := by
  have hlater : ∀ c', J c₀ c' → c'.isOpen = true → ∀ rest, J c₀ { c' with
      outputBuffer := c'.outputBuffer.append rest
      channel := c'.channel.enableWriting.1 } := by
    intro c' h' hopen' rest
    refine hr.quiet c₀ c' _ h' ((quiet_outputBuffer c' (c'.outputBuffer.append rest)).trans ?_)
    exact quiet_enableWriting hopen'
  unfold sendInLoop write appendOutput setChannel emit
  simp only [wp_bind, wp_read, wp_ite, wp_syscall]
  split
  · exact h
  split
  · intro a _
    rcases a with n | _ | _
    · have hwritten := hr.quiet c₀ c _ h (quiet_emit c (e := .written (data.take n)) rfl)
      simp only [wp_bind, wp_modify, wp_pure, wp_ite, wp_when]
      split
      · exact stable_writeComplete hr c₀ _ hwritten
      split
      · exact hlater _ hwritten hopen _
      · exact hwritten
    · exact hlater c h hopen data
    · exact hlater c h hopen data
  · exact hr.quiet c₀ c _ h (quiet_outputBuffer c _)

theorem stable_send (message : List Byte) : Stable C guar rely J (send message) := by
  intro c₀ c h
  unfold send emit
  simp only [wp_bind, wp_read, wp_when, wp_modify]
  split
  · rename_i hstate
    have haccepted := hr.quiet c₀ c _ h (quiet_emit c (e := .accepted message) rfl)
    refine stable_sendInLoop hr haccepted ?_ message
    simp_all [isOpen]
  · exact h

theorem stable_sendBuffer (buffer : WfBuffer) : Stable C guar rely J (sendBuffer buffer) := by
  intro c₀ c h
  unfold sendBuffer emit
  simp only [wp_bind, wp_read, wp_ite, wp_modify, wp_pure]
  split
  · rename_i hstate
    have haccepted := hr.quiet c₀ c _ h (quiet_emit c (e := .accepted buffer.readable) rfl)
    refine wp_mono (stable_sendInLoop hr haccepted ?_ _) fun _ _ _ h => h
    simp_all [isOpen]
  · exact h

theorem stable_shutdownInLoop : Stable C guar rely J shutdownInLoop :=
  Stable.bind Stable.read fun _ => Stable.when
    (Stable.modify fun c₀ c h => hr.quiet c₀ c _ h (quiet_emit c rfl))

theorem stable_shutdown : Stable C guar rely J shutdown := by
  intro c₀ c h
  unfold shutdown setState
  simp only [wp_bind, wp_read, wp_when, wp_modify]
  split
  · rename_i hstate
    have hstate : c.state = .kConnected := by simpa using hstate
    exact stable_shutdownInLoop hr c₀ _ (hr.quiet c₀ c _ h (quiet_kDisconnecting hstate))
  · exact h

theorem stable_finishWrite {c₀ c : TcpConnection} (h : J c₀ c) (hw : c.channel.isWriting = true) :
    wp C guar rely finishWrite (fun c₀ c _ => J c₀ c) c₀ c := by
  unfold finishWrite setChannel
  rw [wp_bind, wp_modify]
  have hoff := hr.quiet c₀ c _ h (quiet_disableWriting hw)
  refine Stable.bind Stable.read (fun _ => ?_) c₀ _ hoff
  refine Stable.bind (Stable.when (stable_writeComplete hr)) fun _ => ?_
  exact Stable.bind Stable.read fun _ => Stable.when (stable_shutdownInLoop hr)

theorem stable_handleWrite : Stable C guar rely J handleWrite := by
  intro c₀ c h
  unfold handleWrite write emit
  simp only [wp_bind, wp_read, wp_when, wp_syscall]
  split
  · rename_i hw
    intro a _
    rcases a with n | _ | _
    · have hwritten := hr.quiet c₀ c _ h
        (quiet_emit c (e := .written (c.outputBuffer.writeFd.take n)) rfl)
      simp only [wp_bind, wp_modify, wp_pure, wp_when, wp_read]
      split
      · have hretrieved := hr.quiet c₀ _ _ hwritten
          (quiet_outputBuffer _ (c.outputBuffer.retrieve n))
        split
        · exact stable_finishWrite hr hretrieved hw
        · exact hretrieved
      · exact hwritten
    · exact h
    · exact h
  · exact h

theorem stable_consume (len : Nat) : Stable C guar rely J (entry (.consume len)) :=
  Stable.modify fun c₀ c h => hr.quiet c₀ c _ h (quiet_inputBuffer c _)

omit hr in
theorem stable_handleError : Stable C guar rely J handleError :=
  Stable.bind (Stable.syscall _) fun _ => Stable.pure _

end

/-! ## In a larger system -/

def quietContract : Contract TcpConnection SysCall SysResult Callback Fault where
  inv _ := True
  pre u _ := u ≠ .close
  tolerates _ _ := False
  allow _ _ _ := True

/-- The program makes quiet changes only, and does not call `closeCallback_`. -/
abbrev StaysQuiet {α : Type} (p : ConnM α) : Prop := Stable quietContract Quiet (fun _ _ => True) Quiet p

theorem quiet_rule : QuietRule quietContract Quiet (fun _ _ => True) Quiet where
  quiet _ _ _ h hq := h.trans hq
  call _ _ _ hu h := ⟨trivial, h, hu⟩
  back _ c' _ _ := .refl c'

theorem StaysQuiet.run {σ Q ι κ α : Type}
    {E : Embedding TcpConnection SysCall SysResult Callback σ Q ι κ Fault} {C : Contract σ Q ι κ Fault}
    {guar rely J : σ → σ → Prop} {p : ConnM α} (hp : StaysQuiet p) (hE : E.Lawful)
    (hput : ∀ s₀ s c, J s₀ s → Quiet (E.view s) c → J s₀ (E.put c s))
    (hhandler : ∀ u, u ≠ .close → Stable C guar rely J (E.handler u)) :
    Stable C guar rely J (E.run p) := by
  intro s₀ s h
  refine E.wp_run hE (I := J) (fun _ _ _ _ => trivial) (fun _ _ _ _ _ => False.elim) ?_ ?_ h
    (hp _ _ (.refl _))
  · intro s₀ s₁ c u h₁ _ hq hu
    refine wp_mono (hhandler u hu s₀ _ (hput s₀ s₁ c h₁ hq)) ?_
    exact fun _ _ _ h' => ⟨h', trivial, trivial⟩
  · exact fun s₀ s₁ c _ h₁ hq => hput s₀ s₁ c h₁ hq

end TcpConnection

end Agora
