import Agora.Conn.Stream
import Agora.Lib.Idle

/-!
# Write interest and the half-close

`shutdownInLoop` looks at the write interest of the channel alone. While the connection is up, bytes
that wait in `outputBuffer_` keep the interest on, so the half-close comes behind all of them. The
converse needs that no `write` of nothing fails.
-/

open Agora.Lib

namespace Agora.Channel

theorem setEvents_isWriting (ch : Channel) (events : EventMask) :
    (ch.setEvents events).1.isWriting = events.epollout := by
  unfold setEvents EPollPoller.updateChannel isWriting
  split
  · rfl
  · rfl
  · split <;> rfl

@[simp] theorem enableReading_isWriting (ch : Channel) :
    ch.enableReading.1.isWriting = ch.isWriting := by
  rw [enableReading, setEvents_isWriting]
  simp [EventMask.or, kReadEvent, EventMask.none, isWriting]

@[simp] theorem enableWriting_isWriting (ch : Channel) : ch.enableWriting.1.isWriting = true := by
  rw [enableWriting, setEvents_isWriting]
  simp [EventMask.or, kWriteEvent]

@[simp] theorem disableWriting_isWriting (ch : Channel) : ch.disableWriting.1.isWriting = false := by
  rw [disableWriting, setEvents_isWriting]
  simp [EventMask.minus, kWriteEvent]

@[simp] theorem disableAll_isWriting (ch : Channel) : ch.disableAll.1.isWriting = false := by
  rw [disableAll, setEvents_isWriting]
  rfl

@[simp] theorem removeChannel_isWriting (ch : Channel) :
    ch.removeChannel.1.isWriting = ch.isWriting := rfl

end Agora.Channel

namespace Agora.TcpConnection

open Spec Prog

/-- Behind the half-close nothing is accepted and nothing is written. -/
def Final (t : List ConnEvent) : Prop :=
  ∀ u v, t = u ++ .shutdownWrite :: v → accepted v = [] ∧ written v = []

theorem Final.snoc {t : List ConnEvent} (h : Final t) {e : ConnEvent}
    (he : .shutdownWrite ∈ t → accepted [e] = [] ∧ written [e] = []) : Final (t ++ [e]) := by
  intro u v heq
  rcases List.eq_nil_or_concat v with rfl | ⟨v, x, rfl⟩
  · exact ⟨rfl, rfl⟩
  · rw [List.concat_eq_append, ← List.cons_append, ← List.append_assoc] at heq
    obtain ⟨rfl, hx⟩ := List.append_inj' heq rfl
    obtain rfl := List.singleton_inj.mp hx
    obtain ⟨ha, hw⟩ := h u v rfl
    obtain ⟨ha', hw'⟩ := he (List.mem_append_right u List.mem_cons_self)
    rw [List.concat_eq_append, accepted_snoc, written_snoc, ha, ha', hw, hw']
    exact ⟨rfl, rfl⟩

/-- The bytes, the write interest and the half-close. With `strict` the interest is on only while bytes
wait. -/
structure Drained (strict : Prop) (c : TcpConnection) : Prop where
  bytes : written c.trace ++ c.outputBuffer.readable = accepted c.trace
  pending : c.state ≠ .kDisconnected → c.outputBuffer.readable ≠ [] → c.channel.isWriting = true
  needed : strict → c.channel.isWriting = true → c.outputBuffer.readable ≠ []
  closed : .shutdownWrite ∈ c.trace → (c.state = .kDisconnecting ∨ c.state = .kDisconnected) ∧
    c.channel.isWriting = false ∧ c.outputBuffer.readable = []
  final : Final c.trace

/-- The half-close has been made, or it waits for a writable event. -/
def HalfClosed (c : TcpConnection) : Prop :=
  c.state = .kDisconnecting → c.channel.isWriting = true ∨ .shutdownWrite ∈ c.trace

/-- Whether an answer to `::write` is none that fails on nothing. -/
def takesNothing : SysCall → SysResult → Bool
  | .write 0, .count _ => true
  | .write 0, _ => false
  | _, _ => true

def drainContract (strict : Prop) : Contract TcpConnection SysCall SysResult Callback Fault where
  inv := Drained strict
  pre _ _ := True
  tolerates _ := Drained strict
  allow _ q a := q.valid a = true ∧ (strict → takesNothing q a = true)

/-! ## Changes -/

variable {strict : Prop}

theorem Drained.of_eq {c c' : TcpConnection} (h : Drained strict c) (ht : c'.trace = c.trace)
    (ho : c'.outputBuffer = c.outputBuffer) (hw : c'.channel.isWriting = c.channel.isWriting)
    (hs : c'.state = c.state) : Drained strict c' := by
  obtain ⟨hbytes, hpending, hneeded, hclosed, hfinal⟩ := h
  rw [← ht, ← ho] at hbytes
  rw [← ho, ← hw, ← hs] at hpending
  rw [← ho, ← hw] at hneeded
  rw [← ht, ← ho, ← hw, ← hs] at hclosed
  rw [← ht] at hfinal
  exact ⟨hbytes, hpending, hneeded, hclosed, hfinal⟩

theorem Drained.of_state {c : TcpConnection} (h : Drained strict c) {s : ConnState}
    (hup : s ≠ .kDisconnected → c.state ≠ .kDisconnected)
    (hs : .shutdownWrite ∈ c.trace → s = .kDisconnecting ∨ s = .kDisconnected) :
    Drained strict { c with state := s } :=
  ⟨h.bytes, fun hs' => h.pending (hup hs'), h.needed,
    fun hmem => ⟨hs hmem, (h.closed hmem).2⟩, h.final⟩

theorem Drained.not_shut {c : TcpConnection} (h : Drained strict c)
    (hs : c.state = .kConnecting ∨ c.state = .kConnected) : .shutdownWrite ∉ c.trace := by
  intro hmem
  have hdown := (h.closed hmem).1
  rcases hs with hs | hs
  · rw [hs] at hdown
    rcases hdown with hdown | hdown <;> cases hdown
  · rw [hs] at hdown
    rcases hdown with hdown | hdown <;> cases hdown

theorem Drained.down {c : TcpConnection} (h : Drained strict c) :
    Drained strict { c with state := .kDisconnected, channel := c.channel.disableAll.1 } := by
  refine ⟨h.bytes, fun hs => absurd rfl hs, fun _ hw => ?_, fun hmem => ?_, h.final⟩
  · rw [Channel.disableAll_isWriting] at hw
    cases hw
  · exact ⟨.inr rfl, Channel.disableAll_isWriting _, (h.closed hmem).2.2⟩

theorem Drained.of_open {c : TcpConnection} (hopen : .shutdownWrite ∉ c.trace)
    (hbytes : written c.trace ++ c.outputBuffer.readable = accepted c.trace)
    (hpending : c.outputBuffer.readable ≠ [] → c.channel.isWriting = true)
    (hneeded : strict → c.channel.isWriting = true → c.outputBuffer.readable ≠ []) :
    Drained strict c := by
  refine ⟨hbytes, fun _ => hpending, hneeded, fun hmem => absurd hmem hopen, ?_⟩
  rintro u v heq
  exact absurd (heq ▸ List.mem_append_right u List.mem_cons_self) hopen

theorem Drained.snoc {c : TcpConnection} (h : Drained strict c) {e : ConnEvent}
    (ha : accepted [e] = []) (hw : written [e] = []) (he : e ≠ .shutdownWrite) :
    Drained strict { c with trace := c.trace ++ [e] } := by
  refine ⟨?_, h.pending, h.needed, fun hmem => ?_, h.final.snoc fun _ => ⟨ha, hw⟩⟩
  · have hbytes := h.bytes
    dsimp only
    rw [written_snoc, accepted_snoc, ha, hw, List.append_nil, List.append_nil]
    exact hbytes
  · rcases List.mem_append.mp hmem with hmem | hmem
    · exact h.closed hmem
    · exact absurd (List.mem_singleton.mp hmem).symm he

theorem Drained.shut {c : TcpConnection} (h : Drained strict c) (hs : c.state = .kDisconnecting)
    (hw : c.channel.isWriting = false) :
    Drained strict { c with trace := c.trace ++ [.shutdownWrite] } := by
  have hempty : c.outputBuffer.readable = [] := by
    by_contra hbytes
    have hon := h.pending (by rw [hs]; nofun) hbytes
    rw [hw] at hon
    cases hon
  refine ⟨?_, h.pending, h.needed, fun _ => ⟨.inl hs, hw, hempty⟩, h.final.snoc fun _ => ⟨rfl, rfl⟩⟩
  have hbytes := h.bytes
  dsimp only
  rw [written_snoc, accepted_snoc]
  simpa [accepted, written] using hbytes

theorem HalfClosed.snoc {c : TcpConnection} (h : HalfClosed c) (e : ConnEvent) :
    HalfClosed { c with trace := c.trace ++ [e] } :=
  fun hs => (h hs).imp_right fun hmem => List.mem_append_left _ hmem

theorem HalfClosed.of_eq {c c' : TcpConnection} (h : HalfClosed c) (ht : c'.trace = c.trace)
    (hw : c'.channel.isWriting = c.channel.isWriting) (hs : c'.state = c.state) : HalfClosed c' := by
  unfold HalfClosed at h ⊢
  rw [ht, hw, hs]
  exact h

theorem HalfClosed.of_state {c : TcpConnection} (h : c.state ≠ .kDisconnecting) : HalfClosed c :=
  fun hs => absurd hs h

/-! ## Functions -/

/-- Whoever is called back leaves the half-close as far as it has come. -/
abbrev KeepsHalfClosed (c c' : TcpConnection) : Prop := HalfClosed c → HalfClosed c'

/-- `P` says that the half-close had come so far when the function was called. -/
def Draining (strict P : Prop) (_ c : TcpConnection) : Prop := Drained strict c ∧ (P → HalfClosed c)

section

variable {P : Prop} {guar : TcpConnection → TcpConnection → Prop}
  (hguar : ∀ c₀ c, (P → HalfClosed c) → guar c₀ c)

/-- The function keeps the bytes and the half-close, at its callbacks as well. -/
abbrev StaysDrained (strict P : Prop) (guar : TcpConnection → TcpConnection → Prop) {α : Type}
    (p : ConnM α) : Prop :=
  Stable (drainContract strict) guar KeepsHalfClosed (Draining strict P) p

include hguar in
theorem drained_callback (u : Callback) : StaysDrained strict P guar (callback u) := by
  rintro c₀ c ⟨hdrained, hhalf⟩
  exact ⟨⟨hdrained, hguar c₀ c hhalf, trivial⟩, fun c' hinv hrely => ⟨hinv, fun hp => hrely (hhalf hp)⟩⟩

theorem drained_emit {e : ConnEvent} (ha : accepted [e] = []) (hw : written [e] = [])
    (he : e ≠ .shutdownWrite) : StaysDrained strict P guar (emit e) :=
  Stable.modify fun _ _ h => ⟨h.1.snoc ha hw he, fun hp => (h.2 hp).snoc e⟩

theorem drained_setChannel {f : Channel → Channel × List EpollCtl}
    (hf : ∀ ch, (f ch).1.isWriting = ch.isWriting) : StaysDrained strict P guar (setChannel f) :=
  Stable.modify fun _ c h =>
    ⟨h.1.of_eq rfl rfl (hf c.channel) rfl, fun hp => (h.2 hp).of_eq rfl (hf c.channel) rfl⟩

include hguar in
theorem drained_invoke {u : Callback} {f : TcpConnection → Bool} {e : TcpConnection → ConnEvent}
    (ha : ∀ c, accepted [e c] = []) (hw : ∀ c, written [e c] = [])
    (he : ∀ c, e c ≠ .shutdownWrite) :
    StaysDrained strict P guar (do
      let c ← read
      when (f c) do
        emit (e c)
        callback u : ConnM Unit) :=
  Stable.bind Stable.read fun c => Stable.when
    (Stable.bind (drained_emit (ha c) (hw c) (he c)) fun _ => drained_callback hguar u)

include hguar in
theorem drained_invokeConnectionCallback : StaysDrained strict P guar invokeConnectionCallback :=
  drained_invoke hguar (fun _ => rfl) (fun _ => rfl) fun _ => by simp

include hguar in
theorem drained_invokeCloseCallback : StaysDrained strict P guar invokeCloseCallback :=
  drained_invoke hguar (fun _ => rfl) (fun _ => rfl) fun _ => by simp

include hguar in
theorem drained_invokeMessageCallback : StaysDrained strict P guar invokeMessageCallback :=
  drained_invoke hguar (fun _ => rfl) (fun _ => rfl) fun _ => by simp

include hguar in
theorem drained_invokeWriteCompleteCallback :
    StaysDrained strict P guar invokeWriteCompleteCallback :=
  Stable.bind (drained_emit rfl rfl (by simp)) fun _ => drained_callback hguar _

include hguar in
theorem drained_connectEstablished : StaysDrained strict P guar connectEstablished := by
  intro c₀ c h
  unfold connectEstablished
  simp only [wp_bind, wp_read, wp_assert]
  split
  · rename_i hs
    have hs : c.state = .kConnecting := by simpa using hs
    unfold setState setChannel
    simp only [wp_modify]
    refine drained_invokeConnectionCallback hguar _ _ ⟨?_, fun _ => HalfClosed.of_state nofun⟩
    have hup : Drained strict { c with state := .kConnected } :=
      h.1.of_state (fun _ => by rw [hs]; nofun) fun hmem => absurd hmem (h.1.not_shut (.inl hs))
    exact hup.of_eq rfl rfl (Channel.enableReading_isWriting _) rfl
  · exact h.1

include hguar in
theorem drained_connectDestroyed : StaysDrained strict P guar connectDestroyed := by
  have hclose : StaysDrained strict P guar (do
      setState .kDisconnected
      setChannel Channel.disableAll
      invokeConnectionCallback : ConnM Unit) := by
    intro c₀ c h
    unfold setState setChannel
    simp only [wp_bind, wp_modify]
    exact drained_invokeConnectionCallback hguar _ _ ⟨h.1.down, fun _ => HalfClosed.of_state nofun⟩
  exact Stable.bind Stable.read fun _ =>
    Stable.bind (drained_emit rfl rfl (by simp)) fun _ =>
    Stable.bind (Stable.when hclose) fun _ =>
    Stable.bind (drained_setChannel Channel.removeChannel_isWriting) fun _ =>
    Stable.bind Stable.read fun _ => drained_emit rfl rfl (by simp)

/-! ## Sending -/

include hguar in
/-- From the state of a connection that is up, with `data` accepted and nowhere yet. -/
theorem sendInLoop_drained {c₀ c : TcpConnection} {data : List Byte} (hs : c.state = .kConnected)
    (hopen : .shutdownWrite ∉ c.trace)
    (hbytes : written c.trace ++ c.outputBuffer.readable ++ data = accepted c.trace)
    (hpending : c.outputBuffer.readable ≠ [] → c.channel.isWriting = true)
    (hneeded : strict → c.channel.isWriting = true → c.outputBuffer.readable ≠ []) :
    wp (drainContract strict) guar KeepsHalfClosed (sendInLoop data)
      (fun c₀ c _ => Draining strict P c₀ c) c₀ c := by
  have hhalf : ∀ {c' : TcpConnection}, c'.state = c.state → HalfClosed c' := by
    intro c' hs'
    exact HalfClosed.of_state (by rw [hs', hs]; nofun)
  unfold sendInLoop write emit appendOutput setChannel
  simp only [wp_bind, wp_read, wp_ite, wp_pure, wp_syscall]
  rw [if_neg (by rw [hs]; nofun)]
  split
  · rename_i hdirect
    obtain ⟨hoff, hempty⟩ : c.channel.isWriting = false ∧ c.outputBuffer.readable = [] := by
      simpa using hdirect
    rw [hempty, List.append_nil] at hbytes
    rintro a ⟨hvalid, htakes⟩
    have hfail : (∀ n, a ≠ .count n) → Draining strict P c₀
        { c with
          outputBuffer := c.outputBuffer.append data
          channel := c.channel.enableWriting.1 } := by
      intro ha
      refine ⟨Drained.of_open hopen ?_ (fun _ => Channel.enableWriting_isWriting _) ?_,
        fun _ => hhalf rfl⟩
      · dsimp only
        rw [WfBuffer.readable_append, hempty]
        exact hbytes
      · intro hstrict _
        dsimp only
        rw [WfBuffer.readable_append, hempty, List.nil_append]
        rintro rfl
        -- Nothing was written, and that has failed.
        cases a with
        | count n => exact ha n rfl
        | bytes b => cases htakes hstrict
        | error e => cases htakes hstrict
    cases a with
    | bytes b => exact hfail nofun
    | error e => exact hfail nofun
    | count n =>
      have hwritten : written (c.trace ++ [.written (data.take n)]) ++ data.drop n =
          accepted (c.trace ++ [.written (data.take n)]) := by
        simp [written, accepted] at hbytes ⊢
        exact hbytes
      have hopen' : .shutdownWrite ∉ c.trace ++ [.written (data.take n)] := by simp [hopen]
      have hall : data.length ≤ n → Draining strict P c₀
          { c with trace := c.trace ++ [.written (data.take n)] } := by
        intro hn
        rw [List.drop_eq_nil_of_le hn, List.append_nil] at hwritten
        refine ⟨Drained.of_open hopen' ?_ hpending hneeded, fun _ => hhalf rfl⟩
        dsimp only
        rw [hempty, List.append_nil]
        exact hwritten
      simp only [wp_bind, wp_modify, wp_pure, wp_ite, wp_when]
      split
      · rename_i hdone
        have hn : data.length ≤ n := by
          have := (Bool.and_eq_true_iff.mp hdone).1
          simp at this
          omega
        exact drained_invokeWriteCompleteCallback hguar _ _ (hall hn)
      split
      · rename_i hmore
        have hrest : data.drop n ≠ [] := by
          rw [Ne, List.drop_eq_nil_iff]
          simp at hmore
          omega
        refine ⟨Drained.of_open hopen' ?_ (fun _ => Channel.enableWriting_isWriting _)
          fun _ _ => ?_, fun _ => hhalf rfl⟩
        · dsimp only
          rw [WfBuffer.readable_append, hempty]
          exact hwritten
        · dsimp only
          rw [WfBuffer.readable_append, hempty]
          exact hrest
      · rename_i hnone
        exact hall (by simp at hnone; omega)
  · -- Earlier bytes wait in front, and the interest is on already.
    rename_i hwait
    have hon : c.channel.isWriting = true := by
      by_contra hoff
      refine hwait ?_
      have hempty : c.outputBuffer.readable = [] := by
        by_contra hbytes
        exact hoff (hpending hbytes)
      rw [Bool.eq_false_of_not_eq_true hoff, WfBuffer.readableBytes_eq, hempty]
      rfl
    refine ⟨Drained.of_open hopen ?_ (fun _ => hon) fun hstrict _ => ?_, fun _ => hhalf rfl⟩
    · dsimp only
      rw [WfBuffer.readable_append, ← List.append_assoc]
      exact hbytes
    · dsimp only
      rw [WfBuffer.readable_append]
      exact List.append_ne_nil_of_left_ne_nil (hneeded hstrict hon) _

include hguar in
theorem drained_accept (c₀ : TcpConnection) {c : TcpConnection} (h : Drained strict c) (hs : c.state = .kConnected)
    (data : List Byte) :
    wp (drainContract strict) guar KeepsHalfClosed (do emit (.accepted data); sendInLoop data)
      (fun c₀ c _ => Draining strict P c₀ c) c₀ c := by
  have hopen := h.not_shut (.inr hs)
  unfold emit
  simp only [wp_bind, wp_modify]
  refine sendInLoop_drained hguar hs (by simp [hopen]) ?_
    (h.pending (by rw [hs]; nofun)) h.needed
  have hbytes := h.bytes
  simp [written, accepted] at hbytes ⊢
  rw [← List.append_assoc, hbytes]

include hguar in
theorem drained_send (message : List Byte) : StaysDrained strict P guar (send message) := by
  intro c₀ c h
  unfold send
  simp only [wp_bind, wp_read, wp_when]
  split
  · rename_i hs
    have haccept := drained_accept hguar c₀ h.1 (by simpa using hs) message
    rw [wp_bind] at haccept
    exact haccept
  · exact h

include hguar in
theorem drained_sendBuffer (buffer : WfBuffer) : StaysDrained strict P guar (sendBuffer buffer) := by
  intro c₀ c h
  have hpeek : buffer.bytesAtPeek buffer.readableBytes = buffer.readable := rfl
  unfold sendBuffer
  simp only [wp_bind, wp_read, wp_ite, wp_pure]
  split
  · rename_i hs
    have haccept := drained_accept hguar c₀ h.1 hs buffer.readable
    rw [wp_bind] at haccept
    rw [hpeek]
    exact haccept
  · exact h

/-! ## Closing -/

theorem shutdownInLoop_drained {c₀ c : TcpConnection} (h : Drained strict c)
    (hs : c.state = .kDisconnecting) :
    wp (drainContract strict) guar KeepsHalfClosed shutdownInLoop
      (fun c₀ c _ => Draining strict P c₀ c) c₀ c := by
  unfold shutdownInLoop shutdownWrite emit
  simp only [wp_bind, wp_read, wp_when, wp_modify]
  split
  · rename_i hoff
    have hoff : c.channel.isWriting = false := by simpa using hoff
    exact ⟨h.shut hs hoff, fun _ _ => .inr (List.mem_append_right _ List.mem_cons_self)⟩
  · rename_i hon
    have hon : c.channel.isWriting = true := by simpa using hon
    exact ⟨h, fun _ _ => .inl hon⟩

theorem drained_shutdown : StaysDrained strict P guar shutdown := by
  intro c₀ c h
  unfold shutdown setState
  simp only [wp_bind, wp_read, wp_when, wp_modify]
  split
  · rename_i hs
    have hs : c.state = .kConnected := by simpa using hs
    refine shutdownInLoop_drained (h.1.of_state (fun _ => by rw [hs]; nofun) fun _ => .inl rfl) rfl
  · exact h

include hguar in
theorem handleClose_drained {c₀ c : TcpConnection} (h : Drained strict c) :
    wp (drainContract strict) guar KeepsHalfClosed handleClose
      (fun c₀ c _ => Draining strict P c₀ c) c₀ c := by
  unfold handleClose
  rw [wp_bind, wp_read, wp_bind, wp_assert]
  split
  · unfold setState setChannel
    rw [wp_bind, wp_modify, wp_bind, wp_modify]
    exact Stable.bind (drained_invokeConnectionCallback hguar)
      (fun _ => drained_invokeCloseCallback hguar) _ _ ⟨h.down, fun _ => HalfClosed.of_state nofun⟩
  · exact h

include hguar in
theorem drained_handleClose : StaysDrained strict P guar handleClose :=
  fun _ _ h => handleClose_drained hguar h.1

include hguar in
theorem drained_forceClose : StaysDrained strict P guar forceClose := by
  intro c₀ c h
  unfold forceClose setState
  rw [wp_bind, wp_read, wp_when]
  split
  · rename_i hs
    have hup : c.state ≠ .kDisconnected := by
      intro hdown
      rw [hdown] at hs
      cases hs
    rw [wp_bind, wp_modify]
    -- Nobody sees the state between: `handleClose` sets the next one at once.
    exact handleClose_drained hguar (h.1.of_state (fun _ => hup) fun _ => .inl rfl)
  · exact h

/-! ## Events -/

theorem drained_handleError : StaysDrained strict P guar handleError :=
  Stable.bind (Stable.syscall _) fun _ => Stable.pure _

include hguar in
theorem drained_handleRead : StaysDrained strict P guar handleRead := by
  refine Stable.bind Stable.read fun c => Stable.bind (Stable.syscall _) fun a => ?_
  split
  · exact drained_handleClose hguar
  · refine Stable.bind (Stable.modify fun _ c h => ?_) fun _ => drained_invokeMessageCallback hguar
    exact ⟨h.1.of_eq rfl rfl rfl rfl, fun hp => (h.2 hp).of_eq rfl rfl rfl⟩
  · exact Stable.pure _
  · exact drained_handleError

/-- Only here the half-close may be missing in a callback: it comes behind it. -/
theorem finishWrite_drained {c₀ c : TcpConnection} (hall : ∀ c₀ c, guar c₀ c)
    (hopen : .shutdownWrite ∉ c.trace) (hbytes : written c.trace = accepted c.trace)
    (hempty : c.outputBuffer.readable = []) :
    wp (drainContract strict) guar KeepsHalfClosed finishWrite
      (fun c₀ c _ => Draining strict P c₀ c) c₀ c := by
  have hlast : ∀ c₀ c : TcpConnection, Drained strict c →
      wp (drainContract strict) guar KeepsHalfClosed (do
        let c ← read
        when (c.state = .kDisconnecting) shutdownInLoop : ConnM Unit)
        (fun c₀ c _ => Draining strict P c₀ c) c₀ c := by
    intro c₀ c h
    rw [wp_bind, wp_read, wp_when]
    split
    · rename_i hs
      exact shutdownInLoop_drained h (by simpa using hs)
    · rename_i hs
      exact ⟨h, fun _ => HalfClosed.of_state (by simpa using hs)⟩
  have hoff : Drained strict { c with channel := c.channel.disableWriting.1 } := by
    refine Drained.of_open hopen ?_ (fun hwait => absurd hempty hwait) fun _ hon => ?_
    · dsimp only
      rw [hempty, List.append_nil]
      exact hbytes
    · rw [Channel.disableWriting_isWriting] at hon
      cases hon
  unfold finishWrite setChannel
  rw [wp_bind, wp_modify, wp_bind, wp_read, wp_bind, wp_when]
  split
  · unfold invokeWriteCompleteCallback emit
    rw [wp_bind, wp_modify, wp_callback]
    exact ⟨⟨hoff.snoc rfl rfl (by simp), hall _ _, trivial⟩, fun c' hinv _ => hlast _ _ hinv⟩
  · exact hlast _ _ hoff

theorem drained_handleWrite (hall : ∀ c₀ c, guar c₀ c) : StaysDrained strict P guar handleWrite := by
  intro c₀ c h
  unfold handleWrite write emit
  simp only [wp_bind, wp_read, wp_when, wp_syscall]
  split
  · rename_i hon
    have hopen : .shutdownWrite ∉ c.trace := by
      intro hmem
      have hoff := (h.1.closed hmem).2.1
      rw [hon] at hoff
      cases hoff
    rintro a ⟨hvalid, -⟩
    cases a with
    | bytes b => exact h
    | error e => exact h
    | count n =>
      have hbytes := h.1.bytes
      have hwritten : written (c.trace ++ [.written (c.outputBuffer.readable.take n)]) ++
          c.outputBuffer.readable.drop n =
            accepted (c.trace ++ [.written (c.outputBuffer.readable.take n)]) := by
        simp [written, accepted] at hbytes ⊢
        exact hbytes
      have hopen' : .shutdownWrite ∉ c.trace ++ [.written (c.outputBuffer.readable.take n)] := by
        simp [hopen]
      simp only [WfBuffer.writeFd_readable, wp_bind, wp_modify, wp_pure, wp_when, wp_read]
      split
      · split
        · rename_i hdone
          have hempty : (c.outputBuffer.retrieve n).readable = [] := by
            rw [WfBuffer.readableBytes_eq, beq_iff_eq, List.length_eq_zero_iff] at hdone
            exact hdone
          have hdrop := hempty
          rw [WfBuffer.readable_retrieve] at hdrop
          rw [hdrop, List.append_nil] at hwritten
          exact finishWrite_drained hall hopen' hwritten hempty
        · rename_i hmore
          have hrest : (c.outputBuffer.retrieve n).readable ≠ [] := by
            intro hempty
            refine hmore ?_
            rw [WfBuffer.readableBytes_eq, hempty]
            rfl
          refine ⟨Drained.of_open hopen' ?_ (fun _ => hon) fun _ _ => hrest, fun _ _ => .inl hon⟩
          dsimp only
          rw [WfBuffer.readable_retrieve]
          exact hwritten
      · -- Nothing was taken.
        rename_i hzero
        obtain rfl : n = 0 := by simpa using hzero
        refine ⟨Drained.of_open hopen' ?_ (fun _ => hon) h.1.needed, fun _ _ => .inl hon⟩
        simpa using hwritten
  · exact h

include hguar in
theorem drained_handleEvent (hall : ∀ c₀ c, guar c₀ c) : StaysDrained strict P guar handleEvent :=
  Stable.bind Stable.read fun _ => Stable.bind (Stable.when (drained_handleClose hguar)) fun _ =>
  Stable.bind Stable.read fun _ => Stable.bind (Stable.when drained_handleError) fun _ =>
  Stable.bind Stable.read fun _ => Stable.bind (Stable.when (drained_handleRead hguar)) fun _ =>
  Stable.bind Stable.read fun _ => Stable.when (drained_handleWrite hall)

include hguar in
theorem drained_entry (label : ConnLabel) (hall : loopOnly label = true → ∀ c₀ c, guar c₀ c) :
    StaysDrained strict P guar (entry label) := by
  cases label with
  | connectEstablished => exact drained_connectEstablished hguar
  | connectDestroyed => exact drained_connectDestroyed hguar
  | event revents =>
    refine Stable.bind (Stable.modify fun _ c h => ?_) fun _ => drained_handleEvent hguar (hall rfl)
    exact ⟨h.1.of_eq rfl rfl rfl rfl, fun hp => (h.2 hp).of_eq rfl rfl rfl⟩
  | send message => exact drained_send hguar message
  | sendBuffer buffer => exact Stable.bind (drained_sendBuffer hguar buffer) fun _ => Stable.pure _
  | shutdown => exact drained_shutdown
  | forceClose => exact drained_forceClose hguar
  | consume len =>
    exact Stable.modify fun _ c h =>
      ⟨h.1.of_eq rfl rfl rfl rfl, fun hp => (h.2 hp).of_eq rfl rfl rfl⟩

end

/-! ## Every run -/

theorem new_drained (fd : Nat) (a b d e : Bool) : Drained strict (new fd a b d e) :=
  Drained.of_open nofun rfl (fun h => absurd rfl h) nofun

/-- A condition on the answers of `::write` that the contract may rely on. -/
def Answers (strict : Prop) (cond : Machine.Condition TcpConnection SysCall SysResult ConnLabel) :
    Prop := strict → ∀ c q a, cond.answer c q a → takesNothing q a = true

theorem machine_settles {cond : Machine.Condition TcpConnection SysCall SysResult ConnLabel}
    (hcond : Answers strict cond) :
    machine.Settles (drainContract strict) (fun _ => KeepsHalfClosed) cond HalfClosed where
  keeps :=
    { refl := fun _ _ h => h
      trans := fun _ _ _ _ h h' hs => h' (h hs)
      init := by
        rintro c ⟨fd, a, b, d, e, rfl⟩
        exact new_drained fd a b d e
      allow := fun c q a hvalid ha => ⟨hvalid, fun hstrict => hcond hstrict c q a ha⟩
      entry := by
        intro label c p hp _ h
        obtain rfl := Option.some.inj hp
        have hrun : StaysDrained strict (HalfClosed c)
            (Machine.Owes (fun _ => KeepsHalfClosed) () (loopOnly label) c) (entry label) := drained_entry
          (fun _ c' hc' => ⟨fun u hu => absurd rfl hu, fun _ => hc'⟩) label
          (fun hloop _ _ => ⟨fun u hu => absurd rfl hu, fun hidle => by rw [hloop] at hidle; cases hidle⟩)
        exact wp_mono (hrun c c ⟨h, id⟩) fun _ c' _ hc' =>
          ⟨hc'.1, fun u hu => absurd rfl hu, fun _ => hc'.2⟩ }
  init := by
    rintro c ⟨fd, a, b, d, e, rfl⟩
    exact HalfClosed.of_state nofun
  entry := by
    intro label c p hp _ h hhalf
    obtain rfl := Option.some.inj hp
    have hrun : StaysDrained strict True
        (Machine.Owes (fun _ => KeepsHalfClosed) () (loopOnly label) c) (entry label) := drained_entry
      (fun _ c' hc' => ⟨fun u hu => absurd rfl hu, fun _ _ => hc' trivial⟩) label
      (fun hloop _ _ => ⟨fun u hu => absurd rfl hu, fun hidle => by rw [hloop] at hidle; cases hidle⟩)
    exact wp_mono (hrun c c ⟨h, fun _ => hhalf⟩) fun _ c' _ hc' =>
      ⟨⟨hc'.1, fun u hu => absurd rfl hu, fun _ _ => hc'.2 trivial⟩, hc'.2 trivial⟩

theorem drained_of_reach {cond : Machine.Condition TcpConnection SysCall SysResult ConnLabel}
    (hcond : Answers strict cond) {c : Config Unit TcpConnection SysCall SysResult Callback Fault}
    (h : machine.Reach cond c) : Drained strict c.st := by
  have hok := (machine_settles hcond).keeps.runOk h
  cases hc : c.crashed with
  | none => exact hok.inv hc
  | some e => exact hok.crash e hc

theorem Drained.complete {c : TcpConnection} (h : Drained strict c) {u v : List ConnEvent}
    (heq : c.trace = u ++ .shutdownWrite :: v) : written u = accepted u ∧ written v = [] := by
  obtain ⟨ha, hw⟩ := h.final u v heq
  obtain ⟨-, -, hempty⟩ := h.closed (heq ▸ List.mem_append_right u List.mem_cons_self)
  have hbytes := h.bytes
  have hcons : accepted (.shutdownWrite :: v) = accepted v ∧ written (.shutdownWrite :: v) = written v :=
    ⟨rfl, rfl⟩
  have hsplit : accepted c.trace = accepted u ∧ written c.trace = written u := by
    rw [heq, accepted_append, written_append, hcons.1, hcons.2, ha, hw, List.append_nil,
      List.append_nil]
    exact ⟨rfl, rfl⟩
  rw [hempty, List.append_nil, hsplit.1, hsplit.2] at hbytes
  exact ⟨hbytes, hw⟩

/-- **A half-close never truncates output**: at each `shutdownWrite` the kernel has all that was
accepted, and nothing is written or waits behind it. -/
theorem half_close_after_output {c : Config Unit TcpConnection SysCall SysResult Callback Fault}
    (h : machine.Reachable c) :
    (∀ u v, c.st.trace = u ++ .shutdownWrite :: v → written u = accepted u ∧ written v = []) ∧
      (.shutdownWrite ∈ c.st.trace → c.st.outputBuffer.readable = []) := by
  have hdrained : Drained False c.st := drained_of_reach (fun hfalse => hfalse.elim) h
  exact ⟨fun u v heq => hdrained.complete heq, fun hmem => (hdrained.closed hmem).2.2⟩

/-- The user shuts down while bytes wait, and the half-close is made behind the last of them. -/
theorem half_close_after_output_drained :
    ∃ c, machine.system.run (fun _ _ => True) (.initial (new 3 false false false false))
        [.start .connectEstablished [], .start (.send [1, 2, 3]) [.count 2], .start .shutdown [],
          .start (.event kWriteEvent) [.count 1]] = some c ∧
      .shutdownWrite ∈ c.st.trace ∧ c.st.outputBuffer.readable = [] := by
  have hrun : (machine.system.run (fun _ _ => True) (.initial (new 3 false false false false))
      [.start .connectEstablished [], .start (.send [1, 2, 3]) [.count 2], .start .shutdown [],
        .start (.event kWriteEvent) [.count 1]]).map
      (fun c => c.st.trace.contains .shutdownWrite) = some true := by decide +kernel
  obtain ⟨c, hc, hshut⟩ := Option.map_eq_some_iff.mp hrun
  have hreach := machine.reachable_of_run ⟨3, false, false, false, false, rfl⟩ hc
  have hmem := List.contains_iff_mem.mp hshut
  exact ⟨c, hc, hmem, (half_close_after_output hreach).2 hmem⟩

/-- No `::write` of nothing fails. -/
def emptyWritesSucceed : Machine.Condition TcpConnection SysCall SysResult ConnLabel :=
  ⟨fun _ _ => True, fun _ q a => takesNothing q a = true⟩

instance : ∀ c label, Decidable (emptyWritesSucceed.label c label) :=
  fun _ _ => inferInstanceAs (Decidable True)

instance : ∀ c q a, Decidable (emptyWritesSucceed.answer c q a) :=
  fun _ q a => inferInstanceAs (Decidable (takesNothing q a = true))

/-- **Write interest means pending output** in every run in which no `::write` of nothing fails, and
outside of its functions a connection that shuts down has bytes waiting or is half-closed. -/
theorem interest_means_output {c : Config Unit TcpConnection SysCall SysResult Callback Fault}
    (h : machine.Reach emptyWritesSucceed c) (hc : c.crashed = none) :
    (c.st.state = .kConnected ∨ c.st.state = .kDisconnecting →
      (c.st.channel.isWriting = true ↔ 0 < c.st.outputBuffer.readableBytes)) ∧
    (c.frames () = [] → c.st.state = .kDisconnecting →
      0 < c.st.outputBuffer.readableBytes ∨ .shutdownWrite ∈ c.st.trace) ∧
    (c.st.channel.isWriting = true → 0 < c.st.outputBuffer.readableBytes) := by
  have hanswers : Answers True emptyWritesSucceed := fun _ _ _ _ ha => ha
  have hdrained : Drained True c.st := drained_of_reach hanswers h
  have hneeded : c.st.channel.isWriting = true → 0 < c.st.outputBuffer.readableBytes := by
    intro hon
    rw [WfBuffer.readableBytes_eq]
    exact List.length_pos_of_ne_nil (hdrained.needed trivial hon)
  refine ⟨fun hs => ⟨hneeded, fun hwait => ?_⟩, fun hframes hs => ?_, hneeded⟩
  · refine hdrained.pending ?_ ?_
    · rcases hs with hs | hs
      · rw [hs]
        nofun
      · rw [hs]
        nofun
    · rw [WfBuffer.readableBytes_eq] at hwait
      exact List.ne_nil_of_length_pos hwait
  · exact ((machine_settles hanswers).idle h hc hframes hs).imp_left hneeded

theorem interest_means_output_shutdown :
    ∃ c, machine.system.run (machine.Meets emptyWritesSucceed)
        (.initial (new 3 false false false false))
        [.start .connectEstablished [], .start (.send []) [.count 0],
          .start (.send [1, 2, 3]) [.count 2], .start .shutdown []] = some c ∧
      c.st.state = .kDisconnecting ∧ c.frames () = [] ∧
      (0 < c.st.outputBuffer.readableBytes ∨ .shutdownWrite ∈ c.st.trace) := by
  have hrun : machine.system.run (machine.Meets emptyWritesSucceed)
      (.initial (new 3 false false false false))
      [.start .connectEstablished [], .start (.send []) [.count 0],
        .start (.send [1, 2, 3]) [.count 2], .start .shutdown []] = some _ := rfl
  have hreach := machine.reach_of_run ⟨3, false, false, false, false, rfl⟩ hrun
  exact ⟨_, hrun, rfl, rfl, (interest_means_output hreach rfl).2.1 rfl rfl⟩

/-- An empty payload whose `::write` fails leaves the interest on with nothing to write: a writable
event finds nothing, and the half-close is never made. -/
theorem empty_write_keeps_interest :
    ∃ c, machine.Reachable c ∧ c.crashed = none ∧ c.frames () = [] ∧ c.st.state = .kDisconnecting ∧
      c.st.channel.isWriting = true ∧ c.st.outputBuffer.readableBytes = 0 ∧
      .shutdownWrite ∉ c.st.trace := by
  have hrun : (machine.system.run (fun _ _ => True) (.initial (new 3 false false false false))
      [.start .connectEstablished [], .start (.send []) [.error .again], .start .shutdown [],
        .start (.event kWriteEvent) [.count 0]]).map
      (fun c => (c.crashed, (c.frames ()).isEmpty, c.st.state, c.st.channel.isWriting,
        c.st.outputBuffer.readableBytes, c.st.trace.contains .shutdownWrite)) =
      some (none, true, .kDisconnecting, true, 0, false) := by decide +kernel
  obtain ⟨c, hc, hfields⟩ := Option.map_eq_some_iff.mp hrun
  simp only [Prod.mk.injEq] at hfields
  obtain ⟨hcrash, hframes, hs, hon, hempty, hopen⟩ := hfields
  have hreach := machine.reachable_of_run ⟨3, false, false, false, false, rfl⟩ hc
  refine ⟨c, hreach, hcrash, List.isEmpty_iff.mp hframes, hs, hon, hempty, fun hmem => ?_⟩
  rw [List.contains_iff_mem.mpr hmem] at hopen
  cases hopen

end Agora.TcpConnection
