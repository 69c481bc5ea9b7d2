import Agora.Conn.Quiet
import Agora.Lib.Ledger

/-! # How a connection closes, and what it notifies of it -/

open Agora.Lib Agora.Lib.Prog

namespace Agora.TcpConnection

def isDown (c : TcpConnection) : Prop := .connectionCallback false ∈ c.trace

def closes (c : TcpConnection) : Nat := c.trace.count .closeCallback

/-- `messageCallback_` is never called behind the disconnected `connectionCallback_`. -/
def NoMessageAfterDown (c : TcpConnection) : Prop :=
  ∀ u, u ++ [.messageCallback] <+: c.trace → .connectionCallback false ∉ u

/-- The events whose handlers close the connection or call `messageCallback_`. -/
def reads (revents : EventMask) : Bool := revents.epollin || revents.epollpri || revents.epollhup

/-- Not a mask after whose close the connection is still read. -/
def CalmMask (revents : EventMask) : Prop :=
  ¬ (revents.epollhup = true ∧ revents.epollpri = true ∧ revents.epollin = false)

instance (revents : EventMask) : Decidable (CalmMask revents) := inferInstanceAs (Decidable (¬ _))

/-- The state of a connection between calls; `revents` is what the poller has reported last. -/
structure CloseOk (revents : EventMask) (c : TcpConnection) : Prop where
  revents : c.channel.revents = revents
  opened : c.isOpen = true → c.channel.Reading
  silent : c.isOpen = false → c.channel.Silent
  quiet : c.state ≠ .kDisconnected → ¬ c.isDown ∧ c.closes = 0
  once : c.closes ≤ 1
  order : c.NoMessageAfterDown

/-! ## Changes -/

variable {revents : EventMask}

theorem isOpen_state {c : TcpConnection} (h : c.isOpen = true) : c.state ≠ .kDisconnected := by
  intro hs
  simp [isOpen, hs] at h

theorem noMessageAfterDown_snoc {c : TcpConnection} {e : ConnEvent} (h : c.NoMessageAfterDown)
    (he : e = .messageCallback → ¬ c.isDown) :
    NoMessageAfterDown { c with trace := c.trace ++ [e] } := by
  intro u hu hdown
  rcases prefix_snoc hu with ⟨rfl, heq⟩ | hpre
  · exact he heq.symm hdown
  · exact h u hpre hdown

theorem closes_snoc {c c' : TcpConnection} {e : ConnEvent} (ht : c'.trace = c.trace ++ [e]) :
    c'.closes = c.closes + if e = .closeCallback then 1 else 0 := by
  unfold closes
  rw [ht, List.count_append, List.count_singleton]
  simp

theorem closes_same {c c' : TcpConnection} {e : ConnEvent} (ht : c'.trace = c.trace ++ [e])
    (he : e ≠ .closeCallback) : c'.closes = c.closes := by
  rw [closes_snoc ht, if_neg he, Nat.add_zero]

theorem CloseOk.emit {c : TcpConnection} (h : CloseOk revents c) {e : ConnEvent}
    (hd : e ≠ .connectionCallback false) (hc : e ≠ .closeCallback)
    (hm : e = .messageCallback → c.isOpen = true) :
    CloseOk revents { c with trace := c.trace ++ [e] } := by
  have hcount : closes { c with trace := c.trace ++ [e] } = c.closes := closes_same rfl hc
  refine ⟨h.revents, h.opened, h.silent, fun hs => ?_, ?_, ?_⟩
  · obtain ⟨hnot, hzero⟩ := h.quiet hs
    refine ⟨fun hdown => ?_, hcount.trans hzero⟩
    rcases List.mem_append.mp hdown with hdown | hdown
    · exact hnot hdown
    · exact hd (List.mem_singleton.mp hdown).symm
  · rw [hcount]
    exact h.once
  · exact noMessageAfterDown_snoc h.order fun he => (h.quiet (isOpen_state (hm he))).1

theorem CloseOk.notify {c : TcpConnection} (h : CloseOk revents c) (hs : c.state = .kDisconnected)
    {e : ConnEvent} (hm : e ≠ .messageCallback) (hc : e = .closeCallback → c.closes = 0) :
    CloseOk revents { c with trace := c.trace ++ [e] } := by
  refine ⟨h.revents, h.opened, h.silent, fun hn => absurd hs hn, ?_, ?_⟩
  · have honce := h.once
    rw [closes_snoc rfl]
    split
    · rename_i he
      have := hc he
      omega
    · omega
  · exact noMessageAfterDown_snoc h.order fun he => absurd he hm

theorem CloseOk.of_channel {c c' : TcpConnection} (h : CloseOk revents c) (ht : c'.trace = c.trace)
    (hr : c'.channel.revents = c.channel.revents)
    (hs : c'.state ≠ .kDisconnected → c.state ≠ .kDisconnected)
    (hopen : c'.isOpen = true → c'.channel.Reading)
    (hsilent : c'.isOpen = false → c'.channel.Silent) : CloseOk revents c' := by
  refine ⟨hr.trans h.revents, hopen, hsilent, fun hs' => ?_, ?_, ?_⟩
  · obtain ⟨hdown, hzero⟩ := h.quiet (hs hs')
    unfold isDown closes
    rw [ht]
    exact ⟨hdown, hzero⟩
  · unfold closes
    rw [ht]
    exact h.once
  · intro u
    rw [ht]
    exact h.order u

theorem CloseOk.emits {c : TcpConnection} (h : CloseOk revents c) {es : List ConnEvent}
    (hes : ∀ e ∈ es, quietEvent e = true) : CloseOk revents { c with trace := c.trace ++ es } := by
  induction es generalizing c with
  | nil =>
    rw [List.append_nil]
    exact h
  | cons e es ih =>
    have he := hes e List.mem_cons_self
    have hd : e ≠ .connectionCallback false := by rintro rfl; cases he
    have hc : e ≠ .closeCallback := by rintro rfl; cases he
    have hm : e = .messageCallback → c.isOpen = true := by rintro rfl; cases he
    rw [List.append_cons]
    exact ih (h.emit hd hc hm) fun e' he' => hes e' (List.mem_cons_of_mem e he')

theorem Quiet.closes {c c' : TcpConnection} (hq : Quiet c c') : c'.closes = c.closes := by
  obtain ⟨es, ht, hes⟩ := hq.trace
  have hnone : ConnEvent.closeCallback ∉ es := by
    intro hin
    cases hes _ hin
  unfold TcpConnection.closes
  rw [ht, List.count_append, List.count_eq_zero.mpr hnone, Nat.add_zero]

theorem CloseOk.quiet_step {c c' : TcpConnection} (h : CloseOk revents c) (hq : Quiet c c') :
    CloseOk revents c' := by
  obtain ⟨es, ht, hes⟩ := hq.trace
  refine (h.emits hes).of_channel ht ?_ ?_ (fun ho => ?_) fun ho => ?_
  · rcases hq.channel with hc | ⟨-, -, hrev⟩
    · rw [hc]
    · exact hrev
  · rcases hq.state with hs | ⟨hs, -⟩
    · rw [hs]
      exact id
    · intro _ hd
      exact absurd (hs.symm.trans hd) nofun
  · rw [hq.isOpen] at ho
    rcases hq.channel with hc | ⟨-, hread, -⟩
    · rw [hc]
      exact h.opened ho
    · exact hread (h.opened ho)
  · rw [hq.isOpen] at ho
    have hoff := h.silent ho
    rcases hq.channel with hc | ⟨hwhen, -, -⟩
    · rw [hc]
      exact hoff
    · rw [ho, hoff.not_writing] at hwhen
      simp at hwhen

/-! ## Programs -/

def closeContract (revents : EventMask) :
    Contract TcpConnection SysCall SysResult Callback Fault where
  inv := CloseOk revents
  pre u c := u = .close → c.state = .kDisconnected
  tolerates _ _ := False
  allow _ _ _ := True

/-- What a segment does to the connection; only with `closing` it may close it. -/
structure Segment (closing : Prop) (c₀ c : TcpConnection) : Prop where
  opened : c₀.isOpen = true → c.isOpen = true ∨ closing
  closed : c₀.state = .kDisconnected → c.state = .kDisconnected
  closes : c.closes = c₀.closes ∨ closing

/-- What user code leaves alone: a closed connection stays closed and its `closeCallback_` is not
called. -/
structure UserStep (c c' : TcpConnection) : Prop where
  closed : c.state = .kDisconnected → c'.state = .kDisconnected ∧ c'.closes = c.closes

theorem UserStep.refl (c : TcpConnection) : UserStep c c := ⟨fun h => ⟨h, rfl⟩⟩

theorem UserStep.trans {c c' c'' : TcpConnection} (h : UserStep c c') (h' : UserStep c' c'') :
    UserStep c c'' := by
  refine ⟨fun hs => ?_⟩
  obtain ⟨hs', hc'⟩ := h.closed hs
  obtain ⟨hs'', hc''⟩ := h'.closed hs'
  exact ⟨hs'', hc''.trans hc'⟩

theorem Segment.refl (closing : Prop) (c : TcpConnection) : Segment closing c c :=
  ⟨.inl, id, .inl rfl⟩

/-- A good connection, in a segment that has led to it. -/
structure Good (revents : EventMask) (closing : Prop) (c₀ c : TcpConnection) : Prop where
  ok : CloseOk revents c
  segment : Segment closing c₀ c

theorem Good.quiet {closing : Prop} {c₀ c c' : TcpConnection} (h : Good revents closing c₀ c)
    (hq : Quiet c c') : Good revents closing c₀ c' := by
  refine ⟨h.ok.quiet_step hq, fun ho => ?_, fun hs => ?_, ?_⟩
  · rw [hq.isOpen]
    exact h.segment.opened ho
  · rcases hq.state with hs' | ⟨hs', -⟩
    · exact hs'.trans (h.segment.closed hs)
    · exact absurd (hs'.symm.trans (h.segment.closed hs)) nofun
  · rw [hq.closes]
    exact h.segment.closes

theorem good_rule (revents : EventMask) (closing : Prop) :
    QuietRule (closeContract revents) (Segment closing) UserStep (Good revents closing) where
  quiet _ _ _ h hq := h.quiet hq
  call _ _ _ hu h := ⟨h.ok, h.segment, fun hc => absurd hc hu⟩
  back _ c' h' _ := ⟨h', .refl closing c'⟩

def Does {α : Type} (revents : EventMask) (closing : Prop) (p : ConnM α) (c : TcpConnection) : Prop :=
  ∀ c₀, Segment closing c₀ c →
    wp (closeContract revents) (Segment closing) UserStep p
      (fun c₀ c _ => Good revents closing c₀ c) c₀ c

variable {closing : Prop} {c : TcpConnection}

theorem does_of_stable {α : Type} {p : ConnM α} (h : CloseOk revents c)
    (hp : Stable (closeContract revents) (Segment closing) UserStep (Good revents closing) p) :
    Does revents closing p c := fun c₀ hs => hp c₀ c ⟨h, hs⟩

theorem does_callback {u : Callback} (h : CloseOk revents c)
    (hu : u = .close → c.state = .kDisconnected) : Does revents closing (callback u) c := by
  intro c₀ hs
  rw [wp_callback]
  exact ⟨⟨h, hs, hu⟩, fun c' h' _ => ⟨h', .refl closing c'⟩⟩

theorem does_handleClose (h : CloseOk revents c) (hopen : c.isOpen = true) (hclosing : closing) :
    Does revents closing handleClose c := by
  intro c₀ hs
  obtain ⟨-, hzero⟩ := h.quiet (isOpen_state hopen)
  have hclosed : CloseOk revents
      { c with state := .kDisconnected, channel := c.channel.disableAll.1 } := by
    refine h.of_channel rfl (Channel.setEvents_revents _ _) (fun hn => absurd rfl hn) nofun ?_
    exact fun _ => (h.opened hopen).disableAll
  have hseg : ∀ c' : TcpConnection, c'.state = .kDisconnected → Segment closing c₀ c' :=
    fun c' hs' => ⟨fun _ => .inr hclosing, fun _ => hs', .inr hclosing⟩
  have hclose : ∀ c₀ c' : TcpConnection, CloseOk revents c' → c'.state = .kDisconnected →
      c'.closes = 0 → Segment closing c₀ c' →
      wp (closeContract revents) (Segment closing) UserStep invokeCloseCallback
        (fun c₀ c _ => Good revents closing c₀ c) c₀ c' := by
    intro c₀ c' h' hs' hz hseg'
    unfold invokeCloseCallback emit
    simp only [wp_bind, wp_read, wp_when, wp_modify]
    split
    · have hnotify := h'.notify hs' (e := .closeCallback) nofun fun _ => hz
      exact does_callback (u := .close) hnotify (fun _ => hs') c₀
        ⟨hseg'.opened, hseg'.closed, .inr hclosing⟩
    · exact ⟨h', hseg'⟩
  unfold handleClose setState setChannel invokeConnectionCallback emit
  simp only [wp_bind, wp_read, wp_assert, wp_modify, wp_when, wp_callback]
  rw [if_pos (show (decide (c.state = .kConnected) || decide (c.state = .kDisconnecting)) = true from
    hopen)]
  split
  · have hdown := hclosed.notify rfl (e := .connectionCallback false) nofun nofun
    refine ⟨⟨hdown, hseg _ rfl, nofun⟩, fun c' h' hu => ?_⟩
    obtain ⟨hs', hc'⟩ := hu.closed rfl
    refine hclose c' c' h' hs' (hc'.trans ?_) (.refl closing c')
    exact Eq.trans (closes_same (c := c) rfl nofun) hzero
  · exact hclose c₀ _ hclosed rfl hzero (hseg _ rfl)

theorem does_forceClose (h : CloseOk revents c) (hclosing : c.isOpen = true → closing) :
    Does revents closing forceClose c := by
  intro c₀ hs
  unfold forceClose setState
  simp only [wp_bind, wp_read, wp_when, wp_modify]
  split
  · rename_i hopen
    have hc : CloseOk revents { c with state := .kDisconnecting } := by
      refine h.of_channel rfl rfl (fun _ => isOpen_state hopen) (fun _ => h.opened hopen) ?_
      intro hn
      simp [isOpen] at hn
    refine does_handleClose hc rfl (hclosing hopen) c₀ ⟨fun _ => .inl rfl, ?_, hs.closes⟩
    exact fun hd => absurd (hs.closed hd) (isOpen_state hopen)
  · exact ⟨h, hs⟩

theorem does_handleRead (h : CloseOk revents c) (hopen : c.isOpen = true) (hclosing : closing) :
    Does revents closing handleRead c := by
  intro c₀ hs
  have hgood : Good revents closing c₀ c := ⟨h, hs⟩
  unfold handleRead
  simp only [wp_bind, wp_read, wp_syscall]
  intro a _
  rcases a with n | ⟨_ | ⟨b, data⟩⟩ | ⟨_ | _⟩
  · exact stable_handleError c₀ c hgood
  · exact does_handleClose h hopen hclosing c₀ hs
  · have hread := hgood.quiet (quiet_inputBuffer c (c.inputBuffer.readFd (some (b :: data))))
    unfold invokeMessageCallback emit
    simp only [wp_bind, wp_read, wp_when, wp_modify]
    split
    · have hmessage := hread.ok.emit (e := .messageCallback) nofun nofun fun _ => hopen
      refine does_callback (u := .message) hmessage nofun c₀ ?_
      refine ⟨hs.opened, hs.closed, hs.closes.imp_left fun hc => ?_⟩
      exact Eq.trans (closes_same (c := c) rfl nofun) hc
    · exact hread
  · exact hgood
  · exact stable_handleError c₀ c hgood

/-- The handlers of one event, in their order. With `EPOLLHUP` alone the connection is closed first,
and a calm mask has nothing to read then. -/
theorem does_handleEvent (h : CloseOk revents c) (hcalm : CalmMask revents)
    (hopen : reads revents = true → c.isOpen = true ∧ closing) :
    Does revents closing handleEvent c := by
  intro c₀ hs
  have hwrite : Stable (closeContract revents) (Segment closing) UserStep (Good revents closing)
      (do let c ← read; when c.channel.revents.epollout handleWrite) :=
    Stable.bind Stable.read fun _ =>
      Stable.when (stable_handleWrite (good_rule revents closing))
  have hread : ∀ c₀ c' : TcpConnection, Good revents closing c₀ c' →
      (reads revents = true → revents.epollhup = true ∧ revents.epollin = false ∨
        c'.isOpen = true ∧ closing) →
      wp (closeContract revents) (Segment closing) UserStep
        (do
          let c ← read
          when (c.channel.revents.epollin || c.channel.revents.epollpri) handleRead
          let c ← read
          when c.channel.revents.epollout handleWrite)
        (fun c₀ c _ => Good revents closing c₀ c) c₀ c' := by
    intro c₀ c' h' ho
    rw [wp_bind, wp_read, wp_bind, wp_when, h'.ok.revents]
    split
    · rename_i hin
      have hr : reads revents = true := by
        unfold reads
        rw [hin]
        rfl
      rcases ho hr with ⟨hhup, hnot⟩ | ⟨ho, hclosing⟩
      · refine absurd ⟨hhup, ?_, hnot⟩ hcalm
        rwa [hnot, Bool.false_or] at hin
      · refine wp_mono (does_handleRead h'.ok ho hclosing c₀ h'.segment) ?_
        exact fun c₀ c' _ h' => hwrite c₀ c' h'
    · exact hwrite c₀ c' h'
  have hlater : ∀ c₀ c' : TcpConnection, Good revents closing c₀ c' →
      (reads revents = true → revents.epollhup = true ∧ revents.epollin = false ∨
        c'.isOpen = true ∧ closing) →
      wp (closeContract revents) (Segment closing) UserStep
        (do
          let c ← read
          when c.channel.revents.epollerr handleError
          let c ← read
          when (c.channel.revents.epollin || c.channel.revents.epollpri) handleRead
          let c ← read
          when c.channel.revents.epollout handleWrite)
        (fun c₀ c _ => Good revents closing c₀ c) c₀ c' := by
    intro c₀ c' h' ho
    rw [wp_bind, wp_read, wp_bind, wp_when]
    split
    · unfold handleError
      rw [wp_bind, wp_syscall]
      exact fun _ _ => hread c₀ c' h' ho
    · exact hread c₀ c' h' ho
  unfold handleEvent
  rw [wp_bind, wp_read, wp_bind, wp_when, h.revents]
  split
  · rename_i hhup
    have hhup : revents.epollhup = true ∧ revents.epollin = false := by simpa using hhup
    obtain ⟨ho, hclosing⟩ := hopen (by simp [reads, hhup.1])
    refine wp_mono (does_handleClose h ho hclosing c₀ hs) ?_
    exact fun c₀ c' _ h' => hlater c₀ c' h' fun _ => .inl hhup
  · exact hlater c₀ c ⟨h, hs⟩ fun hr => .inr (hopen hr)

theorem does_connectEstablished (h : CloseOk revents c) (hstate : c.state = .kConnecting) :
    Does revents closing connectEstablished c := by
  intro c₀ hs
  have hup : Good revents closing c₀
      { c with state := .kConnected, channel := c.channel.enableReading.1 } := by
    refine ⟨?_, fun _ => .inl rfl, fun hd => ?_, hs.closes⟩
    · refine h.of_channel rfl (Channel.setEvents_revents _ _) (fun _ => by rw [hstate]; nofun) ?_ nofun
      exact fun _ => Channel.enableReading_reading _
    · exact absurd (hstate.symm.trans (hs.closed hd)) nofun
  unfold connectEstablished setState setChannel invokeConnectionCallback emit
  simp only [wp_bind, wp_read, wp_assert, wp_modify, wp_when]
  rw [if_pos (by simp [hstate])]
  split
  · have hnotified := hup.ok.emit (e := .connectionCallback true) nofun nofun nofun
    refine does_callback (u := .connection) hnotified nofun c₀ ⟨hup.segment.opened, hup.segment.closed, ?_⟩
    exact hs.closes.imp_left fun hc => Eq.trans (closes_same (c := c) rfl nofun) hc
  · exact hup

theorem does_connectDestroyed (h : CloseOk revents c) (hstate : c.state = .kDisconnected) :
    Does revents closing connectDestroyed c := by
  intro c₀ hs
  have hopen : c.isOpen = false := by simp [isOpen, hstate]
  have hentered := h.notify hstate (e := .destroying c.state) (by simp) (by simp)
  have hremoved : CloseOk revents { c with
      channel := c.channel.removeChannel.1, trace := c.trace ++ [.destroying c.state] } := by
    refine hentered.of_channel rfl rfl id (fun ho => ?_) fun _ => (h.silent hopen).removeChannel
    exact absurd hstate (isOpen_state ho)
  have hleft := hremoved.notify hstate (e := .destroyed c.state) (by simp) (by simp)
  unfold connectDestroyed setChannel emit
  simp only [wp_bind, wp_read, wp_modify, wp_when]
  rw [if_neg (by simp [hstate])]
  refine ⟨hleft, hs.opened, hs.closed, ?_⟩
  refine hs.closes.imp_left fun hc => ?_
  have hentering : closes { c with trace := c.trace ++ [.destroying c.state] } = c.closes :=
    closes_same rfl (by simp)
  exact Eq.trans (closes_same (c := { c with trace := c.trace ++ [.destroying c.state] }) rfl (by simp))
    (hentering.trans hc)

end Agora.TcpConnection
