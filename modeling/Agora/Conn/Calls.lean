import Agora.Conn.Still
import Agora.Conn.Stream

/-!
# Which payloads a connection takes

Those that `send` is called with while the connection is up, whatever user code does in the callbacks.
-/

open Agora.Lib Agora.Lib.Prog Agora.Spec

namespace Agora.TcpConnection

theorem flatten_payloads (c : TcpConnection) : c.payloads.flatten = accepted c.trace := by
  unfold payloads accepted
  induction c.trace with
  | nil => rfl
  | cons e t ih =>
    cases e with
    | accepted payload => simp [ih]
    | _ => simpa using ih

def SamePayloads (c₀ c : TcpConnection) : Prop := c.payloads = c₀.payloads

/-- User code may do anything in a callback. -/
def payloadContract : Contract TcpConnection SysCall SysResult Callback Fault where
  inv _ := True
  pre _ _ := True
  tolerates _ _ := True
  allow _ _ _ := True

abbrev TakesNone {α : Type} (p : ConnM α) : Prop :=
  Stable payloadContract SamePayloads (fun _ _ => True) SamePayloads p

theorem SamePayloads.emit {c₀ c : TcpConnection} (h : SamePayloads c₀ c) {e : ConnEvent}
    (he : ∀ payload, e ≠ .accepted payload) : SamePayloads c₀ { c with trace := c.trace ++ [e] } := by
  have hnone : payloads { c with trace := [e] } = [] := by
    cases e with
    | accepted payload => exact absurd rfl (he payload)
    | _ => rfl
  refine Eq.trans ?_ h
  rw [payloads_snoc, hnone, List.append_nil]

theorem takesNone_modify {f : TcpConnection → TcpConnection} (hf : ∀ c, (f c).trace = c.trace) :
    TakesNone (modify f) := by
  refine Stable.modify fun c₀ c h => Eq.trans ?_ h
  unfold payloads
  rw [hf c]

theorem takesNone_emit {e : ConnEvent} (he : ∀ payload, e ≠ .accepted payload) : TakesNone (emit e) :=
  Stable.modify fun _ _ h => h.emit he

theorem takesNone_callback (u : Callback) : TakesNone (callback u) :=
  Stable.callback (fun _ _ h => ⟨trivial, h, trivial⟩) fun _ _ _ _ => rfl

theorem payload_rule : MuteRule payloadContract SamePayloads (fun _ _ => True) SamePayloads where
  same _ _ _ h _ _ _ ht _ := by
    refine Eq.trans ?_ h
    unfold payloads
    rw [ht]
  snoc _ _ _ h he _ := h.emit fun payload heq => by
    rw [heq] at he
    cases he
  disconnect _ _ h := h
  call _ _ _ h _ _ := ⟨trivial, h, trivial⟩
  back _ _ _ _ := rfl

/-! ## Each function -/

theorem takesNone_invokeConnectionCallback : TakesNone invokeConnectionCallback :=
  Stable.bind Stable.read fun _ => Stable.when
    (Stable.bind (takesNone_emit nofun) fun _ => takesNone_callback _)

theorem takesNone_handleRead : TakesNone handleRead := by
  refine Stable.bind Stable.read fun c => Stable.bind (Stable.syscall _) fun a => ?_
  split
  · exact mute_handleClose payload_rule fun _ _ _ => trivial
  · refine Stable.bind (takesNone_modify fun _ => rfl) fun _ => ?_
    exact Stable.bind Stable.read fun _ => Stable.when
      (Stable.bind (takesNone_emit nofun) fun _ => takesNone_callback _)
  · exact Stable.pure _
  · exact mute_handleError

theorem takesNone_handleEvent : TakesNone handleEvent :=
  Stable.bind Stable.read fun _ =>
  Stable.bind (Stable.when (mute_handleClose payload_rule fun _ _ _ => trivial)) fun _ =>
  Stable.bind Stable.read fun _ => Stable.bind (Stable.when mute_handleError) fun _ =>
  Stable.bind Stable.read fun _ => Stable.bind (Stable.when takesNone_handleRead) fun _ =>
  Stable.bind Stable.read fun _ => Stable.when (mute_handleWrite payload_rule)

/-- A payload is only taken while the connection is up. -/
def whileUp (c : TcpConnection) (payload : List Byte) : List (List Byte) :=
  if c.state = .kConnected then [payload] else []

/-- What a function passes to `send` and the connection takes. -/
def passed (c : TcpConnection) : ConnLabel → List (List Byte)
  | .send message => c.whileUp message
  | .sendBuffer buffer => c.whileUp buffer.readable
  | _ => []

theorem accepted_emit {c₀ c : TcpConnection} {payload : List Byte} (h : c₀.payloads = c.payloads ++ [payload]) :
    SamePayloads c₀ { c with trace := c.trace ++ [.accepted payload] } :=
  (payloads_snoc c (.accepted payload)).trans h.symm

/-- `send` takes its message, all of it, before anything else happens. -/
theorem send_takes {c₀ c : TcpConnection} (message : List Byte)
    (h : c₀.payloads = c.payloads ++ c.whileUp message) :
    wp payloadContract SamePayloads (fun _ _ => True) (send message) (fun c₀ c _ => SamePayloads c₀ c) c₀ c := by
  unfold send emit
  simp only [wp_bind, wp_read, wp_when, wp_modify]
  unfold whileUp at h
  split
  · rename_i hs
    rw [if_pos (of_decide_eq_true hs)] at h
    exact mute_sendInLoop payload_rule message c₀ _ (accepted_emit h)
  · rename_i hs
    rw [if_neg (of_decide_eq_false (eq_false_of_ne_true hs)), List.append_nil] at h
    exact h.symm

theorem sendBuffer_takes {c₀ c : TcpConnection} (buffer : WfBuffer)
    (h : c₀.payloads = c.payloads ++ c.whileUp buffer.readable) :
    wp payloadContract SamePayloads (fun _ _ => True) (sendBuffer buffer)
      (fun c₀ c _ => SamePayloads c₀ c) c₀ c := by
  unfold sendBuffer emit
  simp only [wp_bind, wp_read, wp_ite, wp_modify, wp_pure]
  unfold whileUp at h
  split
  · rename_i hs
    rw [if_pos hs] at h
    exact mute_sendInLoop payload_rule _ c₀ _ (accepted_emit h)
  · rename_i hs
    rw [if_neg hs, List.append_nil] at h
    exact h.symm

theorem entry_takes {c₀ c : TcpConnection} (label : ConnLabel) (h : c₀.payloads = c.payloads ++ passed c label) :
    wp payloadContract SamePayloads (fun _ _ => True) (entry label) (fun c₀ c _ => SamePayloads c₀ c) c₀ c := by
  have hnone : passed c label = [] → SamePayloads c₀ c := by
    intro hnone
    rw [hnone, List.append_nil] at h
    exact h.symm
  have hrest : ∀ p : ConnM Unit, TakesNone p → passed c label = [] →
      wp payloadContract SamePayloads (fun _ _ => True) p (fun c₀ c _ => SamePayloads c₀ c) c₀ c :=
    fun _ hp htaken => hp c₀ c (hnone htaken)
  cases label with
  | send message => exact send_takes message h
  | sendBuffer buffer =>
    unfold entry
    rw [wp_bind]
    exact wp_mono (sendBuffer_takes buffer h) fun _ _ _ h => h
  | connectEstablished =>
    refine hrest _ ?_ rfl
    refine Stable.bind Stable.read fun _ => Stable.bind (Stable.assert fun _ _ _ => trivial) fun _ => ?_
    refine Stable.bind (takesNone_modify fun _ => rfl) fun _ => ?_
    exact Stable.bind (takesNone_modify fun _ => rfl) fun _ => takesNone_invokeConnectionCallback
  | connectDestroyed => exact hrest _ (mute_connectDestroyed payload_rule) rfl
  | event revents =>
    exact hrest _ (Stable.bind (takesNone_modify fun _ => rfl) fun _ => takesNone_handleEvent) rfl
  | shutdown =>
    refine hrest _ (fun c₀ c hsame => ?_) rfl
    exact wp_mono (mute_shutdown payload_rule hsame fun _ => hsame) fun _ _ _ h => h.1
  | forceClose =>
    refine hrest _ ?_ rfl
    exact Stable.bind Stable.read fun _ => Stable.when
      (Stable.bind (takesNone_modify fun _ => rfl) fun _ => mute_handleClose payload_rule fun _ _ _ => trivial)
  | consume len => exact hrest _ (takesNone_modify fun _ => rfl) rfl

/-! ## Every run -/

abbrev ConnConfig := Config Unit TcpConnection SysCall SysResult Callback Fault
abbrev ConnAction := Action Unit SysResult ConnLabel

/-- What the step passes to `send` while the connection is up. -/
def sends (c : TcpConnection) : ConnAction → List (List Byte)
  | .start label _ => passed c label
  | .resume _ _ => []

/-- What the steps of a run pass to `send` while the connection is up. -/
def calls (c : ConnConfig) : List ConnAction → List (List Byte)
  | [] => []
  | a :: as => sends c.st a ++ (match machine.step c a with
    | some c' => calls c' as
    | none => [])

theorem calls_cons {c c' : ConnConfig} {a : ConnAction} (hs : machine.step c a = some c') (as : List ConnAction) :
    calls c (a :: as) = sends c.st a ++ calls c' as := by
  simp only [calls, hs]

/-- The suspended functions take nothing any more. -/
def SuspendedTakeNone (c : ConnConfig) : Prop :=
  ∀ f ∈ c.frames (), ∀ s, wp payloadContract SamePayloads (fun _ _ => True) f.2
    (fun c₀ c _ => SamePayloads c₀ c) s s

theorem settle_takes {c : ConnConfig} {rest : List (Callback × ConnM Unit)} {c₀ : TcpConnection}
    {stop : Stop TcpConnection SysCall SysResult Callback Fault Unit}
    (hrest : ∀ f ∈ rest, f ∈ c.frames ()) (hframes : SuspendedTakeNone c)
    (hstop : StopOk payloadContract SamePayloads (fun _ _ => True) (fun c₀ c _ => SamePayloads c₀ c) c₀ stop) :
    ((Machine.settle c () rest stop).crashed = none → SamePayloads c₀ (Machine.settle c () rest stop).st) ∧
      SuspendedTakeNone (Machine.settle c () rest stop) := by
  cases stop with
  | done s a =>
    refine ⟨fun _ => hstop, fun f hf => hframes f (hrest f ?_)⟩
    simpa [Machine.settle] using hf
  | called s u k =>
    refine ⟨fun _ => hstop.1.2.1, fun f hf => ?_⟩
    have hf : f = (u, k) ∨ f ∈ rest := by simpa [Machine.settle] using hf
    rcases hf with rfl | hf
    · exact fun s' => hstop.2 s' trivial trivial
    · exact hframes f (hrest f hf)
  | faulted s e =>
    refine ⟨fun hc => ?_, fun f hf => hframes f (hrest f ?_)⟩
    · cases hc
    · simpa [Machine.settle] using hf

theorem step_takes {c c' : ConnConfig} {a : ConnAction} (hframes : SuspendedTakeNone c)
    (hs : machine.step c a = some c') :
    (c'.crashed = none → c'.st.payloads = c.st.payloads ++ sends c.st a) ∧ SuspendedTakeNone c' := by
  cases a with
  | start label answers =>
    obtain ⟨p, stop, hp, he, rfl⟩ := machine.step_start hs
    obtain rfl := Option.some.inj hp
    -- The state in which the payload has been taken and nothing else has happened.
    obtain ⟨c₀, hc₀⟩ : ∃ c₀ : TcpConnection, c₀.payloads = c.st.payloads ++ passed c.st label := by
      refine ⟨{ c.st with trace := c.st.trace ++ (passed c.st label).map .accepted }, ?_⟩
      unfold payloads
      simp
    have hstop := exec_sound (fun _ _ _ _ _ => trivial) (entry_takes label hc₀)
      (Machine.meets_anyStep_prog _ c.st answers) he
    obtain ⟨hsame, hnone⟩ := settle_takes (fun _ hf => hf) hframes hstop
    exact ⟨fun hc => (hsame hc).trans hc₀, hnone⟩
  | resume t answers =>
    obtain ⟨u, k, rest, stop, hstack, he, rfl⟩ := machine.step_resume hs
    have hk := hframes (u, k) (hstack ▸ List.mem_cons_self) c.st
    have hstop := exec_sound (fun _ _ _ _ _ => trivial) hk (Machine.meets_anyStep_prog _ c.st answers) he
    obtain ⟨hsame, hnone⟩ := settle_takes (fun _ hf => hstack ▸ List.mem_cons_of_mem _ hf) hframes hstop
    exact ⟨fun hc => (hsame hc).trans (List.append_nil _).symm, hnone⟩

theorem run_takes {as : List ConnAction} {c c' : ConnConfig} (hframes : SuspendedTakeNone c)
    (hr : machine.system.run (fun _ _ => True) c as = some c') (hc : c'.crashed = none) :
    c'.st.payloads = c.st.payloads ++ calls c as := by
  induction as generalizing c with
  | nil =>
    obtain rfl := Option.some.inj hr
    exact (List.append_nil _).symm
  | cons a as ih =>
    unfold System.run at hr
    rw [if_pos trivial] at hr
    obtain ⟨c₁, hs, hr⟩ := Option.bind_eq_some_iff.mp hr
    have hs : machine.step c a = some c₁ := hs
    obtain ⟨hstep, hframes₁⟩ := step_takes hframes hs
    have hrunning : c₁.crashed = none := by
      cases as with
      | nil =>
        obtain rfl := Option.some.inj hr
        exact hc
      | cons a' as =>
        unfold System.run at hr
        rw [if_pos trivial] at hr
        obtain ⟨c₂, hs₂, -⟩ := Option.bind_eq_some_iff.mp hr
        exact machine.step_running hs₂
    rw [ih hframes₁ hr, hstep hrunning, List.append_assoc, calls_cons hs]

/-- **A connection takes what `send` is called with while it is up**, in the order of the calls. -/
theorem payloads_of_calls {s : TcpConnection} (hs : machine.init s) {as : List ConnAction} {c : ConnConfig}
    (hr : machine.system.run (fun _ _ => True) (.initial s) as = some c) (hc : c.crashed = none) :
    c.st.payloads = calls (.initial s) as ∧ accepted c.st.trace = (calls (.initial s) as).flatten := by
  have hframes : SuspendedTakeNone (.initial s) := fun f hf => absurd hf List.not_mem_nil
  have hrun := run_takes hframes hr hc
  obtain ⟨fd, a, b, d, e, rfl⟩ := hs
  have hnone : c.st.payloads = calls (.initial (new fd a b d e)) as := hrun
  exact ⟨hnone, by rw [← hnone, flatten_payloads]⟩

example : calls (.initial (new 3 true false false false))
    [.start .connectEstablished [], .start (.send [1, 2]) [.count 1], .start .shutdown [],
      .start (.send [3]) [], .resume () []] = [[1, 2]] := by decide +kernel

end Agora.TcpConnection
