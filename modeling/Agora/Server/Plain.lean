import Agora.Code.Servers
import Agora.Conn.Still
import Agora.Server.Output
import Agora.Server.Wire

/-!
# Sessions without a context

They take everything that has arrived whenever bytes come, and then say something. What they have said is
a relation to what they have taken.
-/

open Agora.Lib Agora.Lib.Prog

namespace Agora.PlainSession

open TcpConnection (Still Carries Talks)

variable {γ : Type}

/-- What has been said, of a connection that is up or down, with these bytes taken. -/
abbrev Speech (γ : Type) := Bool → List Byte → γ → List (List Byte) → Prop

def Speaks (I : Speech γ) (s : PlainSession γ) : Prop :=
  I (s.conn.state = .kConnected) s.consumed s.globals s.conn.payloads

/-- Nothing waits to be taken. `P` is known of the bytes that have arrived, and `past` has happened. -/
structure Settled (P : List Byte → Prop) (past : List ConnEvent) (s : PlainSession γ) : Prop where
  connectionCallback : s.conn.connectionCallback = true
  messageCallback : s.conn.messageCallback = true
  established : s.conn.state ≠ .kConnecting
  taken : s.conn.inputBuffer.readable = []
  arrived : P s.consumed
  past : past <+: s.conn.trace

/-- Before `connectEstablished`. -/
structure Fresh (start : γ) (P : List Byte → Prop) (past : List ConnEvent) (s : PlainSession γ) : Prop where
  connectionCallback : s.conn.connectionCallback = true
  messageCallback : s.conn.messageCallback = true
  index : s.conn.channel.index = .kNew
  empty : s.conn.inputBuffer.readable = []
  consumed : s.consumed = []
  globals : s.globals = start
  payloads : s.conn.payloads = []
  arrived : P []
  past : past <+: s.conn.trace

structure PlainInv (start : γ) (I : Speech γ) (P : List Byte → Prop) (past : List ConnEvent)
    (s : PlainSession γ) : Prop where
  fresh : s.conn.state = .kConnecting → Fresh start P past s
  settled : s.conn.state ≠ .kConnecting → Settled P past s ∧ Speaks I s

/-- Only bytes arrive of which `P` is known. -/
def plainContract (start : γ) (I : Speech γ) (P : List Byte → Prop) (past : List ConnEvent) :
    Contract (PlainSession γ) SysCall SysResult Empty Fault where
  inv := PlainInv start I P past
  pre _ _ := True
  tolerates _ _ := True
  allow s q a := ∀ space data, q = .readv space → a = .bytes data → P (s.arrived ++ data)

/-- A program on its connections: `react` is the message callback behind `retrieveAllAsString`. -/
structure Plain (handler : Callback → PlainM γ Unit) (react : List Byte → PlainM γ Unit) (start : γ)
    (I : Speech γ) : Prop where
  down : ∀ taken globals said, I true taken globals said → I false taken globals said
  message : handler .message = (retrieveAllAsString >>= react)
  opens : ∀ P past s₀ s, Settled P past s → s.conn.state = .kConnected → s.consumed = [] → s.globals = start →
    s.conn.payloads = [] →
    wp (plainContract start I P past) (fun _ _ => True) (fun _ _ => True) (handler .connection)
      (fun _ s' _ => Settled P past s' ∧ Speaks I s') s₀ s
  reacts : ∀ P past s₀ s taken msg, Settled P past s → s.consumed = taken ++ msg →
    I (s.conn.state = .kConnected) taken s.globals s.conn.payloads →
    wp (plainContract start I P past) (fun _ _ => True) (fun _ _ => True) (react msg)
      (fun _ s' _ => Settled P past s' ∧ Speaks I s') s₀ s
  quiet : ∀ C : Contract (PlainSession γ) SysCall SysResult Empty Fault, ∀ u s₀ s, u ≠ .message →
    (u = .connection → s.conn.state ≠ .kConnected) →
    wp C (fun _ _ => True) (fun _ _ => True) (handler u) (fun _ s' _ => s' = s) s₀ s

variable {start : γ} {I : Speech γ} {P : List Byte → Prop} {past : List ConnEvent} {s s₀ : PlainSession γ}

theorem connection_lawful (handler : Callback → PlainM γ Unit) : (connection handler).Lawful :=
  ⟨fun _ _ => rfl, fun _ _ _ => rfl, fun _ => rfl⟩

@[simp] theorem connection_view (handler : Callback → PlainM γ Unit) (s : PlainSession γ) :
    (connection handler).view s = s.conn := rfl

@[simp] theorem connection_put (handler : Callback → PlainM γ Unit) (c : TcpConnection) (s : PlainSession γ) :
    (connection handler).put c s = setConn c s := rfl

@[simp] theorem connection_handler (handler : Callback → PlainM γ Unit) (u : Callback) :
    (connection handler).handler u = handler u := rfl

@[simp] theorem setConn_conn (c : TcpConnection) (s : PlainSession γ) : (setConn c s).conn = c := rfl

@[simp] theorem setConn_setConn (c c' : TcpConnection) (s : PlainSession γ) :
    setConn c (setConn c' s) = setConn c s := rfl

/-! ## Still changes -/

theorem Settled.put (h : Settled P past s) {c : TcpConnection} (hc : Still s.conn c) :
    Settled P past (setConn c s) := by
  refine ⟨hc.connectionCallback.trans h.connectionCallback, hc.messageCallback.trans h.messageCallback,
    hc.established, ?_, h.arrived, h.past.trans hc.trace⟩
  show c.inputBuffer.readable = []
  rw [hc.inputBuffer]
  exact h.taken

/-- What is said of an open connection may be said of it behind a close. -/
theorem Speaks.put (hdown : ∀ taken globals said, I true taken globals said → I false taken globals said)
    (h : Speaks I s) {c : TcpConnection} (hc : Still s.conn c) : Speaks I (setConn c s) := by
  show I (decide (c.state = .kConnected)) s.consumed s.globals c.payloads
  rw [hc.payloads]
  unfold Speaks at h
  by_cases hs : c.state = .kConnected
  · rw [decide_eq_true hs]
    rwa [decide_eq_true (hc.connected hs)] at h
  · rw [decide_eq_false hs]
    cases hup : decide (s.conn.state = .kConnected) with
    | true =>
      rw [hup] at h
      exact hdown _ _ _ h
    | false => rwa [hup] at h

theorem carries {C : Contract (PlainSession γ) SysCall SysResult Empty Fault} {callbacks : Callback → PlainM γ Unit}
    (hfault : ∀ e s, C.tolerates e s)
    (hquiet : ∀ u s₀ s, u ≠ .message → (u = .connection → s.conn.state ≠ .kConnected) →
      wp C (fun _ _ => True) (fun _ _ => True) (callbacks u) (fun _ s' _ => s' = s) s₀ s)
    (hdown : ∀ taken globals said, I true taken globals said → I false taken globals said) :
    Carries (connection callbacks) C fun s => Settled P past s ∧ Speaks I s where
  lawful := connection_lawful callbacks
  fault e s _ := hfault e s
  put _ _ hs hc := ⟨hs.1.put hc, hs.2.put hdown hc⟩
  established _ hs := hs.1.established
  handler s u _ hm hu s₀ := hquiet u s₀ s hm hu

/-! ## A message -/

theorem retrieveAllAsString_wp {C : Contract (PlainSession γ) SysCall SysResult Empty Fault}
    {guar rely : PlainSession γ → PlainSession γ → Prop}
    {post : PlainSession γ → PlainSession γ → List Byte → Prop}
    (h : ∀ buffer : WfBuffer, buffer.readable = [] →
      post s₀ { s with
        conn := { s.conn with inputBuffer := buffer }
        consumed := s.consumed ++ s.conn.inputBuffer.readable } s.conn.inputBuffer.readable) :
    wp C guar rely retrieveAllAsString post s₀ s := by
  have hall : s.conn.inputBuffer.bytesAtPeek s.conn.inputBuffer.readableBytes = s.conn.inputBuffer.readable := by
    rw [WfBuffer.readableBytes_eq, WfBuffer.bytesAtPeek_readable _ (Nat.le_refl _), List.take_length]
  have hempty : (s.conn.inputBuffer.retrieve s.conn.inputBuffer.readableBytes).readable = [] := by
    rw [WfBuffer.readableBytes_eq, WfBuffer.readable_retrieve, List.drop_length]
  unfold retrieveAllAsString
  simp only [wp_bind, wp_read, wp_modify, wp_pure]
  rw [hall]
  exact h _ hempty

variable {handler : Callback → PlainM γ Unit} {react : List Byte → PlainM γ Unit}

theorem Plain.loop (h : Plain handler react start I) :
    Talks (connection handler) (plainContract start I P past) fun s => Settled P past s ∧ Speaks I s where
  toCarries := carries (fun _ _ => trivial) (h.quiet _) h.down
  messageCallback _ hs := hs.1.messageCallback
  message s₀ s space data hs hallow b bytes hdata hset := by
    obtain ⟨hsettled, hsaid⟩ := hs
    have harrived := hallow space (b :: bytes) rfl hdata
    rw [connection_handler, h.message, wp_bind]
    refine retrieveAllAsString_wp fun buffer hempty => ?_
    have hbytes : (s.conn.inputBuffer.readFd (some (b :: bytes))).readable = b :: bytes := by
      rw [WfBuffer.readable_readFd, hsettled.taken]
      rfl
    have hpayloads : TcpConnection.payloads { s.conn with
        inputBuffer := buffer, trace := s.conn.trace ++ [.messageCallback] } = s.conn.payloads :=
      (TcpConnection.payloads_snoc { s.conn with inputBuffer := buffer } .messageCallback).trans (List.append_nil _)
    refine h.reacts P past s₀ _ s.consumed _ ⟨hsettled.connectionCallback, hset, hsettled.established, hempty, ?_,
      hsettled.past.trans (List.prefix_append _ _)⟩ rfl ?_
    · show P (s.consumed ++ (s.conn.inputBuffer.readFd (some (b :: bytes))).readable)
      rw [hbytes]
      unfold arrived at harrived
      rwa [hsettled.taken, List.append_nil] at harrived
    · show I _ s.consumed s.globals (TcpConnection.payloads { s.conn with
        inputBuffer := buffer, trace := s.conn.trace ++ [.messageCallback] })
      rw [hpayloads]
      exact hsaid

/-! ## The functions of the loop -/

theorem PlainInv.of_settled (h : Settled P past s ∧ Speaks I s) : PlainInv start I P past s :=
  ⟨fun hs => absurd hs h.1.established, fun _ => h⟩

theorem Plain.preserves (h : Plain handler react start I) (close : handler .close = pure ()) :
    (application handler close start).Preserves (plainContract start I P past) fun _ _ => True where
  connectEstablished s hinv hs := by
    have hs : s.conn.state = .kConnecting := hs
    have hfresh := hinv.fresh hs
    have hup : Settled P past (setConn { s.conn with
        state := .kConnected
        channel := s.conn.channel.enableReading.1
        trace := s.conn.trace ++ [.connectionCallback true] } s) := by
      refine ⟨hfresh.connectionCallback, hfresh.messageCallback, by simp [setConn], hfresh.empty, ?_,
        hfresh.past.trans (List.prefix_append _ _)⟩
      show P s.consumed
      rw [hfresh.consumed]
      exact hfresh.arrived
    show wp _ _ _ ((connection handler).run TcpConnection.connectEstablished) _ s s
    unfold TcpConnection.connectEstablished TcpConnection.setState TcpConnection.setChannel
      TcpConnection.invokeConnectionCallback TcpConnection.emit
    simp only [Embedding.wp_run_bind, Embedding.wp_run_read, Embedding.wp_run_assert, Embedding.wp_run_modify,
      Embedding.wp_run_when, Embedding.wp_run_callback, connection_view, connection_put, connection_handler,
      setConn_conn, setConn_setConn]
    simp only [hs, decide_true, if_true]
    rw [if_pos hfresh.connectionCallback]
    refine wp_mono (h.opens P past s _ hup rfl hfresh.consumed hfresh.globals ?_) fun _ _ _ h => .of_settled h
    exact (TcpConnection.payloads_muted (c := s.conn) rfl).trans hfresh.payloads
  event s revents hinv hindex _ := by
    have hs : s.conn.state ≠ .kConnecting := by
      intro hs
      cases (hinv.fresh hs).index.symm.trans hindex
    exact wp_mono (h.loop.event revents s s (hinv.settled hs)) fun _ _ _ h => .of_settled h
  connectDestroyed s hinv := by
    show wp _ _ _ ((connection handler).run TcpConnection.connectDestroyed) _ s s
    by_cases hs : s.conn.state = .kConnecting
    · -- Never established: the channel is removed once more.
      have hfresh := hinv.fresh hs
      unfold TcpConnection.connectDestroyed TcpConnection.setChannel TcpConnection.emit
      simp only [Embedding.wp_run_bind, Embedding.wp_run_read, Embedding.wp_run_modify, Embedding.wp_run_when]
      rw [if_neg (by simp [connection, hs])]
      refine ⟨fun _ => ⟨hfresh.connectionCallback, hfresh.messageCallback, rfl, hfresh.empty, hfresh.consumed,
        hfresh.globals, ?_, hfresh.arrived, ?_⟩, fun hn => absurd hs hn⟩
      · refine Eq.trans ?_ hfresh.payloads
        exact (TcpConnection.payloads_muted rfl).trans (TcpConnection.payloads_muted (c := s.conn) rfl)
      · exact hfresh.past.trans ((List.prefix_append _ _).trans (List.prefix_append _ _))
    · exact wp_mono (h.loop.connectDestroyed s s (hinv.settled hs)) fun _ _ _ h => .of_settled h

theorem Plain.new (close : handler .close = pure ()) (hP : P []) (sockfd : Nat) :
    PlainInv start I P [] ((application handler close start).part.put
      ((application handler close start).newConn sockfd) (application handler close start).blank) :=
  ⟨fun _ => ⟨rfl, rfl, rfl, rfl, rfl, rfl, rfl, hP, List.nil_prefix⟩, fun hn => absurd rfl hn⟩

/-! ## On a wire -/

theorem plainInv_iff : PlainInv start I P past s ↔
    PlainInv start I (fun _ => True) [] s ∧ P s.arrived ∧ past <+: s.conn.trace := by
  by_cases hs : s.conn.state = .kConnecting
  · constructor
    · intro h
      obtain ⟨hcallback, hset, hindex, hempty, hconsumed, hglobals, hpayloads, hP, hpast⟩ := h.fresh hs
      refine ⟨⟨fun _ => ⟨hcallback, hset, hindex, hempty, hconsumed, hglobals, hpayloads, trivial, List.nil_prefix⟩,
        fun hn => absurd hs hn⟩, ?_, hpast⟩
      unfold arrived
      rw [hconsumed, hempty]
      exact hP
    · rintro ⟨h, hP, hpast⟩
      obtain ⟨hcallback, hset, hindex, hempty, hconsumed, hglobals, hpayloads, -, -⟩ := h.fresh hs
      unfold arrived at hP
      rw [hconsumed, hempty] at hP
      exact ⟨fun _ => ⟨hcallback, hset, hindex, hempty, hconsumed, hglobals, hpayloads, hP, hpast⟩,
        fun hn => absurd hs hn⟩
  · constructor
    · intro h
      obtain ⟨⟨hcallback, hset, hestablished, htaken, hP, hpast⟩, hsaid⟩ := h.settled hs
      refine ⟨⟨fun hn => absurd hn hs, fun _ => ⟨⟨hcallback, hset, hestablished, htaken, trivial, List.nil_prefix⟩,
        hsaid⟩⟩, ?_, hpast⟩
      unfold arrived
      rw [htaken, List.append_nil]
      exact hP
    · rintro ⟨h, hP, hpast⟩
      obtain ⟨⟨hcallback, hset, hestablished, htaken, -, -⟩, hsaid⟩ := h.settled hs
      unfold arrived at hP
      rw [htaken, List.append_nil] at hP
      exact ⟨fun hn => absurd hn hs, fun _ => ⟨⟨hcallback, hset, hestablished, htaken, hP, hpast⟩, hsaid⟩⟩

theorem Plain.endpoint (h : Plain handler react start I) (close : handler .close = pure ()) :
    Wire.Endpoint (application handler close start) arrived (PlainInv start I (fun _ => True) [])
      (plainContract start I) where
  inv _ _ _ := plainInv_iff
  allow _ _ _ _ _ _ h := h
  preserves _ _ := h.preserves close
  new fd := ⟨Plain.new close trivial fd, rfl⟩

/-! ## The output stream -/

section
variable {close : handler .close = pure ()}

theorem streams_onConn {α : Type} {p : ConnM α} (hp : Keeps TcpConnection.streamContract p) :
    Keeps (application handler close start).streamContract (onConn p) :=
  Application.stream_run (connection_lawful _) (fun _ => .rfl) (fun _ _ _ ha => ha) (fun _ _ h => h)
    (fun _ => Stable.pure ()) hp

theorem streams_modify {f : PlainSession γ → PlainSession γ}
    (hf : ∀ s, (f s).conn.trace = s.conn.trace ∧ (f s).conn.outputBuffer = s.conn.outputBuffer) :
    Keeps (application handler close start).streamContract (modify f) :=
  Keeps.modify fun s h => TcpConnection.StreamInv.of_eq h (hf s).1 (hf s).2

theorem streams_retrieveAllAsString :
    Keeps (application handler close start).streamContract retrieveAllAsString :=
  Stable.bind Stable.read fun _ => Stable.bind (streams_modify fun _ => ⟨rfl, rfl⟩) fun _ => Stable.pure _

end

end Agora.PlainSession
