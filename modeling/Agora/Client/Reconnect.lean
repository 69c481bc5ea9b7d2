import Agora.Client.Life
import Agora.Conn.Owner
import Agora.Connector.InFlight

/-! # Whether an idle client connects again -/

open Agora.Lib Agora.Lib.Prog

namespace Agora.TcpClient

open Connector (TryOk TryAt Tries tryContract)
open TcpConnection (Later Quiet Owns)

/-- There is no connection, no attempt in flight, and no retry timer. -/
structure Idle (s : TcpClient) : Prop where
  alive : s.alive = true
  connection : s.connection = none
  live : s.connector.live = []
  timers : s.connector.timers = []

instance (s : TcpClient) : Decidable (Idle s) :=
  decidable_of_iff (s.alive = true ∧ s.connection = none ∧ s.connector.live = [] ∧ s.connector.timers = [])
    ⟨fun ⟨ha, hc, hl, ht⟩ => ⟨ha, hc, hl, ht⟩, fun h => ⟨h.alive, h.connection, h.live, h.timers⟩⟩

def isConnect : ConnectorEvent → Bool
  | .connect _ => true
  | _ => false

/-- How often `::connect` has been called. -/
def attempts (s : TcpClient) : Nat := s.connector.trace.countP isConnect

/-- `connect` returns on the loop thread, and whatever `::connect` has answered, it was called. -/
structure Reconnects (c : Config Unit TcpClient ClientCall ClientAnswer (Nat × Callback) Fault) :
    Prop where
  returns : ∃ answers c', machine.step c (.start .connect answers) = some c'
  issues : ∀ answers c', machine.step c (.start .connect answers) = some c' →
    c.st.attempts < c'.st.attempts

/-! ## Runs that leave the connector disconnected -/

/-- The connection has been closed, and `removeConnection` has not run for it. -/
def leaving (s : TcpClient) : Bool := s.connection.any fun i => (s.conns i).state = .kDisconnected

/-- `removeConnection` restarts the connector. -/
def restarts (s : TcpClient) : Bool := s.retry && s.connect_

/-- A close of connection `i` restarts the connector, unless there is nothing to close. -/
def ClosesRestart (s : TcpClient) (i : Nat) : Prop := (s.conns i).isOpen = true → s.restarts = true

/-- Connections are closed while `retry_` and `connect_` are set, and these are not cleared before
`removeConnection`. No attempt ends that `stop` has given up. -/
def renewing : Machine.Condition TcpClient ClientCall ClientAnswer ClientLabel where
  label s
    | .disconnect | .stop | .setRetry false => s.leaving = false
    | .conn i (.event revents) => (revents.epollhup && !revents.epollin) = true → ClosesRestart s i
    | .conn i .forceClose => ClosesRestart s i
    | _ => True
  answer s
    | .connector (.getSocketError _), _ => s.connector.connect_ = true
    | .conn (.readv _), .conn (.bytes []) => s.restarts = true
    | _, _ => True

instance (s : TcpClient) (i : Nat) : Decidable (ClosesRestart s i) :=
  inferInstanceAs (Decidable (_ = _ → _ = _))

instance (s : TcpClient) : ∀ label, Decidable (renewing.label s label)
  | .disconnect | .stop | .setRetry false => inferInstanceAs (Decidable (_ = _))
  | .conn i (.event _) => inferInstanceAs (Decidable (_ = _ → ClosesRestart s i))
  | .conn i .forceClose => inferInstanceAs (Decidable (ClosesRestart s i))
  | .connect | .connectElsewhere | .setRetry true | .connector _ | .destroy
  | .conn _ .connectEstablished | .conn _ .connectDestroyed | .conn _ (.send _)
  | .conn _ (.sendBuffer _) | .conn _ .shutdown | .conn _ (.consume _) => isTrue trivial

instance (s : TcpClient) : ∀ q a, Decidable (renewing.answer s q a)
  | .connector (.getSocketError _), _ => inferInstanceAs (Decidable (_ = _))
  | .conn (.readv _), .conn (.bytes []) => inferInstanceAs (Decidable (_ = _))
  | .connector (.connect _), _ | .conn (.write _), _ | .conn .getSocketError, _
  | .conn (.readv _), .errno _ | .conn (.readv _), .conn (.bytes (_ :: _))
  | .conn (.readv _), .conn (.count _) | .conn (.readv _), .conn (.error _) => isTrue trivial

/-! ## The invariant -/

/-- What does not depend on the connector. -/
structure Records (s : TcpClient) : Prop where
  connection : ∀ i ∈ s.connection, i < s.made
  closing : ∀ i ∈ s.closing, i < s.made ∧ s.connection ≠ some i
  leaving : s.leaving = true → s.restarts = true

structure RenewOk (s : TcpClient) : Prop where
  connector : TryOk s.connector
  records : Records s
  connected : s.alive = true → s.connector.state = .kConnected → s.connection ≠ none

theorem RenewOk.disconnected {s : TcpClient} (h : RenewOk s) (hidle : Idle s) :
    s.connector.state = .kDisconnected := by
  cases hstate : s.connector.state with
  | kDisconnected => rfl
  | kConnecting => exact absurd hidle.live (h.connector.attempt hstate)
  | kConnected => exact absurd hidle.connection (h.connected hidle.alive hstate)

def renewContract : Contract TcpClient ClientCall ClientAnswer (Nat × Callback) Fault where
  inv := RenewOk
  pre _ _ := True
  tolerates _ _ := True
  allow := renewing.answer

/-- The state in a segment from `s₀` of a program that was started in `start`. -/
structure RenewAt (start s₀ s : TcpClient) : Prop where
  inv : RenewOk s
  segment : Lasting s₀ s
  since : Lasting start s

abbrev Renews (start : TcpClient) {α : Type} (p : ClientM α) : Prop :=
  Stable renewContract (Owed start) Lasting (RenewAt start) p

variable {start s₀ s s' : TcpClient} {i : Nat}

theorem RenewAt.move (h : RenewAt start s₀ s) (hi : RenewOk s') (hl : Lasting s s') :
    RenewAt start s₀ s' :=
  ⟨hi, h.segment.trans hl, h.since.trans hl⟩

theorem callback_renews (h : RenewAt start s₀ s) (u : Nat × Callback) :
    wp renewContract (Owed start) Lasting (callback u)
      (fun s₀ s' _ => RenewAt start s₀ s' ∧ Lasting s s') s₀ s := by
  rw [wp_callback]
  refine ⟨⟨h.inv, ⟨h.segment, h.since⟩, trivial⟩, fun s' hi hl => ⟨⟨hi, .refl s', ?_⟩, hl⟩⟩
  exact h.since.trans hl

theorem leaving_iff : s.leaving = true ↔
    ∃ i, s.connection = some i ∧ (s.conns i).state = .kDisconnected := by
  unfold leaving
  cases s.connection with
  | none => simp
  | some i => simp

/-! ## The connector -/

theorem Records.setConnector (h : Records s) (k : Connector) : Records (setConnector k s) :=
  ⟨h.connection, h.closing, h.leaving⟩

theorem RenewAt.setConnector {k : Connector} (h : RenewAt start s₀ s) (hk : TryOk k)
    (hconnected : s.alive = true → k.state = .kConnected → s.connection ≠ none) :
    RenewAt start s₀ (setConnector k s) :=
  h.move ⟨hk, h.inv.records.setConnector k, hconnected⟩ (.of_conns rfl rfl)

theorem restartConnector_renews (hk : TryOk s.connector) (hrecords : Records s) (hsegment : Lasting s₀ s)
    (hsince : Lasting start s) :
    wp renewContract (Owed start) Lasting restartConnector
      (fun s₀ s' _ => RenewAt start s₀ s' ∧ Lasting s s') s₀ s := by
  refine (connectorPart fun _ => pure ()).wp_run (connectorPart_lawful _)
    (I := fun s₀ s₁ => Records s₁ ∧ Lasting s₀ s₁ ∧ Lasting start s₁ ∧ Lasting s s₁)
    ?_ (fun _ _ _ _ _ _ => trivial) ?_ ?_
    ⟨hrecords, hsegment, hsince, .refl s⟩ (Connector.restart_ok hk)
  · rintro s (_ | _) a ha
    · trivial
    · exact ha
  · rintro s₀ s₁ k u ⟨hr, hseg, hst, hl⟩ hk _ _
    exact ⟨⟨hr.setConnector k, hseg.setConnector k, hst.setConnector k, hl.setConnector k⟩, hk, trivial⟩
  · rintro s₀ s₁ k _ ⟨hr, hseg, hst, hl⟩ ⟨hk, hstate⟩
    have hok : RenewOk (TcpClient.setConnector k s₁) :=
      ⟨hk, hr.setConnector k, fun _ hs => absurd hs hstate⟩
    exact ⟨⟨hok, hseg.setConnector k, hst.setConnector k⟩, hl.setConnector k⟩

/-! ## The connections -/

/-- A connection of the client. -/
structure ConnAt (i : Nat) (start s₀ s : TcpClient) : Prop where
  on : RenewAt start s₀ s
  made : i < s.made

theorem ConnAt.setConn {c : TcpConnection} (h : ConnAt i start s₀ s) (hlater : Later (s.conns i) c)
    (hdown : c.state = .kDisconnected → (s.conns i).state = .kDisconnected ∨
      (s.connection = some i → s.restarts = true)) : ConnAt i start s₀ (TcpClient.setConn i c s) := by
  have hrecords := h.on.inv.records
  have hleaving : (TcpClient.setConn i c s).leaving = true → s.restarts = true := by
    intro hl
    obtain ⟨j, hj, hs⟩ := leaving_iff.mp hl
    have hold : (s.conns j).state = .kDisconnected → s.restarts = true := fun hs' =>
      hrecords.leaving (leaving_iff.mpr ⟨j, hj, hs'⟩)
    rcases eq_or_ne j i with rfl | hne
    · rw [setConn_self] at hs
      rcases hdown hs with hs' | hrestarts
      · exact hold hs'
      · exact hrestarts hj
    · rw [setConn_other hne] at hs
      exact hold hs
  have hlasting : Lasting s (TcpClient.setConn i c s) := by
    refine ⟨Nat.le_refl _, fun j _ => ?_⟩
    rcases eq_or_ne j i with rfl | hne
    · rw [setConn_self]
      exact hlater
    · rw [setConn_other hne]
      exact .refl _
  refine ⟨h.on.move ⟨h.on.inv.connector, ?_, h.on.inv.connected⟩ hlasting, h.made⟩
  exact ⟨hrecords.connection, hrecords.closing, hleaving⟩

theorem ConnAt.same {c : TcpConnection} (h : ConnAt i start s₀ s) (hs : c.state = (s.conns i).state) :
    ConnAt i start s₀ (TcpClient.setConn i c s) := by
  refine h.setConn ⟨?_, ?_⟩ fun hd => .inl (hs ▸ hd)
  · rw [hs]
    exact id
  · rw [hs]
    exact id

theorem ConnAt.quiet {c : TcpConnection} (h : ConnAt i start s₀ s) (hq : Quiet (s.conns i) c) :
    ConnAt i start s₀ (TcpClient.setConn i c s) := by
  refine h.setConn (Later.quiet hq) fun hd => ?_
  rcases hq.state with hs | ⟨-, hs⟩
  · exact .inl (hs ▸ hd)
  · exact nomatch hs.symm.trans hd

theorem ConnAt.lasting {s₀' : TcpClient} (h : ConnAt i start s₀ s) (h' : RenewAt start s₀' s')
    (hl : Lasting s s') : ConnAt i start s₀' s' := ⟨h', Nat.lt_of_lt_of_le h.made hl.made⟩

/-- From the close until `closeCallback_`. -/
structure Leaving (i : Nat) (start s₀ s : TcpClient) : Prop where
  at' : ConnAt i start s₀ s
  down : (s.conns i).state = .kDisconnected

theorem removeConnection_renews (h : Leaving i start s₀ s) :
    wp renewContract (Owed start) Lasting (removeConnection i)
      (fun s₀ s' _ => RenewAt start s₀ s' ∧ Lasting s s') s₀ s := by
  have hinv := h.at'.on.inv
  unfold removeConnection emit
  simp only [wp_bind, wp_read, wp_modify, wp_assert, wp_when]
  split
  · rename_i hheld
    have hheld : s.connection = some i := of_decide_eq_true hheld
    have hrestarts : (s.retry && s.connect_) = true :=
      hinv.records.leaving (leaving_iff.mpr ⟨i, hheld, h.down⟩)
    rw [if_pos hrestarts]
    refine wp_mono (restartConnector_renews hinv.connector ⟨nofun, fun j hj => ?_, nofun⟩
      (h.at'.on.segment.trans (.of_conns rfl rfl)) (h.at'.on.since.trans (.of_conns rfl rfl))) ?_
    · refine ⟨?_, nofun⟩
      rcases List.mem_append.mp hj with hj | hj
      · exact (hinv.records.closing j hj).1
      · rw [List.mem_singleton.mp hj]
        exact h.at'.made
    · exact fun s₀ s' _ h' => ⟨h'.1, ⟨h'.2.made, h'.2.conns⟩⟩
  · trivial

theorem user_renews (i : Nat) (start : TcpClient) (u : Nat × Callback) :
    Stable renewContract (Owed start) Lasting (ConnAt i start) (callback u) :=
  fun _ _ h => wp_mono (callback_renews h.on u) fun _ _ _ h' => h.lasting h'.1 h'.2

theorem closeCallback_renews (h : Leaving i start s₀ s) :
    wp renewContract (Owed start) Lasting (onConn i TcpConnection.invokeCloseCallback)
      (fun s₀ s' _ => ConnAt i start s₀ s') s₀ s := by
  have hemitted : Leaving i start s₀
      (TcpClient.setConn i { s.conns i with trace := (s.conns i).trace ++ [.closeCallback] } s) := by
    refine ⟨h.at'.same rfl, ?_⟩
    rw [setConn_self]
    exact h.down
  unfold TcpConnection.invokeCloseCallback TcpConnection.emit onConn
  simp only [Embedding.wp_run_bind, Embedding.wp_run_read, Embedding.wp_run_when, Embedding.wp_run_modify,
    Embedding.wp_run_callback]
  split
  · exact wp_mono (removeConnection_renews hemitted) fun _ _ _ h' => hemitted.at'.lasting h'.1 h'.2
  · exact h.at'

theorem owns (i : Nat) (start : TcpClient) :
    Owns (connPart i (handler i)) renewContract (Owed start) Lasting (ConnAt i start) (Leaving i start)
      (fun s => s.restarts = true) where
  lawful := connPart_lawful i _
  aborts _ _ _ _ := trivial
  quiet _ _ _ h hq := h.quiet hq
  up _ _ _ h hs _ _ := h.same hs
  down s₀ s c h hs _ _ := by
    refine ⟨h.at'.same hs, ?_⟩
    exact (congrArg TcpConnection.state (setConn_self ..)).trans (hs.trans h.down)
  user u hu := by
    cases u with
    | close => exact absurd rfl hu
    | connection | message | writeComplete => exact user_renews i start _
  userDown s₀ s h := by
    refine wp_mono (callback_renews h.at'.on _) fun s₀' s' _ h' => ?_
    exact ⟨h.at'.lasting h'.1 h'.2, (h'.2.conns i h.at'.made).down h.down⟩
  may _ _ hrestarts := hrestarts
  eof s len a hallow hanswer _ := by
    rcases a with err | r
    · cases hanswer
    · obtain rfl : r = .bytes [] := hanswer
      exact hallow
  close s₀ s h _ hrestarts := by
    refine ⟨h.setConn ⟨nofun, fun _ => rfl⟩ fun _ => .inr fun _ => hrestarts, ?_⟩
    exact congrArg TcpConnection.state (setConn_self ..)
  closeCallback _ _ h := closeCallback_renews h

/-! ### The owner's calls -/

theorem connectEstablished_renews (h : ConnAt i start s₀ s) :
    wp renewContract (Owed start) Lasting (onConn i TcpConnection.connectEstablished)
      (fun s₀ s' _ => ConnAt i start s₀ s') s₀ s := by
  refine (owns i start).connectEstablished trivial fun hstate => ?_
  have hstate : (s.conns i).state = .kConnecting := hstate
  refine h.setConn ⟨fun _ hs => ?_, fun hd => ?_⟩ fun hd => ?_
  · cases hs
  · cases hstate.symm.trans hd
  · cases hd

theorem connectDestroyed_renews (h : ConnAt i start s₀ s) (hout : s.connection ≠ some i) :
    wp renewContract (Owed start) Lasting (onConn i TcpConnection.connectDestroyed)
      (fun s₀ s' _ => ConnAt i start s₀ s') s₀ s := by
  refine (owns i start).connectDestroyed h fun c hc => ?_
  refine hc.setConn ⟨fun _ hs => ?_, fun _ => rfl⟩ fun _ => .inr fun hin => absurd hin hout
  cases hs

/-! ## The programs of the client -/

theorem newConnection_renews (hk : TryOk s.connector) (hrecords : Records s) (hsegment : Lasting s₀ s)
    (hsince : Lasting start s) (sockfd : Nat) :
    wp renewContract (Owed start) Lasting (newConnection sockfd)
      (fun s₀ s' _ => RenewAt start s₀ s') s₀ s := by
  have hnew : ((accepted sockfd s).conns s.made).state = .kConnecting := by
    show (Function.update s.conns s.made _ s.made).state = _
    rw [Function.update_self]
    rfl
  have hlasting : Lasting s (accepted sockfd s) := by
    refine ⟨Nat.le_succ _, fun j hj => ?_⟩
    rw [accepted_conns hj]
    exact .refl _
  have hleaving : (accepted sockfd s).leaving = true → (accepted sockfd s).restarts = true := by
    intro hl
    obtain ⟨j, hj, hs⟩ := leaving_iff.mp hl
    obtain rfl : s.made = j := Option.some.inj hj
    exact nomatch hnew.symm.trans hs
  have hclosing : ∀ j ∈ s.closing, j < s.made + 1 ∧ some s.made ≠ some j := by
    intro j hj
    have hlt := (hrecords.closing j hj).1
    exact ⟨Nat.lt_succ_of_lt hlt, fun heq => Nat.lt_irrefl j ((Option.some.inj heq) ▸ hlt)⟩
  have haccepted : ConnAt s.made start s₀ (accepted sockfd s) := by
    refine ⟨⟨⟨hk, ⟨fun j hj => ?_, hclosing, hleaving⟩, by nofun⟩, hsegment.trans hlasting,
      hsince.trans hlasting⟩, Nat.lt_succ_self _⟩
    obtain rfl := Option.some.inj hj
    exact Nat.lt_succ_self _
  unfold newConnection emit
  simp only [wp_bind, wp_read, wp_modify]
  exact wp_mono (connectEstablished_renews haccepted) fun _ _ _ h => h.on

theorem onConnector_renews {p : ConnectorM Unit} (hp : Tries p) : Renews start (onConnector p) := by
  intro s₀ s h
  refine (connectorPart newConnection).wp_run (connectorPart_lawful _) (I := RenewAt start)
    ?_ (fun _ _ _ _ _ _ => trivial) ?_ ?_ h (hp _ _ h.inv.connector.here)
  · rintro s (_ | _) a ha
    · trivial
    · exact ha
  · intro s₀ s₁ k u h₁ hk _ _
    refine wp_mono (newConnection_renews (s := setConnector k s₁) hk (h₁.inv.records.setConnector k)
      (h₁.segment.setConnector k) (h₁.since.setConnector k) u) ?_
    exact fun _ _ _ h' => ⟨h', h'.inv.connector, trivial⟩
  · intro s₀ s₁ k _ h₁ hk
    exact h₁.setConnector hk.ok fun halive hs => h₁.inv.connected halive (hk.connected hs)

theorem RenewAt.of_same (h : RenewAt start s₀ s) (hconnector : s'.connector = s.connector)
    (hmade : s'.made = s.made) (hconns : s'.conns = s.conns) (hconnection : s'.connection = s.connection)
    (hclosing : ∀ j ∈ s'.closing, j ∈ s.closing) (halive : s'.alive = s.alive)
    (hrestarts : s.leaving = true → s'.restarts = true) : RenewAt start s₀ s' := by
  have hrecords := h.inv.records
  refine h.move ⟨hconnector ▸ h.inv.connector, ⟨fun j hj => ?_, fun j hj => ?_, fun hl => ?_⟩, ?_⟩
    (.of_conns hmade hconns)
  · rw [hmade]
    exact hrecords.connection j (hconnection ▸ hj)
  · rw [hmade, hconnection]
    exact hrecords.closing j (hclosing j hj)
  · refine hrestarts ?_
    unfold leaving at hl
    rwa [hconnection, hconns] at hl
  · rw [hconnector, hconnection, halive]
    exact h.inv.connected

theorem RenewAt.connect (h : RenewAt start s₀ s) :
    RenewAt start s₀ { s with trace := s.trace ++ [.connect], connect_ := true } := by
  refine h.of_same rfl rfl rfl rfl (fun _ => id) rfl fun hl => ?_
  have hrestarts := h.inv.records.leaving hl
  unfold restarts at hrestarts ⊢
  exact (Bool.and_true _).trans (Bool.and_eq_true _ _ ▸ hrestarts).1

theorem RenewAt.clear (h : RenewAt start s₀ s) (hstays : s.leaving = false) {retry connect_ : Bool}
    (l : List ClientEvent) : RenewAt start s₀ { s with retry := retry, connect_ := connect_, trace := l } :=
  h.of_same rfl rfl rfl rfl (fun _ => id) rfl fun hl => nomatch hstays.symm.trans hl

theorem disconnect_renews (h : RenewAt start s₀ s) (hstays : s.leaving = false) :
    wp renewContract (Owed start) Lasting disconnect (fun s₀ s' _ => RenewAt start s₀ s') s₀ s := by
  have hclear : RenewAt start s₀ { s with connect_ := false } := h.clear hstays s.trace
  unfold disconnect
  simp only [wp_bind, wp_modify, wp_read]
  split
  · rename_i i hconn
    have hat : ConnAt i start s₀ { s with connect_ := false } :=
      ⟨hclear, h.inv.records.connection i hconn⟩
    refine wp_mono ((owns i start).stays (TcpConnection.stable_shutdown TcpConnection.quiet_rule) s₀ _ hat) ?_
    exact fun _ _ _ h' => h'.on
  · exact hclear

theorem destroy_renews : Renews start destroy := by
  have hend : Renews start destroyConnector :=
    Stable.bind Stable.read fun _ => Stable.assert fun _ _ _ => trivial
  refine Stable.bind (onConnector_renews Connector.tries_stop)
    fun _ => fun s₀ s h => ?_
  rw [wp_bind, wp_read]
  simp only
  split
  · rename_i i hconn
    have hrecords := h.inv.records
    have hclosing : ∀ j ∈ s.closing ++ [i], j < s.made ∧ none ≠ some j := by
      intro j hj
      refine ⟨?_, nofun⟩
      rcases List.mem_append.mp hj with hj | hj
      · exact (hrecords.closing j hj).1
      · rw [List.mem_singleton.mp hj]
        exact hrecords.connection i hconn
    have hset : ConnAt i start s₀ (TcpClient.setConn i { s.conns i with closeCallback := false } s) :=
      ConnAt.same ⟨h, hrecords.connection i hconn⟩ rfl
    unfold setCloseCallback
    simp only [wp_bind, wp_modify]
    refine hend s₀ _ (hset.on.move ⟨h.inv.connector, ⟨nofun, hclosing, nofun⟩, nofun⟩ ?_)
    exact ⟨Nat.le_refl _, fun _ _ => .refl _⟩
  · rw [wp_bind, wp_modify]
    refine hend s₀ _ (h.move ⟨h.inv.connector, ?_, nofun⟩ (.of_conns rfl rfl))
    exact ⟨h.inv.records.connection, h.inv.records.closing, h.inv.records.leaving⟩

theorem entry_renews {label : ClientLabel} {p : ClientM Unit} (hp : entry label s = some p)
    (hlabel : renewing.label s label) (h : RenewAt s s s) :
    wp renewContract (Owed s) Lasting p (fun s₀ s' _ => RenewAt s s₀ s') s s := by
  cases label with
  | connect =>
    obtain ⟨-, hp⟩ := Option.ite_none_right_eq_some.mp hp
    obtain rfl := Option.some.inj hp
    exact onConnector_renews Connector.tries_start s _ h.connect
  | connectElsewhere =>
    obtain ⟨-, hp⟩ := Option.ite_none_right_eq_some.mp hp
    obtain rfl := Option.some.inj hp
    exact onConnector_renews Connector.tries_startElsewhere s _ h.connect
  | disconnect =>
    obtain ⟨-, hp⟩ := Option.ite_none_right_eq_some.mp hp
    obtain rfl := Option.some.inj hp
    exact disconnect_renews h hlabel
  | stop =>
    obtain ⟨-, hp⟩ := Option.ite_none_right_eq_some.mp hp
    obtain rfl := Option.some.inj hp
    exact onConnector_renews Connector.tries_stop s _
      (h.clear hlabel _)
  | setRetry retry =>
    obtain ⟨-, hp⟩ := Option.ite_none_right_eq_some.mp hp
    obtain rfl := Option.some.inj hp
    cases retry with
    | false => exact h.clear hlabel s.trace
    | true =>
      refine h.of_same rfl rfl rfl rfl (fun _ => id) rfl fun hl => ?_
      have hrestarts := h.inv.records.leaving hl
      unfold restarts at hrestarts ⊢
      exact (Bool.true_and _).trans (Bool.and_eq_true _ _ ▸ hrestarts).2
  | connector label =>
    obtain ⟨hloop, hp⟩ := Option.ite_none_right_eq_some.mp hp
    obtain ⟨q, hq, rfl⟩ := Option.map_eq_some_iff.mp hp
    split
    · exact onConnector_renews (Connector.tries_loop.entry hloop hq) s s h
    · trivial
  | conn i label =>
    rcases entry_conn hp with ⟨-, hi, rfl⟩ | ⟨hup, hdown, hi, rfl⟩
    · obtain ⟨hmade, hout⟩ := h.inv.records.closing i hi
      have herased : RenewAt s s { s with closing := s.closing.erase i } :=
        h.of_same rfl rfl rfl rfl (fun _ => List.mem_of_mem_erase) rfl h.inv.records.leaving
      rw [wp_bind, wp_modify]
      exact wp_mono (connectDestroyed_renews ⟨herased, hmade⟩ hout) fun _ _ _ h' => h'.on
    · refine wp_mono ((owns i s).entry hup hdown ⟨h, hi⟩ ?_ ?_) fun _ _ _ h' => h'.on
      · rintro revents rfl
        exact hlabel
      · rintro rfl
        exact hlabel
  | destroy =>
    obtain ⟨-, hp⟩ := Option.ite_none_right_eq_some.mp hp
    obtain rfl := Option.some.inj hp
    exact destroy_renews s s h

theorem machine_keeps_renewing : machine.Keeps renewContract (fun _ => Lasting) renewing where
  refl _ := Lasting.refl
  trans _ _ _ _ := Lasting.trans
  init := by
    rintro s ⟨a, b, c, rfl⟩
    exact ⟨Connector.new_tryOk, ⟨nofun, nofun, nofun⟩, fun _ => nofun⟩
  allow _ _ _ _ ha := ha
  entry label s p hp hlabel h := by
    have howes : ∀ s₀ s', Owed s s₀ s' → Machine.Owes (fun _ => Lasting) (machine.thread label)
        (machine.idleOnly label) s s₀ s' := fun _ _ ho => ⟨fun _ _ => ho.1, fun _ => ho.2⟩
    refine wp_guar_mono howes (wp_mono (entry_renews hp hlabel ⟨h, .refl s, .refl s⟩) ?_)
    exact fun s₀ s' _ h' => ⟨h'.inv, howes s₀ s' ⟨h'.segment, h'.since⟩⟩

/-! ## Results -/

theorem countP_dropCtls (ch : Channel) :
    ((Connector.dropCtls ch).map ConnectorEvent.epollCtl).countP isConnect = 0 := by
  rw [List.countP_eq_zero]
  intro e he
  obtain ⟨ctl, -, rfl⟩ := List.mem_map.mp he
  nofun

theorem countP_tried (k : Connector) (savedErrno : Nat) :
    (k.tried savedErrno).trace.countP isConnect = k.trace.countP isConnect + 1 := by
  have hdiscarded : k.discarded.trace.countP isConnect = k.trace.countP isConnect := by
    unfold Connector.discarded
    split
    · rfl
    · rename_i ch _
      exact (List.countP_append ..).trans (by rw [countP_dropCtls, Nat.add_zero])
  have hattempted : k.discarded.attempted.trace.countP isConnect = k.trace.countP isConnect + 1 := by
    rw [← hdiscarded]
    simp [Connector.attempted, List.countP_append, isConnect]
  rw [← hattempted]
  unfold Connector.tried
  split
  · simp [Connector.installed, Connector.setDelay, List.countP_append, isConnect]
  split
  · simp [Connector.installed, List.countP_append, isConnect]
  · simp [Connector.retried_trace, Connector.closed, List.countP_append, isConnect]

theorem connect_started {c c' : Config Unit TcpClient ClientCall ClientAnswer (Nat × Callback) Fault}
    {answers : List ClientAnswer} (hs : machine.step c (.start .connect answers) = some c') :
    Connector.Started (fun _ _ _ => True) c.st.connector.calledStart c'.st.connector := by
  refine machine.step_start_ends ⟨fun _ => False, fun _ _ => True, fun _ _ => False, fun _ _ _ => True⟩
    (fun _ _ => True) (fun s => Connector.Started (fun _ _ _ => True) c.st.connector.calledStart s.connector)
    (fun _ _ _ => trivial) (fun _ _ => id) hs fun p hp => ?_
  obtain ⟨-, hp⟩ := Option.ite_none_right_eq_some.mp hp
  obtain rfl := Option.some.inj hp
  have hstart : wp (Connector.stepContract (fun _ => False) fun _ _ _ => True) (fun _ _ => True)
      (fun _ _ => True) Connector.start
      (fun _ k _ => Connector.Started (fun _ _ _ => True) c.st.connector.calledStart k) c.st.connector
      c.st.connector := Connector.startInLoop_ends (c := c.st.connector.calledStart) fun _ h => h
  unfold connect emit onConnector
  simp only [wp_bind, wp_modify]
  exact wp_connector hstart fun _ => id

theorem reconnects_iff {c : Config Unit TcpClient ClientCall ClientAnswer (Nat × Callback) Fault}
    (hc : c.crashed = none) (halive : c.st.alive = true) :
    Reconnects c ↔ c.st.connector.state = .kDisconnected := by
  have hcalled : c.st.connector.calledStart.trace.countP isConnect = c.st.attempts := by
    simp [Connector.calledStart, attempts, List.countP_append, isConnect]
  constructor
  · rintro ⟨⟨answers, c', hs⟩, hissues⟩
    have hmore := hissues answers c' hs
    have hstarted := connect_started hs
    generalize hk : c'.st.connector = k at hstarted
    cases hstarted with
    | idle _ =>
      unfold attempts at hmore
      rw [hk] at hmore
      exact absurd (hcalled ▸ hmore) (Nat.lt_irrefl _)
    | tried savedErrno hstate _ _ => exact hstate
  · intro hstate
    refine ⟨?_, fun answers c' hs => ?_⟩
    · have hvalid : ∀ q : ClientCall, ∃ a, ClientCall.valid q a = true := by
        rintro (q | q)
        · exact ⟨.errno 0, rfl⟩
        · exact ⟨.conn (.error .other), by cases q <;> rfl⟩
      obtain ⟨answers, stop, hstop⟩ := exec_total hvalid connect c.st
      refine ⟨answers, Machine.settle c () (c.frames ()) stop, ?_⟩
      simp only [Machine.step, hc, machine, loopOnly, entry, halive, hstop, Option.isSome_none,
        Bool.false_and, Bool.false_eq_true, if_false, if_true, Option.map_some]
    · have hstarted := connect_started hs
      generalize hk : c'.st.connector = k at hstarted
      cases hstarted with
      | idle hidle => exact absurd ⟨hstate, rfl⟩ hidle
      | tried savedErrno _ _ _ =>
        show c.st.attempts < c'.st.connector.trace.countP isConnect
        rw [hk, countP_tried, hcalled]
        exact Nat.lt_succ_self _

/-- **An idle client connects again exactly when its connector is disconnected.** So it is in every run in
which connections are closed while `removeConnection` restarts the connector, and no attempt ends that `stop`
has given up. -/
theorem idle_client_reconnects
    {c : Config Unit TcpClient ClientCall ClientAnswer (Nat × Callback) Fault} (hc : c.crashed = none)
    (hidle : Idle c.st) :
    (Reconnects c ↔ c.st.connector.state = .kDisconnected) ∧ (machine.Reach renewing c → Reconnects c) := by
  have hiff := reconnects_iff hc hidle.alive
  refine ⟨hiff, fun h => ?_⟩
  have hinv : RenewOk c.st := (machine_keeps_renewing.runOk h).inv hc
  exact hiff.mpr (hinv.disconnected hidle)

/-- The peer closes a connection, the client restarts its connector, and `stop` ends the attempt. -/
theorem idle_client_reconnects_stopped :
    ∃ c, machine.system.run (machine.Meets renewing) (.initial (new false false false))
        [.start (.setRetry true) [], .start .connect [.errno EINPROGRESS],
          .start (.connector (.poll [(0, kWriteEvent)])) [],
          .start (.connector .handleEvent) [.errno 0], .start (.connector .doPendingFunctors) [],
          .start (.connector .functor) [],
          .start (.conn 0 (.event kReadEvent)) [.conn (.bytes []), .errno EINPROGRESS], .start .stop [],
          .start (.connector .doPendingFunctors) [], .start (.connector .functor) []] = some c ∧
      c.st.attempts = 2 ∧ Reconnects c := by
  have hrun : (machine.system.run (machine.Meets renewing) (.initial (new false false false))
        [.start (.setRetry true) [], .start .connect [.errno EINPROGRESS],
          .start (.connector (.poll [(0, kWriteEvent)])) [],
          .start (.connector .handleEvent) [.errno 0], .start (.connector .doPendingFunctors) [],
          .start (.connector .functor) [],
          .start (.conn 0 (.event kReadEvent)) [.conn (.bytes []), .errno EINPROGRESS], .start .stop [],
          .start (.connector .doPendingFunctors) [], .start (.connector .functor) []]).map
      (fun c => (c.crashed, decide (Idle c.st), c.st.attempts)) = some (none, true, 2) := by decide +kernel
  obtain ⟨c, hc, heq⟩ := Option.map_eq_some_iff.mp hrun
  obtain ⟨hcrash, hidle, hattempts⟩ : _ ∧ _ ∧ _ := by simpa only [Prod.mk.injEq] using heq
  have hreach : machine.Reach renewing c := machine.reach_of_run ⟨_, _, _, rfl⟩ hc
  exact ⟨c, hc, hattempts, (idle_client_reconnects hcrash (of_decide_eq_true hidle)).2 hreach⟩

/-- The peer closes the connection of a client that does not retry: `connect` does nothing from then on. -/
theorem idle_client_stays_idle :
    ¬ ∀ c : Config Unit TcpClient ClientCall ClientAnswer (Nat × Callback) Fault,
      machine.Reachable c → c.crashed = none → Idle c.st → Reconnects c := by
  intro hall
  have hrun : (machine.system.run (fun _ _ => True) (.initial (new false false false))
        [.start .connect [.errno EINPROGRESS], .start (.connector (.poll [(0, kWriteEvent)])) [],
          .start (.connector .handleEvent) [.errno 0],
          .start (.conn 0 (.event kReadEvent)) [.conn (.bytes [])]]).map
      (fun c => (c.crashed, decide (Idle c.st), c.st.connector.state)) = some (none, true, .kConnected) := by
    decide +kernel
  obtain ⟨c, hc, heq⟩ := Option.map_eq_some_iff.mp hrun
  obtain ⟨hcrash, hidle, hstate⟩ : _ ∧ _ ∧ _ := by simpa only [Prod.mk.injEq] using heq
  have hidle : Idle c.st := of_decide_eq_true hidle
  have hreconnects := hall c (machine.reachable_of_run ⟨_, _, _, rfl⟩ hc) hcrash hidle
  exact nomatch hstate.symm.trans ((reconnects_iff hcrash hidle.alive).mp hreconnects)

end Agora.TcpClient
