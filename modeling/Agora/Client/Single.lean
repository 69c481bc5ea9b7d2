import Agora.Client.Life
import Agora.Conn.Owner
import Agora.Connector.Stop

/-!
# A client has one connection, and none is made behind `stop`

Connections may go on behind their client, without `closeCallback_`.
-/

open Agora.Lib Agora.Lib.Prog

namespace Agora.TcpClient

open Connector (HeedsStop HeedAt Opens Wanted stopBarrier heedContract)
open TcpConnection (Later Quiet Owns)

/-- `newConnection` finds no connection, and `removeConnection` the one it is called for. -/
def expected : ClientEvent → Bool
  | .newConnection _ connection => connection = none
  | .removeConnection i connection => connection = some i
  | .connect | .stop => true

def Live (s : TcpClient) (i : Nat) : Prop := i < s.made ∧ (s.conns i).state ≠ .kDisconnected

/-- `closeCallback_` of this connection would find it in the client. -/
def Holds (s : TcpClient) (i : Nat) : Prop := (s.conns i).closeCallback = true → s.connection = some i

structure SingleOk (s : TcpClient) : Prop where
  connection : ∀ i ∈ s.connection, i < s.made
  closing : ∀ i ∈ s.closing, i < s.made
  callbacks : s.alive = true → ∀ i < s.made, (s.conns i).closeCallback = true
  held : ∀ i, s.Live i → s.Holds i
  single : ∀ i j, s.Live i → s.Live j → i = j
  connected : s.connection ≠ none → s.connector.state = .kConnected
  dead : s.alive = false → s.connection = none ∧ s.connector.connect_ = false
  heeds : HeedsStop s.connector
  stopped : stopBarrier.up s.connector.trace = true → s.alive = true → s.connect_ = false
  trace : ∀ e ∈ s.trace, expected e = true

/-- What user code leaves alone: a connection that is down, and whose `closeCallback_` is still to come,
stays in the client. -/
structure Steady (s s' : TcpClient) : Prop where
  lasting : Lasting s s'
  held : ∀ i < s.made, (s.conns i).state = .kDisconnected → s.Holds i → s'.Holds i

/-- Crashes keep the histories. -/
def singleContract : Contract TcpClient ClientCall ClientAnswer (Nat × Callback) Fault where
  inv := SingleOk
  pre _ _ := True
  tolerates _ s := (∀ e ∈ s.trace, expected e = true) ∧ stopBarrier.Kept s.connector.trace
  allow _ _ _ := True

/-- The state in a program that was started in `start`. -/
structure SingleAt (start s : TcpClient) : Prop where
  inv : SingleOk s
  since : Steady start s

abbrev Singles (start : TcpClient) {α : Type} (p : ClientM α) (J : TcpClient → Prop) : Prop :=
  Stable singleContract (fun _ => Steady start) Steady (fun _ => J) p

variable {start s₀ s s' s'' : TcpClient} {i : Nat}

theorem Steady.refl (s : TcpClient) : Steady s s := ⟨.refl s, fun _ _ _ => id⟩

theorem Steady.trans (h : Steady s s') (h' : Steady s' s'') : Steady s s'' := by
  refine ⟨h.lasting.trans h'.lasting, fun i hi hdown hheld => ?_⟩
  exact h'.held i (Nat.lt_of_lt_of_le hi h.lasting.made) ((h.lasting.conns i hi).down hdown)
    (h.held i hi hdown hheld)

theorem Live.same (hmade : s'.made = s.made) (hconns : s'.conns = s.conns) (h : s'.Live i) : s.Live i := by
  unfold Live at h ⊢
  rwa [hmade, hconns] at h

theorem Holds.same (hconns : s'.conns = s.conns) (hconnection : s'.connection = s.connection)
    (h : s.Holds i) : s'.Holds i := by
  unfold Holds at h ⊢
  rwa [hconns, hconnection]

theorem SingleAt.move (h : SingleAt start s) (hi : SingleOk s') (hl : Steady s s') : SingleAt start s' :=
  ⟨hi, h.since.trans hl⟩

theorem SingleAt.faults (h : SingleAt start s) (e : Fault) : singleContract.tolerates e s :=
  ⟨h.inv.trace, h.inv.heeds.kept⟩

theorem SingleOk.holds (h : SingleOk s) (halive : s.alive = true) (hi : s.Live i) :
    s.connection = some i := h.held i hi (h.callbacks halive i hi.1)

theorem SingleOk.alive_of (h : SingleOk s) (hconn : s.connection ≠ none) : s.alive = true := by
  cases halive : s.alive with
  | true => rfl
  | false => exact absurd (h.dead halive).1 hconn

theorem callback_single (h : SingleAt start s) (u : Nat × Callback) :
    wp singleContract (fun _ => Steady start) Steady (callback u)
      (fun _ s' _ => SingleAt start s' ∧ Steady s s') s₀ s := by
  rw [wp_callback]
  exact ⟨⟨h.inv, h.since, trivial⟩, fun s' hi hl => ⟨⟨hi, h.since.trans hl⟩, hl⟩⟩

theorem SingleAt.same (h : SingleAt start s) (hconnector : s'.connector = s.connector)
    (hmade : s'.made = s.made) (hconns : s'.conns = s.conns) (hconnection : s'.connection = s.connection)
    (halive : s'.alive = s.alive) (hclosing : ∀ j ∈ s'.closing, j < s.made)
    (hconnect : s'.connect_ = s.connect_ ∨ s'.connect_ = false)
    (htrace : ∀ e ∈ s'.trace, e ∈ s.trace ∨ expected e = true) : SingleAt start s' := by
  have hlive : ∀ {j}, s'.Live j → s.Live j := Live.same hmade hconns
  have hholds : ∀ {j}, s.Holds j → s'.Holds j := Holds.same hconns hconnection
  refine h.move ?_ ⟨.of_conns hmade hconns, fun _ _ _ => hholds⟩
  have hinv := h.inv
  constructor
  case connection => rw [hconnection, hmade]; exact hinv.connection
  case closing => rw [hmade]; exact hclosing
  case callbacks => rw [halive, hmade, hconns]; exact hinv.callbacks
  case held => exact fun j hj => hholds (hinv.held j (hlive hj))
  case single => exact fun j k hj hk => hinv.single j k (hlive hj) (hlive hk)
  case connected => rw [hconnection, hconnector]; exact hinv.connected
  case dead => rw [halive, hconnection, hconnector]; exact hinv.dead
  case heeds => rw [hconnector]; exact hinv.heeds
  case stopped =>
    intro hup ha
    rcases hconnect with heq | hoff
    · rw [heq]
      exact hinv.stopped (hconnector ▸ hup) (halive ▸ ha)
    · exact hoff
  case trace =>
    intro e he
    rcases htrace e he with he | he
    · exact hinv.trace e he
    · exact he

/-! ## The connector -/

theorem SingleAt.setConnector {k : Connector} (h : SingleAt start s) (hk : HeedsStop k)
    (hconnected : s.connection ≠ none → k.state = .kConnected)
    (hdead : s.alive = false → k.connect_ = false)
    (hstopped : stopBarrier.up k.trace = true → s.alive = true → s.connect_ = false) :
    SingleAt start (setConnector k s) := by
  refine h.move { h.inv with connected := hconnected, dead := ?_, heeds := hk, stopped := hstopped } ?_
  · exact fun ha => ⟨(h.inv.dead ha).1, hdead ha⟩
  · exact ⟨.of_conns rfl rfl, fun _ _ _ => id⟩

theorem SingleAt.wanted {k : Connector} (h : SingleAt start s) (hk : HeedsStop k)
    (hdown : stopBarrier.up k.trace = false) (hconnected : s.connection ≠ none → k.state = .kConnected)
    (halive : s.alive = true) : SingleAt start (TcpClient.setConnector k s) :=
  h.setConnector hk hconnected (fun ha => nomatch halive.symm.trans ha)
    fun hup => nomatch hdown.symm.trans hup

/-! ## The connections -/

/-- A connection of the client. -/
structure HeldAt (i : Nat) (start s : TcpClient) : Prop where
  on : SingleAt start s
  made : i < s.made

theorem HeldAt.steady (h : HeldAt i start s) (h' : SingleAt start s') (hl : Steady s s') :
    HeldAt i start s' := ⟨h', Nat.lt_of_lt_of_le h.made hl.lasting.made⟩

theorem lasting_setConn {c : TcpConnection} (hlater : Later (s.conns i) c) :
    Lasting s (setConn i c s) := by
  refine ⟨Nat.le_refl _, fun j _ => ?_⟩
  rcases eq_or_ne j i with rfl | hne
  · rw [setConn_self]
    exact hlater
  · rw [setConn_other hne]
    exact .refl _

theorem live_setConn {c : TcpConnection} {j : Nat} (hlater : Later (s.conns i) c)
    (h : (setConn i c s).Live j) : s.Live j := by
  refine ⟨h.1, fun hdown => h.2 ?_⟩
  exact ((lasting_setConn hlater).conns j h.1).down hdown

theorem closeCallback_setConn {c : TcpConnection} {j : Nat}
    (hclose : c.closeCallback = (s.conns i).closeCallback) :
    ((setConn i c s).conns j).closeCallback = (s.conns j).closeCallback := by
  rcases eq_or_ne j i with rfl | hne
  · rw [setConn_self, hclose]
  · rw [setConn_other hne]

theorem SingleAt.setConn {c : TcpConnection} (h : SingleAt start s) (hlater : Later (s.conns i) c)
    (hclose : c.closeCallback = (s.conns i).closeCallback) :
    SingleAt start (TcpClient.setConn i c s) := by
  have hinv := h.inv
  have hlive : ∀ {j}, (TcpClient.setConn i c s).Live j → s.Live j := live_setConn hlater
  have hholds : ∀ j, s.Holds j → (TcpClient.setConn i c s).Holds j := by
    intro j hj hset
    rw [closeCallback_setConn hclose] at hset
    exact hj hset
  refine h.move { hinv with callbacks := ?_, held := ?_, single := ?_ } ⟨lasting_setConn hlater, ?_⟩
  · intro ha j hj
    rw [closeCallback_setConn hclose]
    exact hinv.callbacks ha j hj
  · exact fun j hj => hholds j (hinv.held j (hlive hj))
  · exact fun j k hj hk => hinv.single j k (hlive hj) (hlive hk)
  · exact fun j _ _ => hholds j

theorem HeldAt.setConn {c : TcpConnection} (h : HeldAt i start s) (hlater : Later (s.conns i) c)
    (hclose : c.closeCallback = (s.conns i).closeCallback) : HeldAt i start (TcpClient.setConn i c s) :=
  ⟨h.on.setConn hlater hclose, h.made⟩

theorem HeldAt.same {c : TcpConnection} (h : HeldAt i start s) (hs : c.state = (s.conns i).state)
    (hclose : c.closeCallback = (s.conns i).closeCallback) : HeldAt i start (TcpClient.setConn i c s) := by
  refine h.setConn ⟨?_, ?_⟩ hclose
  · rw [hs]
    exact id
  · rw [hs]
    exact id

/-- From the close until `closeCallback_`. The program that closes the connection found it open. -/
structure Going (i : Nat) (start s : TcpClient) : Prop where
  at' : HeldAt i start s
  down : (s.conns i).state = .kDisconnected
  held : s.Holds i
  closed : i < start.made → (start.conns i).state ≠ .kDisconnected

theorem Going.same {c : TcpConnection} (h : Going i start s) (hs : c.state = (s.conns i).state)
    (hclose : c.closeCallback = (s.conns i).closeCallback) : Going i start (TcpClient.setConn i c s) := by
  refine ⟨h.at'.same hs hclose, ?_, fun hset => ?_, h.closed⟩
  · rw [setConn_self, hs]
    exact h.down
  · rw [setConn_self, hclose] at hset
    exact h.held hset

/-- `removeConnection`, up to the restart. -/
def removed (i : Nat) (s : TcpClient) : TcpClient :=
  { s with
    trace := s.trace ++ [.removeConnection i s.connection]
    connection := none
    closing := s.closing ++ [i] }

theorem closing_snoc (h : SingleOk s) (hi : i < s.made) : ∀ j ∈ s.closing ++ [i], j < s.made := by
  intro j hj
  rcases List.mem_append.mp hj with hj | hj
  · exact h.closing j hj
  · rwa [List.mem_singleton.mp hj]

theorem Going.removed (h : Going i start s) (hheld : s.connection = some i) :
    SingleAt start (removed i s) := by
  have hinv := h.at'.on.inv
  have halive : s.alive = true := hinv.alive_of (by rw [hheld]; nofun)
  have hnone : ∀ j, ¬ s.Live j := by
    intro j hj
    obtain rfl : i = j := Option.some.inj (hheld.symm.trans (hinv.holds halive hj))
    exact hj.2 h.down
  have hlasting : Lasting s (TcpClient.removed i s) := .of_conns rfl rfl
  refine ⟨?_, h.at'.on.since.lasting.trans hlasting, fun j hj hdown hholds hset => ?_⟩
  · refine { hinv with connection := nofun, closing := ?_, held := ?_, connected := ?_, dead := ?_, trace := ?_ }
    · exact closing_snoc hinv h.at'.made
    · exact fun j hj => absurd hj (hnone j)
    · exact fun hsome => absurd rfl hsome
    · exact fun ha => nomatch halive.symm.trans ha
    · intro e he
      rcases List.mem_append.mp he with he | he
      · exact hinv.trace e he
      · obtain rfl := List.mem_singleton.mp he
        exact decide_eq_true hheld
  · -- A connection that was down before this program is not the one that it has closed.
    have hj' := h.at'.on.since.held j hj hdown hholds hset
    obtain rfl : i = j := Option.some.inj (hheld.symm.trans hj')
    exact absurd hdown (h.closed hj)

theorem removeConnection_single (h : Going i start s) (hset : (s.conns i).closeCallback = true) :
    wp singleContract (fun _ => Steady start) Steady (removeConnection i)
      (fun _ s' _ => HeldAt i start s') s₀ s := by
  have hheld : s.connection = some i := h.held hset
  have hremoved : HeldAt i start (removed i s) := ⟨h.removed hheld, h.at'.made⟩
  have hinv := hremoved.on.inv
  have halive : s.alive = true := h.at'.on.inv.alive_of (by rw [hheld]; nofun)
  unfold removeConnection emit restartConnector
  simp only [wp_bind, wp_read, wp_modify, wp_assert, wp_when]
  rw [if_pos (decide_eq_true hheld)]
  split
  · rename_i hrestarts
    have hconnect : s.connect_ = true := (Bool.and_eq_true_iff.mp hrestarts).2
    have hdown : stopBarrier.up s.connector.trace = false := by
      refine eq_false_of_ne_true fun hup => ?_
      exact nomatch hconnect.symm.trans (hinv.stopped hup halive)
    refine wp_connector (Connector.restart_wanted hinv.heeds hdown) fun k hk => ?_
    exact ⟨hremoved.on.wanted hk.1 hk.2 (fun hsome => absurd rfl hsome) halive, hremoved.made⟩
  · exact hremoved

theorem user_single (i : Nat) (start : TcpClient) (u : Nat × Callback) :
    Singles start (callback u) (HeldAt i start) :=
  fun _ _ h => wp_mono (callback_single h.on u) fun _ _ _ h' => h.steady h'.1 h'.2

theorem closeCallback_single (h : Going i start s) :
    wp singleContract (fun _ => Steady start) Steady (onConn i TcpConnection.invokeCloseCallback)
      (fun _ s' _ => HeldAt i start s') s₀ s := by
  have hemitted : Going i start
      (TcpClient.setConn i { s.conns i with trace := (s.conns i).trace ++ [.closeCallback] } s) :=
    h.same rfl rfl
  unfold TcpConnection.invokeCloseCallback TcpConnection.emit onConn
  simp only [Embedding.wp_run_bind, Embedding.wp_run_read, Embedding.wp_run_when, Embedding.wp_run_modify,
    Embedding.wp_run_callback]
  split
  · rename_i hset
    refine removeConnection_single hemitted ?_
    exact (congrArg TcpConnection.closeCallback (setConn_self ..)).trans hset
  · exact h.at'

theorem owner (i : Nat) (start : TcpClient) :
    Owns (connPart i (handler i)) singleContract (fun _ => Steady start) Steady (fun _ => HeldAt i start)
      (fun _ => Going i start) (fun _ => True) where
  lawful := connPart_lawful i _
  aborts _ _ e h := h.on.faults e
  quiet _ _ _ h hq := h.setConn (Later.quiet hq) hq.closeCallback
  up _ _ _ h hs hclose _ := h.same hs hclose
  down _ _ _ h hs hclose _ := h.same hs hclose
  user u hu := by
    cases u with
    | close => exact absurd rfl hu
    | connection | message | writeComplete => exact user_single i start _
  userDown _ s h := by
    refine wp_mono (callback_single h.at'.on _) fun _ s' _ h' => ?_
    exact ⟨h.at'.steady h'.1 h'.2, (h'.2.lasting.conns i h.at'.made).down h.down,
      h'.2.held i h.at'.made h.down h.held, h.closed⟩
  may _ _ _ := trivial
  eof _ _ _ _ _ _ := trivial
  close _ s h hopen _ := by
    have hlive : s.Live i := ⟨h.made, TcpConnection.isOpen_state hopen⟩
    refine ⟨h.setConn ⟨nofun, fun _ => rfl⟩ rfl, ?_, fun hset => ?_, fun hi hdown => ?_⟩
    · exact congrArg TcpConnection.state (setConn_self ..)
    · have hset := (congrArg TcpConnection.closeCallback (setConn_self ..)).symm.trans hset
      exact h.on.inv.held i hlive hset
    · exact hlive.2 ((h.on.since.lasting.conns i hi).down hdown)
  closeCallback _ _ h := closeCallback_single h

/-! ### The owner's calls -/

theorem connectEstablished_single (h : HeldAt i start s) :
    wp singleContract (fun _ => Steady start) Steady (onConn i TcpConnection.connectEstablished)
      (fun _ s' _ => HeldAt i start s') s₀ s := by
  refine (owner i start).connectEstablished (h.on.faults _) fun hstate => ?_
  have hstate : (s.conns i).state = .kConnecting := hstate
  refine h.setConn ⟨fun _ hs => ?_, fun hd => ?_⟩ rfl
  · cases hs
  · cases hstate.symm.trans hd

theorem connectDestroyed_single (h : HeldAt i start s) :
    wp singleContract (fun _ => Steady start) Steady (onConn i TcpConnection.connectDestroyed)
      (fun _ s' _ => HeldAt i start s') s₀ s := by
  refine (owner i start).connectDestroyed h fun c hc => ?_
  refine hc.setConn ⟨fun _ hs => ?_, fun _ => rfl⟩ rfl
  cases hs

/-! ## The programs of the client -/

theorem SingleAt.accept {k : Connector} (h : SingleAt start s) (hk : HeedsStop k)
    (hopens : Opens s.connector k) (sockfd : Nat) :
    SingleAt start (accepted sockfd (TcpClient.setConnector k s)) := by
  have hinv := h.inv
  have hnone : s.connection = none := by
    by_contra hsome
    exact hopens.before (hinv.connected hsome)
  have halive : s.alive = true := by
    cases ha : s.alive with
    | true => rfl
    | false => exact nomatch hopens.wanted.symm.trans (hinv.dead ha).2
  have hdown : ∀ j, ¬ s.Live j := fun j hj => nomatch hnone.symm.trans (hinv.holds halive hj)
  have hconns : ∀ j < s.made, (accepted sockfd (TcpClient.setConnector k s)).conns j = s.conns j :=
    fun j hj => accepted_conns hj
  have hnew : (accepted sockfd (TcpClient.setConnector k s)).conns s.made =
      .new sockfd s.connectionCallback s.messageCallback true s.writeCompleteCallback :=
    Function.update_self ..
  have hlive : ∀ j, (accepted sockfd (TcpClient.setConnector k s)).Live j → j = s.made := by
    rintro j ⟨hj, hup⟩
    rcases Nat.lt_succ_iff_lt_or_eq.mp hj with hj | hj
    · rw [hconns j hj] at hup
      exact absurd ⟨hj, hup⟩ (hdown j)
    · exact hj
  have hlasting : Lasting s (accepted sockfd (TcpClient.setConnector k s)) := by
    refine ⟨Nat.le_succ _, fun j hj => ?_⟩
    rw [hconns j hj]
    exact .refl _
  refine h.move ?_ ⟨hlasting, fun j hj _ hholds hset => ?_⟩
  · constructor
    case connection =>
      intro j hj
      obtain rfl := Option.some.inj hj
      exact Nat.lt_succ_self _
    case closing => exact fun j hj => Nat.lt_succ_of_lt (hinv.closing j hj)
    case callbacks =>
      intro _ j hj
      rcases Nat.lt_succ_iff_lt_or_eq.mp hj with hj | rfl
      · rw [hconns j hj]
        exact hinv.callbacks halive j hj
      · exact congrArg TcpConnection.closeCallback hnew
    case held =>
      intro j hj _
      exact congrArg some (hlive j hj).symm
    case single => exact fun j j' hj hj' => (hlive j hj).trans (hlive j' hj').symm
    case connected => exact fun _ => hopens.state
    case dead => exact fun ha => nomatch halive.symm.trans ha
    case heeds => exact hk
    case stopped =>
      intro hup ha
      exact hinv.stopped (hinv.heeds.up_eq hopens.follows ▸ hup) ha
    case trace =>
      intro e he
      rcases List.mem_append.mp he with he | he
      · exact hinv.trace e he
      · obtain rfl := List.mem_singleton.mp he
        exact decide_eq_true hnone
  · rw [hconns j hj] at hset
    exact nomatch hnone.symm.trans (hholds hset)

theorem newConnection_single {k : Connector} (h : SingleAt start s) (hk : HeedsStop k)
    (hopens : Opens s.connector k) (sockfd : Nat) :
    wp singleContract (fun _ => Steady start) Steady (newConnection sockfd)
      (fun _ s' _ => SingleAt start s') s₀ (setConnector k s) := by
  have haccepted : HeldAt s.made start (accepted sockfd (setConnector k s)) :=
    ⟨h.accept hk hopens sockfd, Nat.lt_succ_self _⟩
  unfold newConnection emit
  simp only [wp_bind, wp_read, wp_modify]
  exact wp_mono (connectEstablished_single haccepted) fun _ _ _ h' => h'.on

theorem onConnector_single {p : ConnectorM Unit}
    (hp : Stable heedContract Opens (fun _ _ => True) HeedAt p) :
    Singles start (onConnector p) (SingleAt start) := by
  intro s₀ s h
  refine (connectorPart newConnection).wp_run (connectorPart_lawful _) (I := fun _ => SingleAt start)
    (fun _ _ _ _ => trivial) ?_ ?_ ?_ h (hp _ _ h.inv.heeds.here)
  · exact fun s₀ s₁ k _ h₁ hk => ⟨h₁.inv.trace, hk⟩
  · intro s₀ s₁ k u h₁ hk hopens _
    refine wp_mono (newConnection_single h₁ hk hopens u) ?_
    exact fun _ _ _ h' => ⟨h', h'.inv.heeds, trivial⟩
  · intro s₀ s₁ k _ h₁ hk
    refine h₁.setConnector hk.ok (fun hsome => hk.connected (h₁.inv.connected hsome)) (fun ha => ?_) ?_
    · exact hk.follows.connect_.trans (h₁.inv.dead ha).2
    · exact fun hup => h₁.inv.stopped (h₁.inv.heeds.up_eq hk.follows ▸ hup)

theorem expected_snoc {e e' : ClientEvent} (he : expected e = true) (h : e' ∈ s.trace ++ [e]) :
    e' ∈ s.trace ∨ expected e' = true := by
  rcases List.mem_append.mp h with h | h
  · exact .inl h
  · rw [List.mem_singleton.mp h]
    exact .inr he

theorem connect_single {p : ConnectorM Unit} (h : SingleAt start s) (halive : s.alive = true)
    (hp : wp (Connector.stepContract (fun _ => False) fun _ _ _ => True) (fun _ _ => True) (fun _ _ => True)
      p (fun _ k _ => Wanted s.connector k) s.connector s.connector) :
    wp singleContract (fun _ => Steady start) Steady (do
      emit .connect
      modify fun s => { s with connect_ := true }
      onConnector p) (fun _ s' _ => SingleAt start s') s₀ s := by
  unfold emit onConnector
  simp only [wp_bind, wp_modify]
  refine wp_connector hp fun k hk => ?_
  have hinv := h.inv
  have htrace : ∀ e ∈ s.trace ++ [.connect], expected e = true := by
    intro e he
    rcases expected_snoc rfl he with he | he
    · exact hinv.trace e he
    · exact he
  refine h.move { hinv with connected := ?_, dead := ?_, heeds := hk.heeds, stopped := ?_, trace := htrace }
    ⟨.of_conns rfl rfl, fun _ _ _ => id⟩
  · exact fun hsome => hk.connected (hinv.connected hsome)
  · exact fun ha => nomatch halive.symm.trans ha
  · exact fun hup => nomatch hk.unstopped.symm.trans hup

theorem disconnect_single : Singles start disconnect (SingleAt start) := by
  intro s₀ s h
  have hclear : SingleAt start { s with connect_ := false } :=
    h.same rfl rfl rfl rfl rfl h.inv.closing (.inr rfl) fun _ => .inl
  unfold disconnect
  simp only [wp_bind, wp_modify, wp_read]
  split
  · rename_i i hconn
    have hat : HeldAt i start { s with connect_ := false } := ⟨hclear, h.inv.connection i hconn⟩
    refine wp_mono ((owner i start).stays (TcpConnection.stable_shutdown TcpConnection.quiet_rule) s₀ _ hat) ?_
    exact fun _ _ _ h' => h'.on
  · exact hclear

theorem stop_single (h : SingleAt start s) :
    wp singleContract (fun _ => Steady start) Steady stop (fun _ s' _ => SingleAt start s') s₀ s := by
  have hclear : SingleAt start { s with trace := s.trace ++ [.stop], connect_ := false } :=
    h.same rfl rfl rfl rfl rfl h.inv.closing (.inr rfl) fun _ => expected_snoc rfl
  exact hclear.setConnector hclear.inv.heeds.calledStop hclear.inv.connected (fun _ => rfl) fun _ _ => rfl

/-- `~TcpClient` leaves the connection without a `closeCallback_`. -/
theorem SingleAt.destroyed (h : SingleAt start s)
    (hconnector : s'.connector = s.connector.calledStop.queued .stopInLoop) (hmade : s'.made = s.made)
    (hstate : ∀ j, (s'.conns j).state = (s.conns j).state)
    (hclose : ∀ j, (s'.conns j).closeCallback = true →
      (s.conns j).closeCallback = true ∧ s.connection ≠ some j)
    (hconnection : s'.connection = none) (hclosing : ∀ j ∈ s'.closing, j < s.made)
    (halive : s'.alive = false) (htrace : s'.trace = s.trace) : SingleAt start s' := by
  have hinv := h.inv
  have hlive : ∀ j, s'.Live j → s.Live j := by
    rintro j ⟨hj, hup⟩
    exact ⟨hmade ▸ hj, hstate j ▸ hup⟩
  have hholds : ∀ j, s.Holds j → s'.Holds j := by
    intro j hj hset
    obtain ⟨hset, hother⟩ := hclose j hset
    exact absurd (hj hset) hother
  have hlasting : Lasting s s' := by
    refine ⟨Nat.le_of_eq hmade.symm, fun j _ => ⟨?_, ?_⟩⟩
    · rw [hstate]
      exact id
    · rw [hstate]
      exact id
  refine h.move ?_ ⟨hlasting, fun j _ _ => hholds j⟩
  constructor
  case connection => rw [hconnection]; nofun
  case closing => rw [hmade]; exact hclosing
  case callbacks => exact fun ha => nomatch halive.symm.trans ha
  case held => exact fun j hj => hholds j (hinv.held j (hlive j hj))
  case single => exact fun j k hj hk => hinv.single j k (hlive j hj) (hlive k hk)
  case connected => exact fun hsome => absurd hconnection hsome
  case dead => exact fun _ => ⟨hconnection, congrArg Connector.connect_ hconnector⟩
  case heeds => rw [hconnector]; exact hinv.heeds.calledStop
  case stopped => exact fun _ ha => nomatch halive.symm.trans ha
  case trace => rw [htrace]; exact hinv.trace

theorem destroy_single (h : SingleAt start s) :
    wp singleContract (fun _ => Steady start) Steady destroy (fun _ s' _ => SingleAt start s') s₀ s := by
  have hend : Singles start destroyConnector (SingleAt start) :=
    Stable.bind Stable.read fun _ => Stable.assert fun _ _ h' => h'.faults _
  unfold destroy onConnector Connector.stop Connector.emit Connector.queueInLoop setCloseCallback
  simp only [wp_bind, wp_read, Embedding.wp_run_bind, Embedding.wp_run_modify]
  cases hconn : s.connection with
  | none =>
    simp only [connectorPart, setConnector, hconn]
    refine hend s₀ _ (h.destroyed rfl rfl (fun _ => rfl) (fun j hset => ⟨hset, ?_⟩) rfl h.inv.closing rfl rfl)
    rw [hconn]
    nofun
  | some i =>
    have hclosing := closing_snoc h.inv (h.inv.connection i hconn)
    generalize hreset : ({ s.conns i with closeCallback := false } : TcpConnection) = c
    have hstate : c.state = (s.conns i).state := hreset ▸ rfl
    have hunset : c.closeCallback = false := hreset ▸ rfl
    simp only [connectorPart, setConnector, hconn, wp_bind, wp_modify]
    rw [hreset]
    refine hend s₀ _ (h.destroyed rfl rfl (fun j => ?_) (fun j hset => ?_) rfl hclosing rfl rfl)
    · show (Function.update s.conns i c j).state = (s.conns j).state
      rcases eq_or_ne j i with rfl | hne
      · rw [Function.update_self, hstate]
      · rw [Function.update_of_ne hne]
    · have hset : (Function.update s.conns i c j).closeCallback = true := hset
      rcases eq_or_ne j i with rfl | hne
      · rw [Function.update_self, hunset] at hset
        cases hset
      · rw [Function.update_of_ne hne] at hset
        exact ⟨hset, fun heq => hne (Option.some.inj (heq.symm.trans hconn))⟩

theorem entry_single {label : ClientLabel} {p : ClientM Unit} (hp : entry label s = some p)
    (h : SingleAt s s) :
    wp singleContract (fun _ => Steady s) Steady p (fun _ s' _ => SingleAt s s') s s := by
  cases label with
  | connect =>
    obtain ⟨halive, hp⟩ := Option.ite_none_right_eq_some.mp hp
    obtain rfl := Option.some.inj hp
    exact connect_single h halive (Connector.start_wanted h.inv.heeds)
  | connectElsewhere =>
    obtain ⟨halive, hp⟩ := Option.ite_none_right_eq_some.mp hp
    obtain rfl := Option.some.inj hp
    exact connect_single h halive (Connector.startElsewhere_wanted h.inv.heeds)
  | disconnect =>
    obtain ⟨-, hp⟩ := Option.ite_none_right_eq_some.mp hp
    obtain rfl := Option.some.inj hp
    exact disconnect_single s s h
  | stop =>
    obtain ⟨-, hp⟩ := Option.ite_none_right_eq_some.mp hp
    obtain rfl := Option.some.inj hp
    exact stop_single h
  | setRetry retry =>
    obtain ⟨-, hp⟩ := Option.ite_none_right_eq_some.mp hp
    obtain rfl := Option.some.inj hp
    exact h.same rfl rfl rfl rfl rfl h.inv.closing (.inl rfl) fun _ => .inl
  | connector label =>
    obtain ⟨hloop, hp⟩ := Option.ite_none_right_eq_some.mp hp
    obtain ⟨q, hq, rfl⟩ := Option.map_eq_some_iff.mp hp
    split
    · exact onConnector_single (Connector.heed_loop.entry hloop hq) s s h
    · exact h.faults _
  | conn i label =>
    rcases entry_conn hp with ⟨-, hi, rfl⟩ | ⟨hup, hdown, hi, rfl⟩
    · have herased : SingleAt s { s with closing := s.closing.erase i } :=
        h.same rfl rfl rfl rfl rfl (fun j hj => h.inv.closing j (List.mem_of_mem_erase hj)) (.inl rfl)
          fun _ => .inl
      rw [wp_bind, wp_modify]
      refine wp_mono (connectDestroyed_single ⟨herased, h.inv.closing i hi⟩) ?_
      exact fun _ _ _ h' => h'.on
    · refine wp_mono ((owner i s).entry hup hdown ⟨h, hi⟩ ?_ ?_) fun _ _ _ h' => h'.on
      · exact fun _ _ _ _ => trivial
      · exact fun _ _ => trivial
  | destroy =>
    obtain ⟨-, hp⟩ := Option.ite_none_right_eq_some.mp hp
    obtain rfl := Option.some.inj hp
    exact destroy_single h

theorem new_singleOk (a b d : Bool) : SingleOk (new a b d) where
  connection := nofun
  closing := nofun
  callbacks _ _ hi := absurd hi (Nat.not_lt_zero _)
  held _ hi := absurd hi.1 (Nat.not_lt_zero _)
  single _ _ hi := absurd hi.1 (Nat.not_lt_zero _)
  connected hsome := absurd rfl hsome
  dead := nofun
  heeds := Connector.new_heedsStop true
  stopped := nofun
  trace := nofun

theorem machine_keeps_single : machine.Keeps singleContract (fun _ => Steady) Machine.anyStep where
  refl _ := Steady.refl
  trans _ _ _ _ := Steady.trans
  init := by
    rintro s ⟨a, b, d, rfl⟩
    exact new_singleOk a b d
  allow _ _ _ _ _ := trivial
  entry label s p hp _ h := by
    have howes : ∀ s₀ s', Steady s s' → Machine.Owes (fun _ => Steady) (machine.thread label)
        (machine.idleOnly label) s s₀ s' := fun _ _ hl => ⟨fun _ hu => absurd rfl hu, fun _ => hl⟩
    refine wp_guar_mono howes (wp_mono (entry_single hp ⟨h, .refl s⟩) ?_)
    exact fun s₀ s' _ h' => ⟨h'.inv, howes s₀ s' h'.since⟩

/-! ## Results -/

/-- **`newConnection` overwrites no connection, and `removeConnection` removes the one it is called for**,
in every run, and no two connections of a client are live. -/
theorem one_connection {c : Config Unit TcpClient ClientCall ClientAnswer (Nat × Callback) Fault}
    (h : machine.Reachable c) :
    (∀ sockfd connection, .newConnection sockfd connection ∈ c.st.trace → connection = none) ∧
      (∀ i connection, .removeConnection i connection ∈ c.st.trace → connection = some i) ∧
        (c.crashed = none → ∀ i j, c.st.Live i → c.st.Live j → i = j) := by
  have hrun := machine_keeps_single.runOk h
  have htrace : ∀ e ∈ c.st.trace, expected e = true := by
    cases hcrash : c.crashed with
    | none => exact (hrun.inv hcrash).trace
    | some e => exact (hrun.crash e hcrash).1
  refine ⟨fun sockfd connection hin => ?_, fun i connection hin => ?_, fun hcrash => ?_⟩
  · exact of_decide_eq_true (htrace _ hin)
  · exact of_decide_eq_true (htrace _ hin)
  · exact (hrun.inv hcrash).single

/-- The user closes the connection where it is told of it, and the client gets another. -/
theorem one_connection_again :
    ∃ c, machine.system.run (fun _ _ => True) (.initial (new true false false))
        [.start (.setRetry true) [], .start .connect [.errno EINPROGRESS],
          .start (.connector (.poll [(0, kWriteEvent)])) [],
          .start (.connector .handleEvent) [.errno 0], .start (.conn 0 .forceClose) [],
          .resume () [.errno EINPROGRESS], .resume () [],
          .start (.connector (.poll [(1, kWriteEvent)])) [],
          .start (.connector .handleEvent) [.errno 0]] = some c ∧
      c.st.connection = some 1 ∧ ∀ i, c.st.Live i → i = 1 := by
  have hrun : (machine.system.run (fun _ _ => True) (.initial (new true false false))
        [.start (.setRetry true) [], .start .connect [.errno EINPROGRESS],
          .start (.connector (.poll [(0, kWriteEvent)])) [],
          .start (.connector .handleEvent) [.errno 0], .start (.conn 0 .forceClose) [],
          .resume () [.errno EINPROGRESS], .resume () [],
          .start (.connector (.poll [(1, kWriteEvent)])) [],
          .start (.connector .handleEvent) [.errno 0]]).map
      (fun c => (c.crashed, c.st.connection, decide (1 < c.st.made), (c.st.conns 1).state)) =
        some (none, some 1, true, .kConnected) := by decide +kernel
  obtain ⟨c, hc, heq⟩ := Option.map_eq_some_iff.mp hrun
  obtain ⟨hcrash, hconnection, hmade, hstate⟩ : _ ∧ _ ∧ _ ∧ _ := by simpa only [Prod.mk.injEq] using heq
  have hlive : c.st.Live 1 := ⟨of_decide_eq_true hmade, by rw [hstate]; nofun⟩
  have hreach : machine.Reachable c := machine.reachable_of_run ⟨_, _, _, rfl⟩ hc
  exact ⟨c, hc, hconnection, fun i hi => (one_connection hreach).2.2 hcrash i 1 hi hlive⟩

/-- `stop` has been called, and `since` is what the connector has done from then on, without a `start`. -/
def StoppedSince (s : TcpClient) (since : List ConnectorEvent) : Prop :=
  ∃ u, s.connector.trace = u ++ [.stop] ++ since ∧ .start ∉ since

/-- **`stop` is final**: up to the next `connect`, there is no `::connect` and no `newConnectionCallback_`. -/
theorem stop_is_final {c : Config Unit TcpClient ClientCall ClientAnswer (Nat × Callback) Fault}
    (h : machine.Reachable c) {since : List ConnectorEvent} (hstop : c.st.StoppedSince since) :
    ∀ sockfd, .connect sockfd ∉ since ∧ .newConnection sockfd ∉ since := by
  have hrun := machine_keeps_single.runOk h
  have hkept : stopBarrier.Kept c.st.connector.trace := by
    cases hcrash : c.crashed with
    | none => exact (hrun.inv hcrash).heeds.kept
    | some e => exact (hrun.crash e hcrash).2
  obtain ⟨u, ht, hstart⟩ := hstop
  rw [ht] at hkept
  have hbarred : ∀ e ∈ since, stopBarrier.stops e = false := by
    refine hkept.behind rfl fun e he => decide_eq_false ?_
    rintro rfl
    exact hstart he
  exact fun sockfd => ⟨fun hin => (nomatch hbarred _ hin), fun hin => (nomatch hbarred _ hin)⟩

/-- A client that retries is stopped where it is told that its connection is down. -/
theorem stop_is_final_closing :
    ∃ c since, machine.system.run (fun _ _ => True) (.initial (new true false false))
        [.start (.setRetry true) [], .start .connect [.errno EINPROGRESS],
          .start (.connector (.poll [(0, kWriteEvent)])) [],
          .start (.connector .handleEvent) [.errno 0], .start (.conn 0 .forceClose) [],
          .start .stop [], .resume () [], .resume () [],
          .start (.connector .doPendingFunctors) [], .start (.connector .functor) []] = some c ∧
      since ≠ [] ∧ c.st.StoppedSince since ∧
        ∀ sockfd, .connect sockfd ∉ since ∧ .newConnection sockfd ∉ since := by
  have hrun : (machine.system.run (fun _ _ => True) (.initial (new true false false))
        [.start (.setRetry true) [], .start .connect [.errno EINPROGRESS],
          .start (.connector (.poll [(0, kWriteEvent)])) [],
          .start (.connector .handleEvent) [.errno 0], .start (.conn 0 .forceClose) [],
          .start .stop [], .resume () [], .resume () [],
          .start (.connector .doPendingFunctors) [], .start (.connector .functor) []]).map
      (fun c => decide (c.st.connector.trace = c.st.connector.trace.take 8 ++ [.stop] ++
          [.resetChannel 0 (some (0, false))])) = some true := by decide +kernel
  obtain ⟨c, hc, heq⟩ := Option.map_eq_some_iff.mp hrun
  have hstop : c.st.StoppedSince [.resetChannel 0 (some (0, false))] := ⟨_, of_decide_eq_true heq, by simp⟩
  have hreach : machine.Reachable c := machine.reachable_of_run ⟨_, _, _, rfl⟩ hc
  exact ⟨c, _, hc, List.cons_ne_nil _ _, hstop, stop_is_final hreach hstop⟩

end Agora.TcpClient
