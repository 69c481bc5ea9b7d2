import Agora.Code.TcpClient
import Agora.Conn.Life
import Agora.Connector.Rules

/-! # What the connections of a client have told the user -/

open Agora.Lib Agora.Lib.Prog

namespace Agora.TcpClient

open TcpConnection (Life Lives Later LifeAt Hosts Tells)

/-- Every connection is established, but for `now`. -/
structure LifeInv (now : Option Nat) (s : TcpClient) : Prop where
  callback : s.connectionCallback = true
  life : ∀ i < s.made, Life (s.conns i)
  established : ∀ i < s.made, some i ≠ now → (s.conns i).state ≠ .kConnecting
  connection : ∀ i ∈ s.connection, i < s.made
  closing : ∀ i ∈ s.closing, i < s.made

/-- What nothing on a client takes back. -/
structure Lasting (s s' : TcpClient) : Prop where
  made : s.made ≤ s'.made
  conns : ∀ i < s.made, Later (s.conns i) (s'.conns i)

theorem Lasting.refl (s : TcpClient) : Lasting s s := ⟨Nat.le_refl _, fun _ _ => .refl _⟩

theorem Lasting.trans {s s' s'' : TcpClient} (h : Lasting s s') (h' : Lasting s' s'') : Lasting s s'' :=
  ⟨Nat.le_trans h.made h'.made,
    fun i hi => (h.conns i hi).trans (h'.conns i (Nat.lt_of_lt_of_le hi h.made))⟩

theorem Lasting.of_conns {s s' : TcpClient} (hmade : s'.made = s.made) (hconns : s'.conns = s.conns) :
    Lasting s s' := by
  refine ⟨Nat.le_of_eq hmade.symm, fun i _ => ?_⟩
  rw [hconns]
  exact .refl _

theorem Lasting.setConnector {s s' : TcpClient} (h : Lasting s s') (k : Connector) :
    Lasting s (setConnector k s') := ⟨h.made, h.conns⟩

def lifeContract : Contract TcpClient ClientCall ClientAnswer (Nat × Callback) Fault where
  inv := LifeInv none
  pre _ _ := True
  tolerates _ s := ∀ i < s.made, Life (s.conns i)
  allow _ _ _ := True

/-- The state in a segment from `s₀` of a program that was started in `start`. -/
structure OkAt (now : Option Nat) (start s₀ s : TcpClient) : Prop where
  inv : LifeInv now s
  segment : Lasting s₀ s
  since : Lasting start s

abbrev Owed (start s₀ s : TcpClient) : Prop := Lasting s₀ s ∧ Lasting start s

/-- From a good state to a good state, whatever user code does in between. -/
abbrev Does (start : TcpClient) {α : Type} (p : ClientM α) : Prop :=
  Stable lifeContract (Owed start) Lasting (OkAt none start) p

theorem OkAt.move {now now' : Option Nat} {start s₀ s s' : TcpClient} (h : OkAt now start s₀ s)
    (hi : LifeInv now' s') (hl : Lasting s s') : OkAt now' start s₀ s' :=
  ⟨hi, h.segment.trans hl, h.since.trans hl⟩

theorem OkAt.of_same {now : Option Nat} {start s₀ s s' : TcpClient} (h : OkAt now start s₀ s)
    (hcallback : s'.connectionCallback = s.connectionCallback) (hmade : s'.made = s.made)
    (hconns : s'.conns = s.conns) (hconnection : ∀ i ∈ s'.connection, i < s.made)
    (hclosing : ∀ i ∈ s'.closing, i < s.made) : OkAt now start s₀ s' := by
  refine h.move ⟨hcallback.trans h.inv.callback, ?_, ?_, ?_, ?_⟩ ⟨Nat.le_of_eq hmade.symm, fun i _ => ?_⟩
  · rw [hmade, hconns]
    exact h.inv.life
  · rw [hmade, hconns]
    exact h.inv.established
  · rw [hmade]
    exact hconnection
  · rw [hmade]
    exact hclosing
  · rw [hconns]
    exact .refl _

/-! ## Changes of one connection -/

@[simp] theorem setConn_self (i : Nat) (c : TcpConnection) (s : TcpClient) :
    (setConn i c s).conns i = c := Function.update_self ..

theorem setConn_other {i j : Nat} (h : j ≠ i) (c : TcpConnection) (s : TcpClient) :
    (setConn i c s).conns j = s.conns j := Function.update_of_ne h ..

theorem connPart_lawful (i : Nat) (handler : Callback → ClientM Unit) : (connPart i handler).Lawful := by
  refine ⟨fun c s => setConn_self i c s, fun c c' s => ?_, fun s => ?_⟩
  · show setConn i c' (setConn i c s) = setConn i c' s
    unfold setConn
    rw [Function.update_idem]
  · show setConn i (s.conns i) s = s
    unfold setConn
    rw [Function.update_eq_self]

theorem connectorPart_lawful (handler : Nat → ClientM Unit) : (connectorPart handler).Lawful :=
  ⟨fun _ _ => rfl, fun _ _ _ => rfl, fun _ => rfl⟩

theorem wp_connector {C : Contract TcpClient ClientCall ClientAnswer (Nat × Callback) Fault}
    {guar rely : TcpClient → TcpClient → Prop} {handler : Nat → ClientM Unit} {p : ConnectorM Unit}
    {Q : Connector → Prop} {post : TcpClient → Prop} {s₀ s : TcpClient}
    (hp : wp (Connector.stepContract (fun _ => False) fun _ _ _ => True) (fun _ _ => True) (fun _ _ => True)
      p (fun _ k _ => Q k) s.connector s.connector) (hpost : ∀ k, Q k → post (setConnector k s)) :
    wp C guar rely ((connectorPart handler).run p) (fun _ s' _ => post s') s₀ s := by
  refine (connectorPart handler).wp_run (connectorPart_lawful _) (I := fun _ s₁ => s₁ = s)
    (fun _ _ _ _ => trivial) (fun _ _ _ _ _ => False.elim) (fun _ _ _ _ _ => False.elim) ?_ rfl hp
  rintro s₀ s₁ k _ rfl hk
  exact hpost k hk

theorem OkAt.setConn {now : Option Nat} {start s₀ s : TcpClient} (h : OkAt now start s₀ s) {i : Nat}
    {c : TcpConnection} (hnow : ∀ j, some j = now → j = i) (hc : Lives c) (hlater : Later (s.conns i) c) :
    OkAt none start s₀ (setConn i c s) := by
  refine h.move ⟨h.inv.callback, fun j hj => ?_, fun j hj _ => ?_, h.inv.connection, h.inv.closing⟩
    ⟨Nat.le_refl _, fun j _ => ?_⟩
  all_goals rcases eq_or_ne j i with rfl | hne
  · rw [setConn_self]
    exact hc.life
  · rw [setConn_other hne]
    exact h.inv.life j hj
  · rw [setConn_self]
    exact hc.established
  · rw [setConn_other hne]
    exact h.inv.established j hj fun hj' => hne (hnow j hj')
  · rw [setConn_self]
    exact hlater
  · rw [setConn_other hne]
    exact .refl _

theorem OkAt.faults {now : Option Nat} {start s₀ s : TcpClient} (h : OkAt now start s₀ s) (e : Fault) :
    lifeContract.tolerates e s := h.inv.life

/-! ## Callbacks -/

theorem callback_ok {start s₀ s : TcpClient} (h : OkAt none start s₀ s) (u : Nat × Callback) :
    wp lifeContract (Owed start) Lasting (callback u)
      (fun s₀ s' _ => OkAt none start s₀ s' ∧ Lasting s s') s₀ s := by
  rw [wp_callback]
  refine ⟨⟨h.inv, ⟨h.segment, h.since⟩, trivial⟩, fun s' hi hl => ⟨⟨hi, .refl s', ?_⟩, hl⟩⟩
  exact h.since.trans hl

theorem setConnector_ok {now : Option Nat} {start s₀ s : TcpClient} (h : OkAt now start s₀ s)
    (k : Connector) : OkAt now start s₀ (setConnector k s) :=
  h.of_same rfl rfl rfl h.inv.connection h.inv.closing

theorem removeConnection_ok {start s₀ s : TcpClient} (h : OkAt none start s₀ s) {i : Nat} (hi : i < s.made) :
    wp lifeContract (Owed start) Lasting (removeConnection i)
      (fun s₀ s' _ => OkAt none start s₀ s' ∧ Lasting s s') s₀ s := by
  have hclosing : ∀ j ∈ s.closing ++ [i], j < s.made := by
    intro j hj
    rcases List.mem_append.mp hj with hj | hj
    · exact h.inv.closing j hj
    · rwa [List.mem_singleton.mp hj]
  have hrestart : Stable lifeContract (Owed start) Lasting
      (fun s₀ s' => OkAt none start s₀ s' ∧ Lasting s s') restartConnector := by
    refine (connectorPart fun _ => pure ()).stable_run (Embedding.calls_any _) (connectorPart_lawful _) ?_ ?_
      fun _ _ => Stable.pure ()
    · rintro s₀ s' k ⟨h', hl⟩
      exact ⟨setConnector_ok h' k, hl.made, hl.conns⟩
    · exact fun e s₀ s' h' => h'.1.faults e
  unfold removeConnection emit
  simp only [wp_bind, wp_read, wp_modify, wp_assert, wp_when]
  split
  · have hremoved : OkAt none start s₀ { s with
        connection := none, closing := s.closing ++ [i],
        trace := s.trace ++ [.removeConnection i s.connection] } :=
      h.of_same rfl rfl rfl nofun hclosing
    split
    · exact hrestart s₀ _ ⟨hremoved, Nat.le_refl _, fun _ _ => .refl _⟩
    · exact ⟨hremoved, Nat.le_refl _, fun _ _ => .refl _⟩
  · exact h.inv.life

theorem hosts (i : Nat) (start : TcpClient) :
    Hosts (connPart i (handler i)) lifeContract (Owed start) Lasting
      (fun s₀ s => OkAt (some i) start s₀ s ∧ i < s.made)
      (fun s₀ s => OkAt none start s₀ s ∧ i < s.made) where
  lawful := connPart_lawful i _
  fault := by
    rintro s₀ s c e ⟨h, hi⟩ hc j hj
    show Life ((setConn i c s).conns j)
    rcases eq_or_ne j i with rfl | hne
    · rw [setConn_self]
      exact hc
    · rw [setConn_other hne]
      exact h.inv.life j hj
  put := by
    rintro s₀ s c ⟨h, hi⟩ hc hlater
    exact ⟨h.setConn (fun j hj => Option.some.inj hj) hc hlater, hi⟩
  weaken := by
    rintro s₀ s ⟨h, hi⟩
    refine ⟨h.move ⟨h.inv.callback, h.inv.life, ?_, h.inv.connection, h.inv.closing⟩ (.refl s), hi⟩
    exact fun j hj _ => h.inv.established j hj nofun
  lives := by
    rintro s₀ s ⟨h, hi⟩
    exact ⟨h.inv.life i hi, h.inv.established i hi nofun⟩
  handler := by
    rintro u s₀ s ⟨h, hi⟩
    have hback : ∀ s₀ s', OkAt none start s₀ s' ∧ Lasting s s' →
        (OkAt none start s₀ s' ∧ i < s'.made) ∧ Later (s.conns i) (s'.conns i) := by
      rintro s₀ s' ⟨h', hl⟩
      exact ⟨⟨h', Nat.lt_of_lt_of_le hi hl.made⟩, hl.conns i hi⟩
    cases u with
    | close => exact wp_mono (removeConnection_ok h hi) fun s₀ s' _ => hback s₀ s'
    | connection | message | writeComplete =>
      exact wp_mono (callback_ok h _) fun s₀ s' _ => hback s₀ s'

/-! ## The programs of the client -/

theorem onConn_ok {start s₀ s : TcpClient} (h : OkAt none start s₀ s) {i : Nat} (hi : i < s.made)
    {α : Type} {p : ConnM α} (hp : Tells p) :
    wp lifeContract (Owed start) Lasting (onConn i p) (fun s₀ s' _ => OkAt none start s₀ s') s₀ s :=
  wp_mono ((hosts i start).tells hp s₀ s ⟨h, hi⟩) fun _ _ _ h => h.1

/-- `newConnection` up to the point where the connection is established. -/
def accepted (sockfd : Nat) (s : TcpClient) : TcpClient :=
  { s with
    trace := s.trace ++ [.newConnection sockfd s.connection]
    conns := Function.update s.conns s.made
      (.new sockfd s.connectionCallback s.messageCallback true s.writeCompleteCallback)
    made := s.made + 1
    connection := some s.made }

theorem accepted_conns {sockfd i : Nat} {s : TcpClient} (hi : i < s.made) :
    (accepted sockfd s).conns i = s.conns i := Function.update_of_ne (Nat.ne_of_lt hi) ..

theorem accepted_new {sockfd : Nat} {s : TcpClient} (hcallback : s.connectionCallback = true) :
    Life ((accepted sockfd s).conns s.made) := by
  show Life (Function.update s.conns s.made _ s.made)
  rw [Function.update_self, hcallback]
  exact TcpConnection.new_life ..

theorem OkAt.accept {start s₀ s : TcpClient} (h : OkAt none start s₀ s) (sockfd : Nat) :
    OkAt (some s.made) start s₀ (accepted sockfd s) := by
  refine h.move ⟨h.inv.callback, fun i hi => ?_, fun i hi hne => ?_, fun i hi => ?_, fun i hi => ?_⟩
    ⟨Nat.le_succ _, fun i hi => ?_⟩
  · rcases Nat.lt_succ_iff_lt_or_eq.mp hi with hi | rfl
    · rw [accepted_conns hi]
      exact h.inv.life i hi
    · exact accepted_new h.inv.callback
  · rcases Nat.lt_succ_iff_lt_or_eq.mp hi with hi | rfl
    · rw [accepted_conns hi]
      exact h.inv.established i hi nofun
    · exact absurd rfl hne
  · obtain rfl := Option.some.inj hi
    exact Nat.lt_succ_self _
  · exact Nat.lt_succ_of_lt (h.inv.closing i hi)
  · rw [accepted_conns hi]
    exact .refl _

theorem does_newConnection (start : TcpClient) (sockfd : Nat) : Does start (newConnection sockfd) := by
  intro s₀ s h
  unfold newConnection emit
  simp only [wp_bind, wp_read, wp_modify]
  refine wp_mono ((hosts s.made start).run ⟨h.accept sockfd, Nat.lt_succ_self _⟩ ?_) fun _ _ _ h => h.1
  exact TcpConnection.tells_connectEstablished (accepted_new h.inv.callback)

theorem does_onConnector (start : TcpClient) (p : ConnectorM Unit) : Does start (onConnector p) :=
  (connectorPart newConnection).stable_run (Embedding.calls_any p) (connectorPart_lawful _)
    (fun _ _ k h => setConnector_ok h k) (fun e _ _ h => h.faults e)
    fun u _ => does_newConnection start u

theorem does_flags {start : TcpClient} {f : TcpClient → TcpClient}
    (hcallback : ∀ s, (f s).connectionCallback = s.connectionCallback) (hmade : ∀ s, (f s).made = s.made)
    (hconns : ∀ s, (f s).conns = s.conns) (hconnection : ∀ s, (f s).connection = s.connection)
    (hclosing : ∀ s, (f s).closing = s.closing) : Does start (modify f) := by
  refine Stable.modify fun s₀ s h => h.of_same (hcallback s) (hmade s) (hconns s) ?_ ?_
  · rw [hconnection]
    exact h.inv.connection
  · rw [hclosing]
    exact h.inv.closing

theorem does_disconnect (start : TcpClient) : Does start disconnect := by
  intro s₀ s h
  unfold disconnect
  simp only [wp_bind, wp_modify, wp_read]
  have hflag : OkAt none start s₀ { s with connect_ := false } :=
    h.of_same rfl rfl rfl h.inv.connection h.inv.closing
  split
  · rename_i i hconn
    exact onConn_ok hflag (h.inv.connection i hconn) (TcpConnection.stable_shutdown TcpConnection.life_rule)
  · exact hflag

theorem does_destroy (start : TcpClient) : Does start destroy := by
  refine Stable.bind (does_onConnector start Connector.stop) fun _ => fun s₀ s h => ?_
  have hend : Does start destroyConnector :=
    Stable.bind Stable.read fun _ => Stable.assert fun _ _ h => h.inv.life
  rw [wp_bind, wp_read]
  simp only
  split
  · rename_i i hconn
    have hi := h.inv.connection i hconn
    have hclosing : ∀ j ∈ s.closing ++ [i], j < s.made := by
      intro j hj
      rcases List.mem_append.mp hj with hj | hj
      · exact h.inv.closing j hj
      · rwa [List.mem_singleton.mp hj]
    have hreset : LifeAt (s.conns i) { s.conns i with closeCallback := false } :=
      LifeAt.same (Lives.refl ⟨h.inv.life i hi, h.inv.established i hi nofun⟩) rfl rfl rfl
    have hset := h.setConn nofun hreset.lives hreset.later
    unfold setCloseCallback
    simp only [wp_bind, wp_modify]
    exact hend s₀ _ (hset.of_same rfl rfl rfl nofun hclosing)
  · rw [wp_bind, wp_modify]
    exact hend s₀ _ (h.of_same rfl rfl rfl h.inv.connection h.inv.closing)

theorem entry_conn {i : Nat} {label : ConnLabel} {s : TcpClient} {p : ClientM Unit}
    (h : entry (.conn i label) s = some p) :
    (label = .connectDestroyed ∧ i ∈ s.closing ∧ p = do
        modify fun s => { s with closing := s.closing.erase i }
        onConn i TcpConnection.connectDestroyed) ∨
      label ≠ .connectEstablished ∧ label ≠ .connectDestroyed ∧ i < s.made ∧
        p = onConn i (TcpConnection.entry label) := by
  cases label with
  | connectEstablished => cases h
  | connectDestroyed =>
    obtain ⟨hi, hp⟩ := Option.ite_none_right_eq_some.mp h
    exact .inl ⟨rfl, hi, (Option.some.inj hp).symm⟩
  | _ =>
    obtain ⟨hi, hp⟩ := Option.ite_none_right_eq_some.mp h
    exact .inr ⟨nofun, nofun, hi, (Option.some.inj hp).symm⟩

theorem entry_ok {label : ClientLabel} {s : TcpClient} {p : ClientM Unit} (hp : entry label s = some p)
    (h : OkAt none s s s) :
    wp lifeContract (Owed s) Lasting p (fun s₀ s' _ => OkAt none s s₀ s') s s := by
  have hflags : ∀ f : TcpClient → TcpClient, (∀ s, (f s).connectionCallback = s.connectionCallback) →
      (∀ s, (f s).made = s.made) → (∀ s, (f s).conns = s.conns) →
      (∀ s, (f s).connection = s.connection) → (∀ s, (f s).closing = s.closing) →
      Does s (modify f) := fun _ => does_flags
  cases label with
  | connect =>
    obtain ⟨-, hp⟩ := Option.ite_none_right_eq_some.mp hp
    obtain rfl := Option.some.inj hp
    refine Stable.bind (hflags _ ?_ ?_ ?_ ?_ ?_) (fun _ => Stable.bind (hflags _ ?_ ?_ ?_ ?_ ?_) fun _ =>
      does_onConnector s _) s s h
    all_goals exact fun _ => rfl
  | connectElsewhere =>
    obtain ⟨-, hp⟩ := Option.ite_none_right_eq_some.mp hp
    obtain rfl := Option.some.inj hp
    refine Stable.bind (hflags _ ?_ ?_ ?_ ?_ ?_) (fun _ => Stable.bind (hflags _ ?_ ?_ ?_ ?_ ?_) fun _ =>
      does_onConnector s _) s s h
    all_goals exact fun _ => rfl
  | disconnect =>
    obtain ⟨-, hp⟩ := Option.ite_none_right_eq_some.mp hp
    obtain rfl := Option.some.inj hp
    exact does_disconnect s s s h
  | stop =>
    obtain ⟨-, hp⟩ := Option.ite_none_right_eq_some.mp hp
    obtain rfl := Option.some.inj hp
    refine Stable.bind (hflags _ ?_ ?_ ?_ ?_ ?_) (fun _ => Stable.bind (hflags _ ?_ ?_ ?_ ?_ ?_) fun _ =>
      does_onConnector s _) s s h
    all_goals exact fun _ => rfl
  | setRetry retry =>
    obtain ⟨-, hp⟩ := Option.ite_none_right_eq_some.mp hp
    obtain rfl := Option.some.inj hp
    refine hflags _ ?_ ?_ ?_ ?_ ?_ s s h
    all_goals exact fun _ => rfl
  | connector label =>
    obtain ⟨-, hp⟩ := Option.ite_none_right_eq_some.mp hp
    obtain ⟨q, -, rfl⟩ := Option.map_eq_some_iff.mp hp
    split
    · exact does_onConnector s q s s h
    · exact h.inv.life
  | conn i label =>
    rcases entry_conn hp with ⟨-, hi, rfl⟩ | ⟨hl, -, hi, rfl⟩
    · have herased : OkAt none s s { s with closing := s.closing.erase i } :=
        h.of_same rfl rfl rfl h.inv.connection fun j hj => h.inv.closing j (List.mem_of_mem_erase hj)
      rw [wp_bind, wp_modify]
      exact onConn_ok herased (h.inv.closing i hi) TcpConnection.tells_connectDestroyed
    · exact onConn_ok h hi (TcpConnection.tells_entry hl)
  | destroy =>
    obtain ⟨-, hp⟩ := Option.ite_none_right_eq_some.mp hp
    obtain rfl := Option.some.inj hp
    exact does_destroy s s s h

/-! ## Runs -/

/-- A client with a `connectionCallback_`. -/
def notifyingMachine : Machine Unit TcpClient ClientCall ClientAnswer (Nat × Callback) Fault ClientLabel :=
  { machine with init := fun s => ∃ b c, s = new true b c }

theorem notifyingMachine_keeps :
    notifyingMachine.Keeps lifeContract (fun _ => Lasting) Machine.anyStep where
  refl _ := Lasting.refl
  trans _ _ _ _ := Lasting.trans
  init := by
    rintro s ⟨b, c, rfl⟩
    exact ⟨rfl, nofun, nofun, nofun, nofun⟩
  allow _ _ _ _ _ := trivial
  entry label s p hp _ h := by
    have howes : ∀ s₀ s', Owed s s₀ s' → Machine.Owes (fun _ => Lasting) (notifyingMachine.thread label)
        (notifyingMachine.idleOnly label) s s₀ s' := fun _ _ ho => ⟨fun _ _ => ho.1, fun _ => ho.2⟩
    refine wp_guar_mono howes (wp_mono (entry_ok hp ⟨h, .refl s, .refl s⟩) ?_)
    exact fun s₀ s' _ h' => ⟨h'.inv, howes s₀ s' ⟨h'.segment, h'.since⟩⟩

theorem life_of_reachable {c : Config Unit TcpClient ClientCall ClientAnswer (Nat × Callback) Fault}
    (h : notifyingMachine.Reachable c) {i : Nat} (hi : i < c.st.made) : Life (c.st.conns i) := by
  have hok := notifyingMachine_keeps.runOk h
  cases hc : c.crashed with
  | none => exact (hok.inv hc).life i hi
  | some e => exact hok.crash e hc i hi

end Agora.TcpClient
