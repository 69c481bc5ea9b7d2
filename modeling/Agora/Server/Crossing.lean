import Agora.Conn.Owner
import Agora.Server.Teardown

/-! # Closes that do not cross the destructor of the server -/

open Agora.Lib Agora.Lib.Prog

namespace Agora.TcpServer

open TcpConnection (UserStep Quiet Owns)

variable {τ : Type}

/-- A close of `i` may begin: the destructor has not started, or there is nothing to close. -/
def MayClose (s : TcpServer τ) (i : Nat) : Prop := s.phase = .running ∨ (s.conns i).isOpen = false

instance (s : TcpServer τ) (i : Nat) : Decidable (MayClose s i) := inferInstanceAs (Decidable (_ ∨ _))

/-- The event closes the connection without a look at it. -/
def hangsUp (revents : EventMask) : Bool := revents.epollhup && !revents.epollin

/-- No close is under way when the destructor starts, and none begins after that. -/
def Apart : Machine.Condition (TcpServer τ) ServerCall SysResult (ServerLabel τ) where
  label s
    | .destroy _ _ => ∀ i ∈ s.connections, (s.conns i).state ≠ .kDisconnected
    | .conn _ i (.event revents) => hangsUp revents = true → MayClose s i
    | .conn _ i .forceClose => MayClose s i
    | _ => True
  answer s
    | (i, .readv _), .bytes [] => MayClose s i
    | _, _ => True

instance (s : TcpServer τ) : ∀ label, Decidable ((Apart (τ := τ)).label s label)
  | .destroy _ _ => inferInstanceAs (Decidable (∀ i ∈ s.connections, (s.conns i).state ≠ .kDisconnected))
  | .conn _ i (.event revents) => inferInstanceAs (Decidable (hangsUp revents = true → MayClose s i))
  | .conn _ i .forceClose => inferInstanceAs (Decidable (MayClose s i))
  | .newConnection .. | .functor _ | .conn _ _ .connectEstablished | .conn _ _ .connectDestroyed
  | .conn _ _ (.send _) | .conn _ _ (.sendBuffer _) | .conn _ _ .shutdown | .conn _ _ (.consume _) =>
    isTrue trivial

instance (s : TcpServer τ) : ∀ q a, Decidable ((Apart (τ := τ)).answer s q a)
  | (i, .readv _), .bytes [] => inferInstanceAs (Decidable (MayClose s i))
  | (_, .readv _), .bytes (_ :: _) | (_, .readv _), .count _ | (_, .readv _), .error _ | (_, .write _), _
  | (_, .getSocketError), _ => isTrue trivial

def teardownContract : Contract (TcpServer τ) ServerCall SysResult (Nat × Callback) Fault where
  inv := TeardownInv none
  pre _ _ := True
  tolerates _ := TeardownOrder
  allow := (Apart (τ := τ)).answer

/-- The state in a segment from `s₀` of a program that was started in `start`, on thread `me`. -/
structure OnThread (now : Option Nat) (me : τ) (start s₀ s : TcpServer τ) : Prop where
  inv : TeardownInv now s
  others : ∀ u, u ≠ me → Steady u s₀ s
  since : Steady me start s

def Owes (me : τ) (start s₀ s : TcpServer τ) : Prop := (∀ u, u ≠ me → Steady u s₀ s) ∧ Steady me start s

variable {now now' : Option Nat} {me : τ} {start s₀ s : TcpServer τ}

theorem OnThread.move {s' : TcpServer τ} (h : OnThread now me start s₀ s) (hi : TeardownInv now' s')
    (hl : ∀ t, Steady t s s') : OnThread now' me start s₀ s' :=
  ⟨hi, fun u hu => (h.others u hu).trans (hl u), h.since.trans (hl me)⟩

theorem OnThread.emit (h : OnThread now me start s₀ s) {e : ServerEvent τ}
    (hd : ∀ i t, e ≠ .connectDestroyed i t) (hr : isRemoval e = true → s.phase = .running)
    (he : e ≠ .destructing) : OnThread now me start s₀ { s with trace := s.trace ++ [e] } :=
  h.move (h.inv.emit hd hr he) fun _ => .of_same rfl rfl rfl rfl rfl rfl

theorem Steady.setMap {t : τ} (h : Steady t start s) (connections : List Nat)
    (hmap : start.loop = t → start.phase = .running) :
    Steady t start { s with connections := connections } :=
  ⟨h.loop, h.made, h.loopOf, h.established, h.user, h.closing, fun ht hp => absurd (hmap ht) hp⟩

theorem OnThread.setMap (h : OnThread none me start s₀ s) {connections : List Nat}
    (hi : TeardownInv none { s with connections := connections }) (hme : s.loop = me)
    (hrunning : start.phase = .running) :
    OnThread none me start s₀ { s with connections := connections } := by
  refine ⟨hi, fun u hu => (h.others u hu).setMap connections fun ht => ?_, h.since.setMap connections fun _ =>
    hrunning⟩
  exact absurd (ht.symm.trans ((h.others u hu).loop.symm.trans hme)) hu

theorem OnThread.running (h : OnThread now me start s₀ s) (hme : s.loop = me) (hp : s.phase = .running) :
    start.phase = .running := by
  by_contra hn
  exact hn ((h.since.map (h.since.loop.symm.trans hme) hn).1.symm.trans hp)

theorem Steady.setConn {t : τ} (h : Steady t start s) {i : Nat} {c : TcpConnection}
    (hc : c.state ≠ .kConnecting)
    (huser : start.Created i → start.loopOf i = t → UserStep (start.conns i) c) :
    Steady t start (setConn i c s) := by
  refine ⟨h.loop, h.made, h.loopOf, fun j hj hs => ?_, fun j hj ht => ?_, h.closing, h.map⟩
  all_goals rcases eq_or_ne j i with rfl | hne
  · rw [setConn_self]
    exact hc
  · rw [setConn_other hne]
    exact h.established j hj hs
  · rw [setConn_self]
    exact huser hj ht
  · rw [setConn_other hne]
    exact h.user j hj ht

/-- Connection `i` belongs to the thread. -/
structure Mine (me : τ) (i : Nat) (s : TcpServer τ) : Prop where
  created : s.Created i
  loopOf : s.loopOf i = me

theorem Mine.steady {s' : TcpServer τ} {i : Nat} (h : Mine me i s) (hl : Steady me s s') : Mine me i s' :=
  ⟨hl.created h.created, (hl.loopOf i h.created).trans h.loopOf⟩

theorem OnThread.setConn (h : OnThread now me start s₀ s) {i : Nat} (hi : Mine me i s) {c : TcpConnection}
    (hc : ConnStep s i c) (hnow : ∀ j, some j = now → j = i)
    (hknown : .connectEstablished i (s.loopOf i) ∈ s.trace)
    (huser : start.Created i → (start.conns i).state = .kDisconnected → c.closes = (s.conns i).closes) :
    OnThread none me start s₀ (setConn i c s) := by
  refine ⟨h.inv.setConn hi.created hc hnow hknown, fun u hu => ?_, ?_⟩
  · refine (h.others u hu).setConn hc.established fun hi₀ hu₀ => ?_
    exact absurd (hu₀.symm.trans (((h.others u hu).loopOf i hi₀).symm.trans hi.loopOf)) hu
  · refine h.since.setConn hc.established fun hi₀ hme => ⟨fun hs => ?_⟩
    obtain ⟨hs', hcloses⟩ := (h.since.user i hi₀ hme).closed hs
    exact ⟨hc.down hs', (huser hi₀ hs).trans hcloses⟩

theorem callback_ok (h : OnThread none me start s₀ s) (u : Nat × Callback) :
    wp teardownContract (Owes me start) (Steady me) (callback u)
      (fun s₀ s' _ => OnThread none me start s₀ s' ∧ Steady me s s') s₀ s := by
  rw [wp_callback]
  refine ⟨⟨h.inv, ⟨h.others, h.since⟩, trivial⟩, fun s' hi hl => ⟨⟨hi, fun u _ => .refl u s', ?_⟩, hl⟩⟩
  exact h.since.trans hl

theorem since_here (h : OnThread none me start s₀ s) {p : ServerM τ Unit}
    (hp : OnThread none me s s₀ s → wp teardownContract (Owes me s) (Steady me) p
      (fun s₀ s' _ => OnThread none me s s₀ s') s₀ s) :
    wp teardownContract (Owes me start) (Steady me) p
      (fun s₀ s' _ => OnThread none me start s₀ s' ∧ Steady me s s') s₀ s := by
  have hhere : OnThread none me s s₀ s := ⟨h.inv, h.others, .refl me s⟩
  have howes : ∀ s₀ s', Owes me s s₀ s' → Owes me start s₀ s' :=
    fun s₀ s' ho => ⟨ho.1, h.since.trans ho.2⟩
  refine wp_guar_mono howes (wp_mono (hp hhere) fun s₀ s' _ h' => ?_)
  exact ⟨⟨h'.inv, h'.others, h.since.trans h'.since⟩, h'.since⟩

/-! ## Removing a connection -/

/-- The server may be asked to remove `i`. -/
structure Removable (s : TcpServer τ) (i : Nat) : Prop where
  created : s.Created i
  running : s.phase = .running
  held : i ∈ s.connections
  unasked : .removeConnectionInLoop i ∉ s.queue s.loop
  down : (s.conns i).state = .kDisconnected
  called : (s.conns i).closes ≠ 0

variable [DecidableEq τ]

theorem removeConnectionInLoop_ok (h : OnThread none me start s₀ s) {i : Nat} (hi : Removable s i)
    (hme : s.loop = me) :
    wp teardownContract (Owes me start) (Steady me) (removeConnectionInLoop i)
      (fun s₀ s' _ => OnThread none me start s₀ s') s₀ s := by
  have hemitted := h.emit (e := .removeConnectionInLoop i) nofun (fun _ => hi.running) nofun
  have herased := hemitted.setMap (hemitted.inv.erase (fun _ => hi.called) hi.unasked) hme
    (h.running hme hi.running)
  have hpushed := herased.inv.push (t := s.loopOf i) (f := .connectDestroyed i)
    (herased.inv.orderly.push ⟨hi.created, rfl⟩ fun g _ => before_of_ne (by nofun) g)
    (fun j hj => by obtain rfl := ServerFunctor.connectDestroyed.inj hj; exact hemitted.inv.erased hi.held)
    nofun
  unfold removeConnectionInLoop emit queueInLoop
  simp only [wp_bind, wp_modify, wp_read, wp_assert]
  rw [if_pos (decide_eq_true (by rw [hi.running]; nofun))]
  exact herased.move hpushed fun _ => .of_same rfl rfl rfl rfl rfl rfl

theorem removeConnection_ok (h : OnThread none me start s₀ s) {i : Nat} (hi : Removable s i) :
    wp teardownContract (Owes me start) (Steady me) (removeConnection me i)
      (fun s₀ s' _ => OnThread none me start s₀ s') s₀ s := by
  have hemitted := h.emit (e := .removeConnection i) nofun (fun _ => hi.running) nofun
  have hremovable : Removable { s with trace := s.trace ++ [.removeConnection i] } i :=
    ⟨hi.created, hi.running, hi.held, hi.unasked, hi.down, hi.called⟩
  have hpushed := hemitted.inv.push (t := s.loop) (f := .removeConnectionInLoop i)
    (hemitted.inv.orderly.push ⟨hi.created, rfl⟩ fun g _ => before_of_ne (by nofun) g) nofun
    (fun j hj => by
      obtain rfl := ServerFunctor.removeConnectionInLoop.inj hj
      exact ⟨hi.unasked, hi.running, hi.held, hi.down, hi.called⟩)
  unfold removeConnection emit
  simp only [wp_bind, wp_modify, wp_read, wp_assert, wp_ite]
  have hphase : s.phase ≠ .destroyed := by
    rw [hi.running]
    nofun
  rw [if_pos (Bool.or_eq_true_iff.mpr (.inl (decide_eq_true hphase)))]
  split
  · rename_i hme
    exact removeConnectionInLoop_ok hemitted hremovable hme
  · exact hemitted.move hpushed fun _ => .of_same rfl rfl rfl rfl rfl rfl

/-! ## The functions of a connection -/

/-- Connection `i` is established, and runs on its thread. -/
structure ConnAt (me : τ) (i : Nat) (start s₀ s : TcpServer τ) : Prop where
  on : OnThread none me start s₀ s
  mine : Mine me i s
  established : (s.conns i).state ≠ .kConnecting

variable {i : Nat}

omit [DecidableEq τ] in
theorem ConnAt.known (h : ConnAt me i start s₀ s) : .connectEstablished i (s.loopOf i) ∈ s.trace :=
  h.on.inv.known i h.mine.created h.established

omit [DecidableEq τ] in
theorem ConnAt.setConn (h : ConnAt me i start s₀ s) {c : TcpConnection} (hc : ConnStep s i c)
    (huser : start.Created i → (start.conns i).state = .kDisconnected → c.closes = (s.conns i).closes) :
    ConnAt me i start s₀ (setConn i c s) := by
  refine ⟨h.on.setConn h.mine hc nofun h.known huser, ⟨h.mine.created, h.mine.loopOf⟩, ?_⟩
  rw [setConn_self]
  exact hc.established

omit [DecidableEq τ] in
theorem ConnAt.same (h : ConnAt me i start s₀ s) {c : TcpConnection}
    (hs : c.state = (s.conns i).state ∨ (s.conns i).isOpen = true ∧ c.state = .kDisconnecting)
    (hcloses : c.closes = (s.conns i).closes) : ConnAt me i start s₀ (TcpServer.setConn i c s) := by
  have hdown : c.state = .kDisconnected ↔ (s.conns i).state = .kDisconnected := by
    rcases hs with hs | ⟨hopen, hs⟩
    · rw [hs]
    · rw [hs]
      exact ⟨nofun, fun hs' => absurd hs' (TcpConnection.isOpen_state hopen)⟩
  refine h.setConn ⟨?_, hdown.mpr, Nat.le_of_eq hcloses.symm, fun hn => ?_, fun hin hd => ?_⟩
    fun _ _ => hcloses
  · rcases hs with hs | ⟨-, hs⟩
    · rw [hs]
      exact h.established
    · rw [hs]
      nofun
  · rw [hcloses]
    exact h.on.inv.uncalled i fun hd => hn (hdown.mpr hd)
  · exact h.on.inv.down i hin (hdown.mp hd)

omit [DecidableEq τ] in
theorem ConnAt.quiet (h : ConnAt me i start s₀ s) {c : TcpConnection} (hq : Quiet (s.conns i) c) :
    ConnAt me i start s₀ (TcpServer.setConn i c s) := by
  refine h.same ?_ hq.closes
  rcases hq.state with hs | ⟨hs, hs'⟩
  · exact .inl hs
  · exact .inr ⟨by simp [TcpConnection.isOpen, hs], hs'⟩

omit [DecidableEq τ] in
theorem ConnAt.steady {s₀' s' : TcpServer τ} (h : ConnAt me i start s₀ s)
    (h' : OnThread none me start s₀' s') (hl : Steady me s s') : ConnAt me i start s₀' s' :=
  ⟨h', h.mine.steady hl, hl.established i h.mine.created h.established⟩

omit [DecidableEq τ] in
theorem stable_user (me : τ) (i : Nat) (start : TcpServer τ) (u : Nat × Callback) :
    Stable teardownContract (Owes me start) (Steady me) (ConnAt me i start) (callback u) := by
  intro s₀ s h
  refine wp_mono (callback_ok h.on u) ?_
  exact fun s₀' s' _ h' => h.steady h'.1 h'.2

theorem stable_handler {u : Callback} (hu : u ≠ .close) :
    Stable teardownContract (Owes me start) (Steady me) (ConnAt me i start) (handler me i u) := by
  cases u with
  | close => exact absurd rfl hu
  | connection | message | writeComplete => exact stable_user me i start _

/-- The connection may change as long as it stays in its state and `closeCallback_` is not called. -/
def Kept (i : Nat) (J : TcpServer τ → TcpServer τ → Prop) : Prop :=
  ∀ s₀ s c, J s₀ s → c.state = (s.conns i).state → c.closes = (s.conns i).closes → J s₀ (setConn i c s)

omit [DecidableEq τ] in
theorem connAt_kept (me : τ) (i : Nat) (start : TcpServer τ) : Kept i (ConnAt me i start) :=
  fun _ _ _ h hs hcloses => h.same (.inl hs) hcloses

/-! ### Closing -/

/-- The connection is going down, and the server has not been asked to remove it. -/
structure Closing (me : τ) (i : Nat) (start s₀ s : TcpServer τ) : Prop where
  at' : ConnAt me i start s₀ s
  down : (s.conns i).state = .kDisconnected
  uncalled : (s.conns i).closes = 0
  running : s.phase = .running
  up : start.Created i → (start.conns i).state ≠ .kDisconnected

omit [DecidableEq τ] in
theorem closing_kept (me : τ) (i : Nat) (start : TcpServer τ) : Kept i (Closing me i start) := by
  intro s₀ s c h hs hcloses
  refine ⟨h.at'.same (.inl hs) hcloses, ?_, ?_, h.running, h.up⟩
  · rw [setConn_self, hs]
    exact h.down
  · rw [setConn_self, hcloses]
    exact h.uncalled

omit [DecidableEq τ] in
theorem closing_user (me : τ) (i : Nat) (start : TcpServer τ) (u : Nat × Callback) :
    Stable teardownContract (Owes me start) (Steady me) (Closing me i start) (callback u) := by
  intro s₀ s h
  refine wp_mono (callback_ok h.at'.on u) ?_
  rintro s₀' s' _ ⟨h', hl⟩
  obtain ⟨hcreated, hme⟩ := h.at'.mine
  obtain ⟨hdown, hcloses⟩ := (hl.user i hcreated hme).closed h.down
  exact ⟨h.at'.steady h' hl, hdown, hcloses.trans h.uncalled,
    hl.closing i hcreated hme h.down h.uncalled h.running, h.up⟩

theorem invokeCloseCallback_ok (h : Closing me i start s₀ s) :
    wp teardownContract (Owes me start) (Steady me) (onConn me i TcpConnection.invokeCloseCallback)
      (fun s₀ s' _ => ConnAt me i start s₀ s') s₀ s := by
  have hat := h.at'
  have hcalled : TcpConnection.closes { s.conns i with trace := (s.conns i).trace ++ [.closeCallback] } = 1 := by
    rw [TcpConnection.closes_snoc (c := s.conns i) rfl, h.uncalled]
    rfl
  have hstep : ConnStep s i { s.conns i with trace := (s.conns i).trace ++ [.closeCallback] } := by
    refine ⟨hat.established, id, ?_, fun hn => absurd h.down hn, fun _ _ => h.running⟩
    rw [hcalled, h.uncalled]
    exact Nat.zero_le 1
  have hset := hat.setConn hstep fun hi hs => absurd hs (h.up hi)
  have hremovable : Removable (setConn i { s.conns i with trace := (s.conns i).trace ++ [.closeCallback] } s)
      i := by
    refine ⟨hat.mine.created, h.running, ?_, fun hin => ?_, ?_, ?_⟩
    · exact hat.on.inv.held i hat.mine.created h.running h.uncalled
    · exact (hat.on.inv.removing i hin).2.2.2 h.uncalled
    · rw [setConn_self]
      exact h.down
    · rw [setConn_self, hcalled]
      exact Nat.one_ne_zero
  unfold TcpConnection.invokeCloseCallback TcpConnection.emit onConn
  simp only [Embedding.wp_run_bind, Embedding.wp_run_read, Embedding.wp_run_when, Embedding.wp_run_modify,
    Embedding.wp_run_callback]
  split
  · refine wp_mono (since_here hset.on fun hhere => removeConnection_ok hhere hremovable) ?_
    exact fun s₀' s' _ h' => hset.steady h'.1 h'.2
  · exact hat

theorem owns (me : τ) (i : Nat) (start : TcpServer τ) :
    Owns (connPart i (handler me i)) teardownContract (Owes me start) (Steady me) (ConnAt me i start)
      (Closing me i start) (fun s => s.phase = .running) where
  lawful := connPart_lawful i _
  aborts _ _ _ h := h.on.inv.order
  quiet _ _ _ h hq := h.quiet hq
  up s₀ s c h hs _ := connAt_kept me i start s₀ s c h hs
  down s₀ s c h hs _ := closing_kept me i start s₀ s c h hs
  user _ hu := stable_handler hu
  userDown := closing_user me i start (i, .connection)
  may _ _ hrunning := hrunning
  eof s len a hallow hanswer hopen := by
    obtain rfl : a = .bytes [] := hanswer
    have hmay : MayClose s i := hallow
    exact hmay.resolve_right (ne_false_of_eq_true hopen)
  close s₀ s h hopen hrunning := by
    have hup : start.Created i → (start.conns i).state ≠ .kDisconnected := by
      intro hi hs
      have hme := (h.on.since.loopOf i hi).symm.trans h.mine.loopOf
      exact TcpConnection.isOpen_state hopen ((h.on.since.user i hi hme).closed hs).1
    have hcloses := h.on.inv.uncalled i (TcpConnection.isOpen_state hopen)
    have hstep : ConnStep s i { s.conns i with state := .kDisconnected } :=
      ⟨nofun, fun _ => rfl, Nat.le_refl _, fun hn => absurd rfl hn, fun _ _ => hrunning⟩
    refine ⟨h.setConn hstep fun _ _ => rfl, ?_, ?_, hrunning, hup⟩
    · exact congrArg TcpConnection.state (setConn_self ..)
    · exact (congrArg TcpConnection.closes (setConn_self ..)).trans hcloses
  closeCallback _ _ h := invokeCloseCallback_ok h

/-! ### The owner's calls -/

theorem onConn_connectDestroyed_ok (h : ConnAt me i start s₀ s) (hout : i ∉ s.connections) :
    wp teardownContract (Owes me start) (Steady me) (onConn me i TcpConnection.connectDestroyed)
      (fun s₀ s' _ => ConnAt me i start s₀ s') s₀ s := by
  refine (owns me i start).connectDestroyed h fun c hc => ?_
  exact hc.setConn ⟨fun hs => (by cases hs), fun _ => rfl, Nat.le_refl _, fun hn => absurd rfl hn,
    fun hin => absurd hin hout⟩ fun _ _ => rfl

theorem onConn_connectEstablished_ok (h : OnThread (some i) me start s₀ s) (hi : Mine me i s)
    (hknown : .connectEstablished i (s.loopOf i) ∈ s.trace) :
    wp teardownContract (Owes me start) (Steady me) (onConn me i TcpConnection.connectEstablished)
      (fun s₀ s' _ => ConnAt me i start s₀ s') s₀ s := by
  refine (owns me i start).connectEstablished h.inv.order fun hstate => ?_
  have hstate : (s.conns i).state = .kConnecting := hstate
  have hstep : ConnStep s i { s.conns i with state := .kConnected } := by
    refine ⟨fun hs => ?_, fun hd => ?_, Nat.le_refl _, fun _ => ?_, fun _ hs => ?_⟩
    · cases hs
    · cases hstate.symm.trans hd
    · refine h.inv.uncalled i ?_
      rw [hstate]
      simp
    · cases hs
  refine ⟨h.setConn hi hstep (fun _ hj => Option.some.inj hj) hknown fun _ _ => rfl,
    ⟨hi.created, hi.loopOf⟩, fun hs => ?_⟩
  cases (congrArg TcpConnection.state (setConn_self ..)).symm.trans hs

end Agora.TcpServer
