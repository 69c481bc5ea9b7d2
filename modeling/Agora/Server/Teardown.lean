import Agora.Conn.Closed
import Agora.Server.Rules

/-! # Who destroys the connections of a server, and who removes them

A connection is in the map, or its `connectDestroyed` waits, or it has run. A close asks the server to
remove the connection while it is in the map.
-/

open Agora.Lib

namespace Agora.TcpServer

open TcpConnection (UserStep)

variable {τ : Type}

def isDestroyed (i : Nat) : ServerEvent τ → Bool
  | .connectDestroyed j _ => j == i
  | _ => false

def isRemoval : ServerEvent τ → Bool
  | .removeConnection _ | .removeConnectionInLoop _ => true
  | _ => false

/-- How often `connectDestroyed` has run for `i`. -/
def destroys (i : Nat) (t : List (ServerEvent τ)) : Nat := t.countP (isDestroyed i)

/-- `connectDestroyed` runs at most once for each connection, on its loop and after `connectEstablished`,
and nothing is removed any more once the destructor has started. -/
structure TeardownOrder (s : TcpServer τ) : Prop where
  once : ∀ i, destroys i s.trace ≤ 1
  own : ∀ i t, .connectDestroyed i t ∈ s.trace → s.Created i ∧ s.loopOf i = t
  after : ∀ u i t, u ++ [.connectDestroyed i t] <+: s.trace → .connectEstablished i t ∈ u
  silent : ∀ u e, u ++ [e] <+: s.trace → .destructing ∈ u → isRemoval e = false

/-- How many `connectDestroyed` of `i` wait in the queue of its loop. -/
def waiting (s : TcpServer τ) (i : Nat) : Nat := (s.queue (s.loopOf i)).count (.connectDestroyed i)

/-- The `connectDestroyed` of `i` that may still run, and those that have run. -/
def dues (s : TcpServer τ) (i : Nat) : Nat := s.connections.count i + waiting s i + destroys i s.trace

structure TeardownInv (now : Option Nat) (s : TcpServer τ) : Prop where
  orderly : Orderly now s
  order : TeardownOrder s
  owed : ∀ i, dues s i ≤ 1
  single : ∀ i, (s.queue s.loop).count (.removeConnectionInLoop i) ≤ 1
  /-- Only a closed connection is asked to leave the map, and it is still there. -/
  removing : ∀ i, .removeConnectionInLoop i ∈ s.queue s.loop →
    s.phase = .running ∧ i ∈ s.connections ∧ (s.conns i).state = .kDisconnected ∧ (s.conns i).closes ≠ 0
  held : ∀ i, s.Created i → s.phase = .running → (s.conns i).closes = 0 → i ∈ s.connections
  /-- No close is under way when the destructor goes through the map. -/
  down : ∀ i ∈ s.connections, (s.conns i).state = .kDisconnected → s.phase = .running
  uncalled : ∀ i, (s.conns i).state ≠ .kDisconnected → (s.conns i).closes = 0
  known : ∀ i, s.Created i → (s.conns i).state ≠ .kConnecting → .connectEstablished i (s.loopOf i) ∈ s.trace
  ended : .destructing ∈ s.trace → s.phase ≠ .running

/-- What thread `t` relies on. A connection of its own that is closed stays so, its `closeCallback_` is
left to whoever closes it, and the destructor does not start in between. On the thread of the server, the
destructor has the map for itself. -/
structure Steady (t : τ) (s s' : TcpServer τ) : Prop where
  loop : s'.loop = s.loop
  made : s.nextConnId ≤ s'.nextConnId
  loopOf : ∀ i, s.Created i → s'.loopOf i = s.loopOf i
  established : ∀ i, s.Created i → (s.conns i).state ≠ .kConnecting → (s'.conns i).state ≠ .kConnecting
  user : ∀ i, s.Created i → s.loopOf i = t → UserStep (s.conns i) (s'.conns i)
  closing : ∀ i, s.Created i → s.loopOf i = t → (s.conns i).state = .kDisconnected →
    (s.conns i).closes = 0 → s.phase = .running → s'.phase = .running
  map : s.loop = t → s.phase ≠ .running → s'.phase = s.phase ∧ s'.connections = s.connections

theorem Steady.refl (t : τ) (s : TcpServer τ) : Steady t s s :=
  ⟨rfl, Nat.le_refl _, fun _ _ => rfl, fun _ _ => id, fun _ _ _ => .refl _, fun _ _ _ _ _ => id,
    fun _ _ => ⟨rfl, rfl⟩⟩

theorem Steady.created {t : τ} {s s' : TcpServer τ} (h : Steady t s s') {i : Nat} (hi : s.Created i) :
    s'.Created i := ⟨hi.1, Nat.lt_of_lt_of_le hi.2 h.made⟩

theorem Steady.trans {t : τ} {s s' s'' : TcpServer τ} (h : Steady t s s') (h' : Steady t s' s'') :
    Steady t s s'' := by
  refine ⟨h'.loop.trans h.loop, Nat.le_trans h.made h'.made, fun i hi => ?_, fun i hi hs => ?_,
    fun i hi ht => ?_, fun i hi ht hs hc hp => ?_, fun ht hp => ?_⟩
  · exact (h'.loopOf i (h.created hi)).trans (h.loopOf i hi)
  · exact h'.established i (h.created hi) (h.established i hi hs)
  · exact (h.user i hi ht).trans (h'.user i (h.created hi) ((h.loopOf i hi).trans ht))
  · obtain ⟨hs', hc'⟩ := (h.user i hi ht).closed hs
    exact h'.closing i (h.created hi) ((h.loopOf i hi).trans ht) hs' (hc'.trans hc)
      (h.closing i hi ht hs hc hp)
  · obtain ⟨hp', hm⟩ := h.map ht hp
    obtain ⟨hp'', hm'⟩ := h'.map (h.loop.trans ht) (hp' ▸ hp)
    exact ⟨hp''.trans hp', hm'.trans hm⟩

theorem Steady.of_same {t : τ} {s s' : TcpServer τ} (hloop : s'.loop = s.loop)
    (hmade : s'.nextConnId = s.nextConnId) (hloopOf : s'.loopOf = s.loopOf) (hconns : s'.conns = s.conns)
    (hphase : s'.phase = s.phase) (hconnections : s'.connections = s.connections) : Steady t s s' := by
  refine ⟨hloop, Nat.le_of_eq hmade.symm, fun i _ => by rw [hloopOf], fun i _ => by rw [hconns]; exact id,
    fun i _ _ => ?_, fun _ _ _ _ _ hp => hphase.trans hp, fun _ _ => ⟨hphase, hconnections⟩⟩
  rw [hconns]
  exact .refl _

/-! ## The history -/

theorem destroys_snoc (i : Nat) (t : List (ServerEvent τ)) (e : ServerEvent τ) :
    destroys i (t ++ [e]) = destroys i t + if isDestroyed i e then 1 else 0 := by
  unfold destroys
  rw [List.countP_append, List.countP_singleton]

/-- `connectDestroyed` of `i` may be recorded. -/
structure MayDestroy (s : TcpServer τ) (i : Nat) (t : τ) : Prop where
  free : dues s i = 0
  own : s.Created i ∧ s.loopOf i = t
  established : .connectEstablished i t ∈ s.trace

theorem TeardownOrder.emit {s : TcpServer τ} (h : TeardownOrder s) {e : ServerEvent τ}
    (hd : ∀ i t, e = .connectDestroyed i t → MayDestroy s i t)
    (hr : isRemoval e = true → .destructing ∉ s.trace) :
    TeardownOrder { s with trace := s.trace ++ [e] } := by
  refine ⟨fun i => ?_, fun i t hin => ?_, fun u i t hu => ?_, fun u e' hu hin => ?_⟩
  · show destroys i (s.trace ++ [e]) ≤ 1
    rw [destroys_snoc]
    cases e with
    | connectDestroyed j t =>
      have hfree := (hd j t rfl).free
      unfold dues at hfree
      rcases eq_or_ne j i with rfl | hne
      · simp only [isDestroyed, beq_self_eq_true, if_true]
        omega
      · simp only [isDestroyed, beq_eq_false_iff_ne.mpr hne]
        exact h.once i
    | _ => exact h.once i
  · rcases List.mem_append.mp hin with hin | hin
    · exact h.own i t hin
    · exact (hd i t (List.mem_singleton.mp hin).symm).own
  · rcases prefix_snoc hu with ⟨rfl, heq⟩ | hpre
    · exact (hd i t heq.symm).established
    · exact h.after u i t hpre
  · rcases prefix_snoc hu with ⟨rfl, rfl⟩ | hpre
    · by_contra hne
      exact hr (by simpa using hne) hin
    · exact h.silent u e' hpre hin

/-! ## Changes -/

theorem TeardownInv.emit {now : Option Nat} {s : TcpServer τ} (h : TeardownInv now s) {e : ServerEvent τ}
    (hd : ∀ i t, e ≠ .connectDestroyed i t) (hr : isRemoval e = true → s.phase = .running)
    (he : e ≠ .destructing) : TeardownInv now { s with trace := s.trace ++ [e] } := by
  have hcount : ∀ i, destroys i (s.trace ++ [e]) = destroys i s.trace := by
    intro i
    rw [destroys_snoc, if_neg, Nat.add_zero]
    cases e with
    | connectDestroyed j t => exact absurd rfl (hd j t)
    | _ => exact nofun
  refine ⟨h.orderly.record _ _, h.order.emit (fun i t heq => absurd heq (hd i t)) ?_, fun i => ?_, h.single,
    h.removing, h.held, h.down, h.uncalled, fun i hi hs => ?_, fun hin => ?_⟩
  · exact fun hremoval hin => h.ended hin (hr hremoval)
  · show s.connections.count i + waiting s i + destroys i (s.trace ++ [e]) ≤ 1
    rw [hcount]
    exact h.owed i
  · exact List.mem_append_left _ (h.known i hi hs)
  · rcases List.mem_append.mp hin with hin | hin
    · exact h.ended hin
    · exact absurd (List.mem_singleton.mp hin).symm he

theorem TeardownInv.emitDestroyed {s : TcpServer τ} (h : TeardownInv none s) {i : Nat} {t : τ}
    (hi : MayDestroy s i t) : TeardownInv none { s with trace := s.trace ++ [.connectDestroyed i t] } := by
  refine ⟨h.orderly.record _ _, h.order.emit (fun j u heq => ?_) nofun, fun j => ?_, h.single,
    h.removing, h.held, h.down, h.uncalled, fun j hj hs => ?_, fun hin => ?_⟩
  · obtain ⟨rfl, rfl⟩ := ServerEvent.connectDestroyed.inj heq
    exact hi
  · show s.connections.count j + waiting s j + destroys j (s.trace ++ [_]) ≤ 1
    rw [destroys_snoc]
    rcases eq_or_ne i j with rfl | hne
    · have hfree := hi.free
      unfold dues at hfree
      simp only [isDestroyed, beq_self_eq_true, if_true]
      omega
    · simp only [isDestroyed, beq_eq_false_iff_ne.mpr hne]
      exact h.owed j
  · exact List.mem_append_left _ (h.known j hj hs)
  · rcases List.mem_append.mp hin with hin | hin
    · exact h.ended hin
    · cases List.mem_singleton.mp hin

/-- What one step may do to a connection, as far as the teardown goes. -/
structure ConnStep (s : TcpServer τ) (i : Nat) (c : TcpConnection) : Prop where
  established : c.state ≠ .kConnecting
  down : (s.conns i).state = .kDisconnected → c.state = .kDisconnected
  closes : (s.conns i).closes ≤ c.closes
  uncalled : c.state ≠ .kDisconnected → c.closes = 0
  /-- While the destructor goes through the map, nothing in it is closed. -/
  open' : i ∈ s.connections → c.state = .kDisconnected → s.phase = .running

theorem TeardownInv.setConn {now : Option Nat} {s : TcpServer τ} (h : TeardownInv now s) {i : Nat}
    {c : TcpConnection} (hi : s.Created i) (hc : ConnStep s i c) (hnow : ∀ j, some j = now → j = i)
    (hknown : .connectEstablished i (s.loopOf i) ∈ s.trace) : TeardownInv none (setConn i c s) := by
  refine ⟨h.orderly.setConn hi hc.established hnow, ⟨h.order.once, h.order.own, h.order.after, h.order.silent⟩,
    h.owed, h.single, fun j hj => ?_, fun j hj hp hz => ?_, fun j hj hs => ?_, fun j hs => ?_,
    fun j hj hs => ?_, h.ended⟩
  all_goals rcases eq_or_ne j i with rfl | hne
  · obtain ⟨hp, hin, hs, hz⟩ := h.removing j hj
    have hcloses := hc.closes
    rw [setConn_self]
    exact ⟨hp, hin, hc.down hs, by omega⟩
  · rw [setConn_other hne]
    exact h.removing j hj
  · rw [setConn_self] at hz
    have hcloses := hc.closes
    exact h.held j hj hp (by omega)
  · rw [setConn_other hne] at hz
    exact h.held j hj hp hz
  · rw [setConn_self] at hs
    exact hc.open' hj hs
  · rw [setConn_other hne] at hs
    exact h.down j hj hs
  · rw [setConn_self] at hs ⊢
    exact hc.uncalled hs
  · rw [setConn_other hne] at hs ⊢
    exact h.uncalled j hs
  · exact hknown
  · rw [setConn_other hne] at hs
    exact h.known j hj hs

/-! ## The queues -/

section
variable [DecidableEq τ]

theorem count_pushed (s : TcpServer τ) (t u : τ) (f g : ServerFunctor) :
    ((pushed t f s).queue u).count g = (s.queue u).count g + if u = t ∧ f = g then 1 else 0 := by
  rcases eq_or_ne u t with rfl | hne
  · rw [pushed_self, List.count_append, List.count_singleton]
    simp
  · rw [pushed_other hne, if_neg fun h => hne h.1, Nat.add_zero]

theorem count_popped {s : TcpServer τ} {t : τ} {f : ServerFunctor} {rest : List ServerFunctor}
    (hq : s.queue t = f :: rest) (u : τ) (g : ServerFunctor) :
    (s.queue u).count g = ((popped t rest s).queue u).count g + if u = t ∧ f = g then 1 else 0 := by
  rcases eq_or_ne u t with rfl | hne
  · rw [popped_self, hq, List.count_cons]
    simp
  · rw [popped_other hne, if_neg fun h => hne h.1, Nat.add_zero]

theorem TeardownInv.push {now now' : Option Nat} {s : TcpServer τ} (h : TeardownInv now s) {t : τ}
    {f : ServerFunctor} (ho : Orderly now' (pushed t f s))
    (hd : ∀ i, f = .connectDestroyed i → dues s i = 0)
    (hr : ∀ i, f = .removeConnectionInLoop i → .removeConnectionInLoop i ∉ s.queue s.loop ∧
      s.phase = .running ∧ i ∈ s.connections ∧ (s.conns i).state = .kDisconnected ∧ (s.conns i).closes ≠ 0) :
    TeardownInv now' (pushed t f s) := by
  refine ⟨ho, ⟨h.order.once, h.order.own, h.order.after, h.order.silent⟩, fun i => ?_, fun i => ?_, fun i hi => ?_,
    h.held, h.down, h.uncalled, h.known, h.ended⟩
  · show s.connections.count i + ((pushed t f s).queue (s.loopOf i)).count _ + destroys i s.trace ≤ 1
    have howed := h.owed i
    unfold dues waiting at howed
    rw [count_pushed]
    split
    · rename_i heq
      have hzero := hd i heq.2
      unfold dues waiting at hzero
      omega
    · exact howed
  · show ((pushed t f s).queue s.loop).count _ ≤ 1
    rw [count_pushed]
    split
    · rename_i heq
      have hnone := List.count_eq_zero.mpr (hr i heq.2).1
      omega
    · exact h.single i
  · rcases mem_pushed.mp hi with hi | ⟨-, heq⟩
    · exact h.removing i hi
    · exact (hr i heq.symm).2

theorem TeardownInv.pop {s : TcpServer τ} (h : TeardownInv none s) {t : τ} {f : ServerFunctor}
    {rest : List ServerFunctor} (hq : s.queue t = f :: rest) :
    TeardownInv (ServerFunctor.establishes f) (popped t rest s) := by
  refine ⟨h.orderly.pop hq, ⟨h.order.once, h.order.own, h.order.after, h.order.silent⟩, fun i => ?_,
    fun i => ?_, fun i hi => ?_, h.held, h.down, h.uncalled, h.known, h.ended⟩
  · have howed := h.owed i
    have hcount := count_popped hq (s.loopOf i) (.connectDestroyed i)
    show s.connections.count i + ((popped t rest s).queue (s.loopOf i)).count _ + destroys i s.trace ≤ 1
    unfold dues waiting at howed
    omega
  · have hsingle := h.single i
    have hcount := count_popped hq s.loop (.removeConnectionInLoop i)
    show ((popped t rest s).queue s.loop).count _ ≤ 1
    omega
  · exact h.removing i (mem_popped hq hi)

theorem TeardownInv.free {s : TcpServer τ} (h : TeardownInv none s) {t : τ} {i : Nat}
    {rest : List ServerFunctor} (hq : s.queue t = .connectDestroyed i :: rest) :
    dues (popped t rest s) i = 0 := by
  have hin : .connectDestroyed i ∈ s.queue t := by
    rw [hq]
    exact List.mem_cons_self
  obtain ⟨-, ht⟩ := h.orderly.placed t _ hin
  have howed := h.owed i
  have hcount := count_popped hq (s.loopOf i) (.connectDestroyed i)
  rw [if_pos ⟨ht, rfl⟩] at hcount
  show s.connections.count i + ((popped t rest s).queue (s.loopOf i)).count _ + destroys i s.trace = 0
  unfold dues waiting at howed
  omega

end

/-! ## The map -/

theorem TeardownInv.erase {s : TcpServer τ} (h : TeardownInv none s) {i : Nat}
    (hheld : s.phase = .running → (s.conns i).closes ≠ 0)
    (hremoving : .removeConnectionInLoop i ∉ s.queue s.loop) :
    TeardownInv none { s with connections := s.connections.erase i } := by
  refine ⟨h.orderly.erase i, ⟨h.order.once, h.order.own, h.order.after, h.order.silent⟩, fun j => ?_, h.single,
    fun j hj => ?_, fun j hj hp hz => ?_, fun j hj => h.down j (List.mem_of_mem_erase hj), h.uncalled,
    h.known, h.ended⟩
  · have howed := h.owed j
    have herase := (List.erase_sublist (a := i) (l := s.connections)).count_le j
    show (s.connections.erase i).count j + waiting s j + destroys j s.trace ≤ 1
    unfold dues at howed
    omega
  · obtain ⟨hp, hin, hrest⟩ := h.removing j hj
    have hne : j ≠ i := by
      rintro rfl
      exact hremoving hj
    exact ⟨hp, (List.mem_erase_of_ne hne).mpr hin, hrest⟩
  · have hne : j ≠ i := by
      rintro rfl
      exact hheld hp hz
    exact (List.mem_erase_of_ne hne).mpr (h.held j hj hp hz)

theorem TeardownInv.erased {s : TcpServer τ} (h : TeardownInv none s) {i : Nat} (hi : i ∈ s.connections) :
    dues { s with connections := s.connections.erase i } i = 0 := by
  have howed := h.owed i
  have hpos := List.count_pos_iff.mpr hi
  show (s.connections.erase i).count i + waiting s i + destroys i s.trace = 0
  rw [List.count_erase_self]
  unfold dues at howed
  omega

theorem waiting_fresh {now : Option Nat} {s : TcpServer τ} (h : Orderly now s) {t : τ} {i : Nat}
    (hi : ¬ s.Created i) : (s.queue t).count (.connectDestroyed i) = 0 :=
  List.count_eq_zero.mpr fun hin => hi (h.placed t _ hin).1

theorem destroys_fresh {s : TcpServer τ} (h : TeardownOrder s) {i : Nat} (hi : ¬ s.Created i) :
    destroys i s.trace = 0 := by
  unfold destroys
  refine List.countP_eq_zero.mpr fun e he hd => ?_
  cases e with
  | connectDestroyed j t =>
    obtain rfl : j = i := by simpa [isDestroyed] using hd
    exact hi (h.own j t he).1
  | _ => cases hd

theorem TeardownInv.accept {s : TcpServer τ} (h : TeardownInv none s) (sockfd next : Nat) (ioLoop : τ)
    (hrunning : s.phase = .running) :
    TeardownInv (some s.nextConnId) (accepted sockfd ioLoop next s) := by
  have hfresh : ¬ s.Created s.nextConnId := fun hi => hi.ne_next rfl
  have hnew : (accepted sockfd ioLoop next s).conns s.nextConnId =
      .new sockfd s.connectionCallback s.messageCallback true s.writeCompleteCallback :=
    Function.update_self ..
  refine ⟨h.orderly.accept sockfd next ioLoop, ⟨h.order.once, fun i t hin => ?_, h.order.after, h.order.silent⟩,
    fun i => ?_, h.single, fun i hi => ?_, fun i hi _ hz => ?_, fun i _ _ => hrunning, fun i hs => ?_,
    fun i hi hs => ?_, h.ended⟩
  · obtain ⟨hi, ht⟩ := h.order.own i t hin
    rw [accepted_loopOf hi.ne_next]
    exact ⟨hi.accepted, ht⟩
  · show (s.connections ++ [s.nextConnId]).count i +
      (s.queue ((accepted sockfd ioLoop next s).loopOf i)).count _ + destroys i s.trace ≤ 1
    rw [List.count_append]
    rcases eq_or_ne i s.nextConnId with rfl | hne
    · have hheld := List.count_eq_zero.mpr fun hin => hfresh (h.orderly.connections _ hin)
      have hwaiting := @waiting_fresh _ _ _ h.orderly ((accepted sockfd ioLoop next s).loopOf s.nextConnId) _ hfresh
      have hdestroys := destroys_fresh h.order hfresh
      rw [List.count_singleton_self]
      omega
    · rw [accepted_loopOf hne, List.count_singleton, if_neg (by simpa using hne.symm)]
      exact h.owed i
  · have hne := (h.orderly.placed _ _ hi).1.ne_next
    obtain ⟨hp, hin, hrest⟩ := h.removing i hi
    rw [accepted_conns hne]
    exact ⟨hp, List.mem_append_left _ hin, hrest⟩
  · rcases (created_accepted h.orderly.made).mp hi with hi | rfl
    · rw [accepted_conns hi.ne_next] at hz
      exact List.mem_append_left _ (h.held i hi hrunning hz)
    · exact List.mem_append_right _ (List.mem_singleton_self _)
  · rcases eq_or_ne i s.nextConnId with rfl | hne
    · rw [hnew]
      rfl
    · rw [accepted_conns hne] at hs ⊢
      exact h.uncalled i hs
  · rcases (created_accepted h.orderly.made).mp hi with hi | rfl
    · rw [accepted_conns hi.ne_next] at hs
      rw [accepted_loopOf hi.ne_next]
      exact h.known i hi hs
    · rw [hnew] at hs
      exact absurd rfl hs

end Agora.TcpServer
