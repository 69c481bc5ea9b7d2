import Agora.Server.Crossing

/-! # The destruction of a server that no close crosses -/

open Agora.Lib Agora.Lib.Prog

namespace Agora.TcpServer

variable {τ : Type} {me : τ} {start s₀ s : TcpServer τ} {i : Nat}

theorem steady_accepted (t : τ) (s : TcpServer τ) (sockfd next : Nat) (ioLoop : τ) (hrunning : s.phase = .running) :
    Steady t s (accepted sockfd ioLoop next s) := by
  refine ⟨rfl, Nat.le_succ _, fun i hi => accepted_loopOf hi.ne_next, fun i hi => ?_, fun i hi _ => ?_,
    fun _ _ _ _ _ => id, fun _ hp => absurd hrunning hp⟩
  · rw [accepted_conns hi.ne_next]
    exact id
  · rw [accepted_conns hi.ne_next]
    exact .refl _

/-! ## The destructor on the state -/

/-- The destructor is in its loop, with these entries left. -/
structure Destructing (start s₀ s : TcpServer τ) (entries : List Nat) : Prop where
  on : OnThread none start.loop start s₀ s
  phase : s.phase = .destructing
  entries : s.connections.Perm entries

theorem Destructing.erase {rest : List Nat} (h : Destructing start s₀ s (i :: rest))
    (hstart : start.phase = .running) :
    Destructing start s₀ { s with connections := s.connections.erase i } rest := by
  have hnot : s.phase ≠ .running := by
    rw [h.phase]
    nofun
  refine ⟨h.on.setMap ?_ h.on.since.loop hstart, h.phase, ?_⟩
  · exact h.on.inv.erase (fun hp => absurd hp hnot) fun hin => hnot (h.on.inv.removing i hin).1
  · have hperm := h.entries.erase i
    rwa [List.erase_cons_head] at hperm

theorem TeardownInv.destruct (h : TeardownInv none s)
    (hopen : ∀ i ∈ s.connections, (s.conns i).state ≠ .kDisconnected) :
    TeardownInv none { s with phase := .destructing, trace := s.trace ++ [.destructing] } := by
  refine ⟨h.orderly.record _ _, ?_, fun i => ?_, h.single, fun i hi => ?_, nofun, fun i hi hd => ?_, h.uncalled,
    fun i hi hs => List.mem_append_left _ (h.known i hi hs), fun _ => nofun⟩
  · have horder := h.order.emit (e := .destructing) nofun nofun
    exact ⟨horder.once, horder.own, horder.after, horder.silent⟩
  · show s.connections.count i + waiting s i + destroys i (s.trace ++ [.destructing]) ≤ 1
    rw [destroys_snoc]
    exact h.owed i
  · obtain ⟨-, hheld, hdown, -⟩ := h.removing i hi
    exact absurd hdown (hopen i hheld)
  · exact absurd hd (hopen i hi)

theorem TeardownInv.destroyed (h : TeardownInv none s) (hphase : s.phase ≠ .running) :
    TeardownInv none { s with phase := .destroyed } :=
  ⟨h.orderly.record _ _, ⟨h.order.once, h.order.own, h.order.after, h.order.silent⟩, h.owed, h.single,
    fun i hi => absurd (h.removing i hi).1 hphase, nofun, fun i hi hd => absurd (h.down i hi hd) hphase,
    h.uncalled, h.known, fun _ => nofun⟩

theorem Steady.setPhase {t : τ} (h : Steady t start s) (phase : ServerPhase) (hphase : s.phase ≠ .running)
    (hmap : start.loop = t → start.phase = .running) : Steady t start { s with phase := phase } :=
  ⟨h.loop, h.made, h.loopOf, h.established, h.user,
    fun i hi ht hs hc hp => absurd (h.closing i hi ht hs hc hp) hphase, fun ht hp => absurd (hmap ht) hp⟩

theorem steady_destruct (t : τ) (h : TeardownInv none s) (hrunning : s.phase = .running)
    (hopen : ∀ i ∈ s.connections, (s.conns i).state ≠ .kDisconnected) :
    Steady t s { s with phase := .destructing, trace := s.trace ++ [.destructing] } := by
  refine ⟨rfl, Nat.le_refl _, fun _ _ => rfl, fun _ _ => id, fun _ _ _ => .refl _, fun i hi _ hs hc _ => ?_,
    fun _ hp => absurd hrunning hp⟩
  exact absurd hs (hopen i (h.held i hi hrunning hc))

/-! ## The programs -/

variable [DecidableEq τ]

theorem connectEstablished_ok (h : OnThread (some i) me start s₀ s) (hi : Mine me i s) :
    wp teardownContract (Owes me start) (Steady me) (connectEstablished me i)
      (fun s₀ s' _ => OnThread none me start s₀ s') s₀ s := by
  have hemitted := h.emit (e := .connectEstablished i me) nofun nofun nofun
  unfold connectEstablished emit
  rw [wp_bind, wp_modify]
  refine wp_mono (onConn_connectEstablished_ok hemitted ⟨hi.created, hi.loopOf⟩ ?_) fun _ _ _ h => h.on
  rw [show ({ s with trace := s.trace ++ [.connectEstablished i me] } : TcpServer τ).loopOf i = me from
    hi.loopOf]
  exact List.mem_append_right _ (List.mem_singleton_self _)

theorem connectDestroyed_ok (h : OnThread none me start s₀ s) (hi : Mine me i s) (hfree : dues s i = 0)
    (hs : (s.conns i).state ≠ .kConnecting) :
    wp teardownContract (Owes me start) (Steady me) (connectDestroyed me i)
      (fun s₀ s' _ => OnThread none me start s₀ s') s₀ s := by
  have hknown := h.inv.known i hi.created hs
  rw [hi.loopOf] at hknown
  have hemitted : OnThread none me start s₀ { s with trace := s.trace ++ [.connectDestroyed i me] } :=
    h.move (h.inv.emitDestroyed ⟨hfree, ⟨hi.created, hi.loopOf⟩, hknown⟩) fun _ =>
      .of_same rfl rfl rfl rfl rfl rfl
  have hout : i ∉ s.connections := by
    unfold dues at hfree
    exact List.count_eq_zero.mp (by omega)
  unfold connectDestroyed emit
  rw [wp_bind, wp_modify]
  exact wp_mono (onConn_connectDestroyed_ok ⟨hemitted, ⟨hi.created, hi.loopOf⟩, hs⟩ hout) fun _ _ _ h => h.on

theorem newConnection_ok (h : OnThread none s.loop start s₀ s) (sockfd : Nat) (hrunning : s.phase = .running) :
    wp teardownContract (Owes s.loop start) (Steady s.loop) (newConnection s.loop sockfd)
      (fun s₀ s' _ => OnThread none s.loop start s₀ s') s₀ s := by
  have haccepted : OnThread (some s.nextConnId) s.loop start s₀
      (accepted sockfd s.getNextLoop.1 s.getNextLoop.2 s) :=
    h.move (h.inv.accept sockfd _ _ hrunning) fun t => steady_accepted t s sockfd _ _ hrunning
  unfold newConnection queueInLoop
  simp only [wp_bind, wp_read, wp_modify, wp_ite]
  split
  · rename_i hme
    refine connectEstablished_ok haccepted ⟨(created_accepted h.inv.orderly.made).mpr (.inr rfl), ?_⟩
    exact (Function.update_self ..).trans hme
  · rename_i hne
    have hpushed := haccepted.inv.push (h.inv.orderly.acceptElsewhere sockfd s.getNextLoop.2 hne) nofun nofun
    exact haccepted.move hpushed fun _ => .of_same rfl rfl rfl rfl rfl rfl

theorem runFunctor_ok {f : ServerFunctor} {rest : List ServerFunctor} (h : OnThread none me start s₀ s)
    (hq : s.queue me = f :: rest) :
    wp teardownContract (Owes me start) (Steady me) (runFunctor me f)
      (fun s₀ s' _ => OnThread none me start s₀ s') s₀ (popped me rest s) := by
  have hin : f ∈ s.queue me := by
    rw [hq]
    exact List.mem_cons_self
  have hplaced := h.inv.orderly.placed me f hin
  have hpopped := h.move (h.inv.pop hq) fun _ => .of_same rfl rfl rfl rfl rfl rfl
  cases f with
  | connectEstablished i => exact connectEstablished_ok hpopped ⟨hplaced.1, hplaced.2⟩
  | connectDestroyed i =>
    exact connectDestroyed_ok hpopped ⟨hplaced.1, hplaced.2⟩ (h.inv.free hq) (h.inv.orderly.destroyable hq)
  | removeConnectionInLoop i =>
    have hloop : s.loop = me := hplaced.2
    have hremoving : .removeConnectionInLoop i ∈ s.queue s.loop := by rwa [hloop]
    obtain ⟨hrunning, hheld, hdown, hcalled⟩ := h.inv.removing i hremoving
    refine removeConnectionInLoop_ok hpopped ⟨hplaced.1, hrunning, hheld, ?_, hdown, hcalled⟩ hloop
    -- It was the only one.
    have hsingle := h.inv.single i
    have hcount := count_popped hq s.loop (.removeConnectionInLoop i)
    rw [if_pos ⟨hloop, rfl⟩] at hcount
    exact List.count_eq_zero.mp (show ((popped me rest s).queue s.loop).count _ = 0 by omega)

theorem destroyConnections_ok {entries : List Nat} (hstart : start.phase = .running)
    (h : Destructing start s₀ s entries) :
    wp teardownContract (Owes start.loop start) (Steady start.loop) (destroyConnections start.loop entries)
      (fun s₀ s' _ => Destructing start s₀ s' []) s₀ s := by
  induction entries generalizing s₀ s with
  | nil => exact h
  | cons i rest ih =>
    have hheld : i ∈ s.connections := h.entries.mem_iff.mpr List.mem_cons_self
    have hcreated := h.on.inv.orderly.connections i hheld
    have herased := h.erase hstart
    have hfree := h.on.inv.erased hheld
    unfold destroyConnections queueInLoop
    simp only [wp_bind, wp_modify, wp_read, wp_when, wp_ite]
    rw [if_pos (decide_eq_true hheld)]
    split
    · rename_i hme
      have hs := h.on.inv.orderly.atOnce hcreated (hme.trans h.on.since.loop.symm)
      refine wp_mono (since_here herased.on fun hhere => connectDestroyed_ok hhere ⟨hcreated, hme⟩ hfree hs) ?_
      rintro s₀' s' _ ⟨h', hl⟩
      -- The map is the destructor's own, whatever the user does in between.
      obtain ⟨hphase, hmap⟩ := hl.map herased.on.since.loop (by rw [herased.phase]; nofun)
      exact ih ⟨h', hphase.trans herased.phase, hmap ▸ herased.entries⟩
    · have hpushed := herased.on.inv.push (t := s.loopOf i) (f := .connectDestroyed i)
        (herased.on.inv.orderly.push ⟨hcreated, rfl⟩ fun g _ => before_of_ne (by nofun) g)
        (fun j hj => by obtain rfl := ServerFunctor.connectDestroyed.inj hj; exact hfree) nofun
      exact ih ⟨herased.on.move hpushed fun _ => .of_same rfl rfl rfl rfl rfl rfl, herased.phase,
        herased.entries⟩

theorem destroy_ok {entries : List Nat} (h : TeardownInv none s) (hrunning : s.phase = .running)
    (hopen : ∀ i ∈ s.connections, (s.conns i).state ≠ .kDisconnected) (hentries : entries.Perm s.connections) :
    wp teardownContract (Owes s.loop s) (Steady s.loop) (destroy s.loop entries)
      (fun s₀ s' _ => OnThread none s.loop s s₀ s') s s := by
  have hstart : Destructing s s { s with phase := .destructing, trace := s.trace ++ [.destructing] } entries := by
    refine ⟨⟨h.destruct hopen, fun u _ => ?_, ?_⟩, rfl, hentries.symm⟩
    · exact steady_destruct u h hrunning hopen
    · exact steady_destruct s.loop h hrunning hopen
  unfold destroy emit
  simp only [wp_bind, wp_modify]
  refine wp_mono (destroyConnections_ok hrunning hstart) fun s₀ s' _ h' => ?_
  have hphase : s'.phase ≠ .running := by
    rw [h'.phase]
    nofun
  refine ⟨h'.on.inv.destroyed hphase, fun u hu => ?_, ?_⟩
  · refine (h'.on.others u hu).setPhase _ hphase fun ht => ?_
    exact absurd (ht.symm.trans ((h'.on.others u hu).loop.symm.trans h'.on.since.loop)) hu
  · exact h'.on.since.setPhase _ hphase fun _ => hrunning

theorem entry_ok {label : ServerLabel τ} {p : ServerM τ Unit} (hp : entry label s = some p)
    (hapart : Apart.label s label) (h : TeardownInv none s) :
    wp teardownContract (Owes (ServerLabel.thread label) s) (Steady (ServerLabel.thread label)) p
      (fun s₀ s' _ => OnThread none (ServerLabel.thread label) s s₀ s') s s := by
  have hstart : ∀ me, OnThread none me s s s := fun me => ⟨h, fun u _ => .refl u s, .refl me s⟩
  cases label with
  | newConnection me sockfd =>
    obtain ⟨⟨rfl, hrunning⟩, hp⟩ := Option.ite_none_right_eq_some.mp hp
    obtain rfl := Option.some.inj hp
    exact newConnection_ok (hstart _) sockfd hrunning
  | functor me =>
    cases hq : s.queue me with
    | nil =>
      simp only [entry, hq] at hp
      cases hp
    | cons f rest =>
      simp only [entry, hq] at hp
      obtain rfl := Option.some.inj hp
      rw [wp_bind, wp_modify]
      exact runFunctor_ok (hstart me) hq
  | conn me i label =>
    obtain ⟨hl, hme, hs, rfl⟩ := entry_conn hp
    have hat : ConnAt me i s s s := ⟨hstart me, ⟨h.orderly.created hs, hme⟩, hs⟩
    have hdown : label ≠ .connectDestroyed := by
      rintro rfl
      cases hp
    refine wp_mono ((owns me i s).entry hl hdown hat ?_ ?_) fun _ _ _ h => h.on
    · rintro revents rfl hhup hopen
      have hmay : MayClose s i := hapart hhup
      exact hmay.resolve_right (ne_false_of_eq_true hopen)
    · rintro rfl hopen
      have hmay : MayClose s i := hapart
      exact hmay.resolve_right (ne_false_of_eq_true hopen)
  | destroy me entries =>
    obtain ⟨⟨rfl, hrunning, hperm⟩, hp⟩ := Option.ite_none_right_eq_some.mp hp
    obtain rfl := Option.some.inj hp
    exact destroy_ok h hrunning hapart hperm

/-! ## Runs -/

theorem machine_keeps_teardown : (machine τ).Keeps teardownContract Steady Apart where
  refl := Steady.refl
  trans _ _ _ _ := Steady.trans
  init := by
    rintro s ⟨loop, loops, a, b, c, rfl⟩
    refine ⟨new_orderly .., ⟨fun _ => Nat.zero_le 1, nofun, fun u i t hu => ?_, fun u e hu => ?_⟩,
      fun _ => Nat.zero_le 1, fun _ => Nat.zero_le 1, nofun, fun i hi => ?_, nofun, fun _ _ => rfl,
      fun _ _ hs => absurd rfl hs, nofun⟩
    · exact absurd (List.prefix_nil.mp hu) (by simp)
    · exact absurd (List.prefix_nil.mp hu) (by simp)
    · exact absurd hi.2 (Nat.not_lt.mpr hi.1)
  allow _ _ _ _ ha := ha
  entry label s p hp hapart h := by
    have howes : ∀ s₀ s', Owes (ServerLabel.thread label) s s₀ s' →
        Machine.Owes Steady (ServerLabel.thread label) (loopOnly label) s s₀ s' := fun _ _ ho => ⟨ho.1, fun _ => ho.2⟩
    refine wp_guar_mono howes (wp_mono (entry_ok hp hapart h) ?_)
    exact fun s₀ s' _ h' => ⟨h'.inv, howes s₀ s' ⟨h'.others, h'.since⟩⟩

/-- **The teardown is in order** in every run in which no close crosses the destructor. -/
theorem teardown_in_order {c : Config τ (TcpServer τ) ServerCall SysResult (Nat × Callback) Fault}
    (h : (machine τ).Reach Apart c) : TeardownOrder c.st := by
  have hok := machine_keeps_teardown.runOk h
  cases hc : c.crashed with
  | none => exact (hok.inv hc).order
  | some e => exact hok.crash e hc

/-- Two connections on one loop: the peer closes the first, and the server is destroyed with the second. -/
theorem teardown_in_order_two :
    ∃ c, (machine Bool).system.run ((machine Bool).Meets Apart) (.initial (new false [true] true true true))
        [.start (.newConnection false 5) [], .start (.newConnection false 6) [],
          .start (.functor true) [], .resume true [], .start (.functor true) [], .resume true [],
          .start (.conn true 1 (.event kReadEvent)) [.bytes []], .resume true [],
          .start (.functor false) [], .start (.destroy false [2]) [],
          .start (.functor true) [], .start (.functor true) [], .resume true []] = some c ∧
      c.st.trace.count (.connectDestroyed 1 true) = 1 ∧ c.st.trace.count (.connectDestroyed 2 true) = 1 ∧
      TeardownOrder c.st := by
  have hrun : ((machine Bool).system.run ((machine Bool).Meets Apart)
        (.initial (new false [true] true true true))
        [.start (.newConnection false 5) [], .start (.newConnection false 6) [],
          .start (.functor true) [], .resume true [], .start (.functor true) [], .resume true [],
          .start (.conn true 1 (.event kReadEvent)) [.bytes []], .resume true [],
          .start (.functor false) [], .start (.destroy false [2]) [],
          .start (.functor true) [], .start (.functor true) [], .resume true []]).map
      (fun c => (c.st.trace.count (.connectDestroyed 1 true), c.st.trace.count (.connectDestroyed 2 true))) =
        some (1, 1) := by decide +kernel
  obtain ⟨c, hc, heq⟩ := Option.map_eq_some_iff.mp hrun
  obtain ⟨hone, htwo⟩ : _ ∧ _ := by simpa only [Prod.mk.injEq] using heq
  exact ⟨c, hc, hone, htwo,
    teardown_in_order ((machine Bool).reach_of_run ⟨false, [true], true, true, true, rfl⟩ hc)⟩

/-- The peer closes, and the server is destroyed before its loop removes the connection: the removal is
run on a server that does not exist. -/
theorem removal_after_destructor :
    ∃ c, (machine Bool).Reachable c ∧ c.crashed = some .destroyedServer ∧ ¬ TeardownOrder c.st := by
  have hrun : ((machine Bool).system.run (fun _ _ => True) (.initial (new false [true] true true true))
        [.start (.newConnection false 5) [], .start (.functor true) [], .resume true [],
          .start (.conn true 1 (.event kReadEvent)) [.bytes []], .resume true [],
          .start (.destroy false [1]) [], .start (.functor false) []]).map
      (fun c => (c.crashed, c.st.trace)) =
        some (some .destroyedServer, [.connectEstablished 1 true, .removeConnection 1, .destructing,
          .removeConnectionInLoop 1]) := by decide +kernel
  obtain ⟨c, hc, heq⟩ := Option.map_eq_some_iff.mp hrun
  obtain ⟨hcrash, htrace⟩ : _ ∧ _ := by simpa only [Prod.mk.injEq] using heq
  refine ⟨c, (machine Bool).reachable_of_run ⟨false, [true], true, true, true, rfl⟩ hc, hcrash, fun h => ?_⟩
  have hsilent := h.silent [.connectEstablished 1 true, .removeConnection 1, .destructing]
    (.removeConnectionInLoop 1) (by rw [htrace]; exact List.prefix_rfl) (by decide)
  exact nomatch hsilent

end Agora.TcpServer
