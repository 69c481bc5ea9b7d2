import Agora.Code.ConnLoop
import Agora.Conn.Closed

/-! # No event of a batch is processed on a closed connection -/

open Agora.Lib Agora.Lib.Prog

namespace Agora.ConnLoop

open TcpConnection (CloseOk Segment Good UserStep closeContract CalmMask reads does_of_stable
  good_rule)

structure LoopInv (s : ConnLoop) : Prop where
  conns : ∀ i, CloseOk (s.conns i).channel.revents (s.conns i)
  pending : ∀ i ∈ s.active, reads (s.conns i).channel.revents = true → (s.conns i).isOpen = true
  calm : ∀ i ∈ s.active, CalmMask (s.conns i).channel.revents
  nodup : s.active.Nodup
  closing : ∀ i ∈ s.closing, (s.conns i).state = .kDisconnected

/-- No mask has `EPOLLHUP` and `EPOLLPRI` without `EPOLLIN`, and `forceClose` is not called on an open
connection whose `EPOLLIN`, `EPOLLPRI` or `EPOLLHUP` is still to be handled in this batch. -/
def Calm : Machine.Condition ConnLoop SysCall SysResult ConnLoopLabel where
  label s
    | .poll events => ∀ e ∈ events, CalmMask e.2
    | .forceClose i => (s.conns i).isOpen = true → i ∈ s.active →
        reads (s.conns i).channel.revents = false
    | _ => True
  answer _ _ _ := True

instance (s : ConnLoop) : ∀ label, Decidable (Calm.label s label)
  | .poll events => inferInstanceAs (Decidable (∀ e ∈ events, CalmMask e.2))
  | .forceClose i => inferInstanceAs (Decidable ((s.conns i).isOpen = true → i ∈ s.active →
      reads (s.conns i).channel.revents = false))
  | .connectEstablished _ | .handleEvent | .connectDestroyed _ | .send .. | .sendBuffer ..
  | .shutdown _ | .consume .. => isTrue trivial

instance (s : ConnLoop) (q : SysCall) (a : SysResult) : Decidable (Calm.answer s q a) :=
  isTrue trivial

/-- What user code leaves alone: a closed connection stays closed and its `closeCallback_` is not
called, and only the loop writes `revents_` and `activeChannels_`. -/
structure Rely (s s' : ConnLoop) : Prop where
  conns : ∀ i, UserStep (s.conns i) (s'.conns i)
  revents : ∀ i, (s'.conns i).channel.revents = (s.conns i).channel.revents
  active : s'.active = s.active

def loopContract : Contract ConnLoop SysCall SysResult (Nat × Callback) Fault where
  inv := LoopInv
  pre _ _ := True
  tolerates _ _ := False
  allow _ _ _ := True

/-! ## Changes of one connection -/

@[simp] theorem setConn_self (i : Nat) (c : TcpConnection) (s : ConnLoop) :
    (setConn i c s).conns i = c := Function.update_self ..

theorem setConn_other {i j : Nat} (h : j ≠ i) (c : TcpConnection) (s : ConnLoop) :
    (setConn i c s).conns j = s.conns j := Function.update_of_ne h ..

theorem setConn_setConn (i : Nat) (c c' : TcpConnection) (s : ConnLoop) :
    setConn i c' (setConn i c s) = setConn i c' s := by
  unfold setConn
  rw [Function.update_idem]

theorem setConn_same (i : Nat) (s : ConnLoop) : setConn i (s.conns i) s = s := by
  unfold setConn
  rw [Function.update_eq_self]

theorem connection_lawful (i : Nat) : (connection i).Lawful :=
  ⟨fun c s => setConn_self i c s, fun c c' s => setConn_setConn i c c' s, setConn_same i⟩

theorem LoopInv.setConn {s : ConnLoop} (h : LoopInv s) {i : Nat} {c : TcpConnection}
    (hok : CloseOk (s.conns i).channel.revents c)
    (hopen : i ∈ s.active → reads (s.conns i).channel.revents = true → c.isOpen = true)
    (hclosed : (s.conns i).state = .kDisconnected → c.state = .kDisconnected) :
    LoopInv (setConn i c s) := by
  refine ⟨fun j => ?_, fun j hj => ?_, fun j hj => ?_, h.nodup, fun j hj => ?_⟩
  all_goals rcases eq_or_ne j i with rfl | hne
  · rw [setConn_self, hok.revents]
    exact hok
  · rw [setConn_other hne]
    exact h.conns j
  · rw [setConn_self, hok.revents]
    exact hopen hj
  · rw [setConn_other hne]
    exact h.pending j hj
  · rw [setConn_self, hok.revents]
    exact h.calm j hj
  · rw [setConn_other hne]
    exact h.calm j hj
  · rw [setConn_self]
    exact hclosed (h.closing j hj)
  · rw [setConn_other hne]
    exact h.closing j hj

theorem Rely.refl (s : ConnLoop) : Rely s s := ⟨fun _ => .refl _, fun _ => rfl, rfl⟩

theorem Rely.trans {s₁ s₂ s₃ : ConnLoop} (h : Rely s₁ s₂) (h' : Rely s₂ s₃) : Rely s₁ s₃ := by
  refine ⟨fun i => (h.conns i).trans (h'.conns i), fun i => (h'.revents i).trans (h.revents i), ?_⟩
  exact h'.active.trans h.active

theorem Rely.setConn {start s : ConnLoop} (h : Rely start s) {i : Nat} {c : TcpConnection}
    (hrev : c.channel.revents = (s.conns i).channel.revents)
    (hclosed : (start.conns i).state = .kDisconnected →
      c.state = .kDisconnected ∧ c.closes = (s.conns i).closes) : Rely start (setConn i c s) := by
  refine ⟨fun j => ⟨fun hj => ?_⟩, fun j => ?_, h.active⟩
  all_goals rcases eq_or_ne j i with rfl | hne
  · obtain ⟨hs, hc⟩ := hclosed hj
    rw [setConn_self]
    exact ⟨hs, hc.trans ((h.conns j).closed hj).2⟩
  · rw [setConn_other hne]
    exact (h.conns j).closed hj
  · rw [setConn_self, hrev]
    exact h.revents j
  · rw [setConn_other hne]
    exact h.revents j

theorem LoopInv.addClosing {s : ConnLoop} (h : LoopInv s) {i : Nat}
    (hi : (s.conns i).state = .kDisconnected) :
    LoopInv { s with closing := s.closing ++ [i] } := by
  refine ⟨h.conns, h.pending, h.calm, h.nodup, fun j hj => ?_⟩
  rcases List.mem_append.mp hj with hj | hj
  · exact h.closing j hj
  · rwa [List.mem_singleton.mp hj]

/-- The state of a program that was started in `start`, at a place where user code may run. -/
structure OkAt (start s : ConnLoop) : Prop where
  inv : LoopInv s
  rely : Rely start s

theorem OkAt.move {start s s' : ConnLoop} (h : OkAt start s) (hi : LoopInv s') (hr : Rely s s') :
    OkAt start s' := ⟨hi, h.rely.trans hr⟩

theorem OkAt.refl {s : ConnLoop} (h : LoopInv s) : OkAt s s := ⟨h, .refl s⟩

/-- Connection `i` may be closed: it was up, and its events do not read it any more. -/
structure MayClose (start : ConnLoop) (i : Nat) (s : ConnLoop) : Prop where
  up : (start.conns i).state ≠ .kDisconnected
  handled : i ∈ s.active → reads (s.conns i).channel.revents = false

theorem OkAt.segment {start s : ConnLoop} {i : Nat} {closing : Prop} {c : TcpConnection}
    (h : OkAt start s) (hclosing : closing → MayClose start i s)
    (hok : CloseOk (s.conns i).channel.revents c) (hseg : Segment closing (s.conns i) c) :
    OkAt start (setConn i c s) := by
  refine ⟨h.inv.setConn hok ?_ hseg.closed, h.rely.setConn hok.revents ?_⟩
  · intro hi hr
    rcases hseg.opened (h.inv.pending i hi hr) with ho | hc
    · exact ho
    · rw [(hclosing hc).handled hi] at hr
      cases hr
  · intro hd
    refine ⟨hseg.closed ((h.rely.conns i).closed hd).1, ?_⟩
    rcases hseg.closes with hc | hc
    · exact hc
    · exact absurd hd (hclosing hc).up

/-! ## Programs -/

def Does {α : Type} (start : ConnLoop) (p : LoopM α) (s : ConnLoop) : Prop :=
  ∀ s₀, wp loopContract (fun _ s => Rely start s) Rely p (fun _ s _ => OkAt start s) s₀ s

theorem does_onConn {start s : ConnLoop} {i : Nat} {α : Type} {p : ConnM α} (closing : Prop)
    (h : OkAt start s) (hclosing : closing → MayClose start i s)
    (hp : TcpConnection.Does (s.conns i).channel.revents closing p (s.conns i)) :
    Does start (onConn i p) s := by
  intro s₀
  generalize hrev : (s.conns i).channel.revents = revents at hp
  refine (connection i).wp_run (connection_lawful i)
    (I := fun _ s => OkAt start s ∧ (s.conns i).channel.revents = revents ∧
      (closing → MayClose start i s)) (fun _ _ _ h => h) (fun _ _ _ _ _ h => h) ?_ ?_
    ⟨h, hrev, hclosing⟩ (hp (s.conns i) (.refl closing _))
  · rintro s₀ s₁ c u ⟨h, hrev, hclosing⟩ hok hseg hpre
    have hat : OkAt start (setConn i c s₁) := by
      refine h.segment hclosing ?_ hseg
      rw [hrev]
      exact hok
    have huser : wp loopContract (fun _ s => Rely start s) Rely (callback (i, u))
        (fun _ s _ => (OkAt start s ∧ (s.conns i).channel.revents = revents ∧
          (closing → MayClose start i s)) ∧ CloseOk revents (s.conns i) ∧ UserStep c (s.conns i))
        s₀ (setConn i c s₁) := by
      rw [wp_callback]
      refine ⟨⟨hat.inv, hat.rely, trivial⟩, fun s' hi hr => ?_⟩
      have hrev' : (s'.conns i).channel.revents = revents := by
        rw [hr.revents i, setConn_self]
        exact hok.revents
      have hstep := hr.conns i
      rw [setConn_self] at hstep
      refine ⟨⟨hat.move hi hr, hrev', fun hc => ⟨(hclosing hc).up, fun ha => ?_⟩⟩, ?_, hstep⟩
      · rw [hrev', ← hrev]
        rw [hr.active] at ha
        exact (hclosing hc).handled ha
      · rw [← hrev']
        exact hi.conns i
    cases u with
    | connection => exact huser
    | message => exact huser
    | writeComplete => exact huser
    | close =>
      refine ⟨⟨⟨hat.inv.addClosing ?_, ⟨hat.rely.conns, hat.rely.revents, hat.rely.active⟩⟩, ?_, ?_⟩,
        ?_, ?_⟩
      · rw [setConn_self]
        exact hpre rfl
      · show ((setConn i c s₁).conns i).channel.revents = revents
        rw [setConn_self]
        exact hok.revents
      · intro hc
        refine ⟨(hclosing hc).up, fun ha => ?_⟩
        show reads ((setConn i c s₁).conns i).channel.revents = false
        rw [setConn_self, hok.revents, ← hrev]
        exact (hclosing hc).handled ha
      · show CloseOk revents ((setConn i c s₁).conns i)
        rw [setConn_self]
        exact hok
      · show UserStep c ((setConn i c s₁).conns i)
        rw [setConn_self]
        exact .refl c
  · rintro s₀ s₁ c a ⟨h, hrev, hclosing⟩ hgood
    refine h.segment hclosing ?_ hgood.segment
    rw [hrev]
    exact hgood.ok

theorem does_onConn_open {s : ConnLoop} {i : Nat} {α : Type} {p : ConnM α} (h : LoopInv s)
    (hp : TcpConnection.Does (s.conns i).channel.revents False p (s.conns i)) :
    Does s (onConn i p) s :=
  does_onConn False (.refl h) False.elim hp

/-! ## What the loop does between the handlers -/

theorem lookup_of_mem {events : List (Nat × EventMask)} {i : Nat} (h : i ∈ events.map Prod.fst) :
    ∃ revents, events.lookup i = some revents ∧ (i, revents) ∈ events := by
  induction events with
  | nil => cases h
  | cons e events ih =>
    rw [List.lookup_cons]
    by_cases hi : i = e.1
    · subst hi
      exact ⟨e.2, by simp, List.mem_cons_self⟩
    · rw [List.map_cons, List.mem_cons] at h
      obtain ⟨revents, hl, hm⟩ := ih (h.resolve_left hi)
      rw [show (i == e.1) = false from by simpa using hi]
      exact ⟨revents, hl, List.mem_cons_of_mem e hm⟩

theorem fillActiveChannels_inv {s : ConnLoop} (h : LoopInv s) {events : List (Nat × EventMask)}
    (hnodup : (events.map Prod.fst).Nodup)
    (hadded : ∀ e ∈ events, (s.conns e.1).channel.index = .kAdded)
    (hcalm : ∀ e ∈ events, CalmMask e.2) : LoopInv (fillActiveChannels events s) := by
  have hfill : ∀ i revents, events.lookup i = some revents → (fillActiveChannels events s).conns i =
      { s.conns i with channel := { (s.conns i).channel with revents := revents } } := by
    intro i revents hl
    simp [fillActiveChannels, hl]
  refine ⟨fun i => ?_, fun i hi _ => ?_, fun i hi => ?_, hnodup, fun i hi => ?_⟩
  · cases hl : events.lookup i with
    | none =>
      have hsame : (fillActiveChannels events s).conns i = s.conns i := by
        simp [fillActiveChannels, hl]
      rw [hsame]
      exact h.conns i
    | some revents =>
      rw [hfill i revents hl]
      have hok := h.conns i
      exact ⟨rfl, hok.opened, hok.silent, hok.quiet, hok.once, hok.order⟩
  · obtain ⟨revents, hl, hm⟩ := lookup_of_mem hi
    rw [hfill i revents hl]
    show (s.conns i).isOpen = true
    by_contra hopen
    exact ((h.conns i).silent (by simpa using hopen)).1 (hadded _ hm)
  · obtain ⟨revents, hl, hm⟩ := lookup_of_mem hi
    rw [hfill i revents hl]
    exact hcalm _ hm
  · have hstate : ((fillActiveChannels events s).conns i).state = (s.conns i).state := by
      cases hl : events.lookup i with
      | none => simp [fillActiveChannels, hl]
      | some revents => rw [hfill i revents hl]
    rw [hstate]
    exact h.closing i hi

/-! ## Runs -/

theorem owes_of_does {start s : ConnLoop} {p : LoopM Unit} {idle : Bool} (hp : Does start p s)
    (hstart : idle = false → start = s) :
    p.wp loopContract (Machine.Owes (fun _ : Unit => Rely) () idle s) Rely
      (fun s₀ s' _ => LoopInv s' ∧ Machine.Owes (fun _ : Unit => Rely) () idle s s₀ s') s s := by
  have howes : ∀ s₀ s', Rely start s' → Machine.Owes (fun _ : Unit => Rely) () idle s s₀ s' := by
    intro s₀ s' hr
    refine ⟨fun u hu => absurd rfl hu, fun hi => ?_⟩
    rw [← hstart hi]
    exact hr
  refine wp_guar_mono howes (wp_mono (hp s) ?_)
  exact fun s₀ s' _ h => ⟨h.inv, howes s₀ s' h.rely⟩

theorem entry_does {label : ConnLoopLabel} {s : ConnLoop} {p : LoopM Unit}
    (hp : entry label s = some p) (hcalm : Calm.label s label) (h : LoopInv s) :
    ∃ start, (loopOnly label = false → start = s) ∧ Does start p s := by
  cases label with
  | connectEstablished i =>
    unfold entry at hp
    obtain ⟨hstate, hp⟩ := Option.ite_none_right_eq_some.mp hp
    obtain rfl := Option.some.inj hp
    exact ⟨s, fun _ => rfl,
      does_onConn_open h (TcpConnection.does_connectEstablished (h.conns i) hstate)⟩
  | poll events =>
    unfold entry at hp
    obtain ⟨⟨-, hnodup, hadded⟩, hp⟩ := Option.ite_none_right_eq_some.mp hp
    obtain rfl := Option.some.inj hp
    refine ⟨fillActiveChannels events s, nofun, fun s₀ => ?_⟩
    rw [wp_modify]
    exact .refl (fillActiveChannels_inv h hnodup hadded hcalm)
  | handleEvent =>
    cases hactive : s.active with
    | nil =>
      simp only [entry, hactive] at hp
      cases hp
    | cons i rest =>
      simp only [entry, hactive] at hp
      obtain rfl := Option.some.inj hp
      have hmem : ∀ j ∈ rest, j ∈ s.active := fun j hj => hactive ▸ List.mem_cons_of_mem i hj
      have hi : i ∈ s.active := hactive ▸ List.mem_cons_self
      have hnodup := h.nodup
      rw [hactive, List.nodup_cons] at hnodup
      have hrest : LoopInv { s with active := rest } :=
        ⟨h.conns, fun j hj => h.pending j (hmem j hj), fun j hj => h.calm j (hmem j hj), hnodup.2,
          h.closing⟩
      refine ⟨{ s with active := rest }, nofun, fun s₀ => ?_⟩
      rw [wp_bind, wp_modify]
      refine does_onConn ((s.conns i).isOpen = true) (.refl hrest) ?_ ?_ s₀
      · intro hopen
        exact ⟨TcpConnection.isOpen_state hopen, fun hr => absurd hr hnodup.1⟩
      · exact TcpConnection.does_handleEvent (h.conns i) (h.calm i hi)
          fun hr => ⟨h.pending i hi hr, h.pending i hi hr⟩
  | connectDestroyed i =>
    unfold entry at hp
    obtain ⟨⟨-, hi⟩, hp⟩ := Option.ite_none_right_eq_some.mp hp
    obtain rfl := Option.some.inj hp
    have herase : LoopInv { s with closing := s.closing.erase i } :=
      ⟨h.conns, h.pending, h.calm, h.nodup, fun j hj => h.closing j (List.mem_of_mem_erase hj)⟩
    refine ⟨{ s with closing := s.closing.erase i }, nofun, fun s₀ => ?_⟩
    rw [wp_bind, wp_modify]
    exact does_onConn_open herase
      (TcpConnection.does_connectDestroyed (h.conns i) (h.closing i hi)) s₀
  | send i message =>
    obtain rfl := Option.some.inj hp
    exact ⟨s, fun _ => rfl, does_onConn_open h
      (does_of_stable (h.conns i) (TcpConnection.stable_send (good_rule _ _) message))⟩
  | sendBuffer i buffer =>
    obtain rfl := Option.some.inj hp
    exact ⟨s, fun _ => rfl, does_onConn_open h (does_of_stable (h.conns i)
      (Stable.bind (TcpConnection.stable_sendBuffer (good_rule _ _) buffer) fun _ => Stable.pure _))⟩
  | shutdown i =>
    obtain rfl := Option.some.inj hp
    exact ⟨s, fun _ => rfl, does_onConn_open h
      (does_of_stable (h.conns i) (TcpConnection.stable_shutdown (good_rule _ _)))⟩
  | forceClose i =>
    obtain rfl := Option.some.inj hp
    refine ⟨s, fun _ => rfl, does_onConn ((s.conns i).isOpen = true) (.refl h) ?_
      (TcpConnection.does_forceClose (h.conns i) id)⟩
    exact fun hopen => ⟨TcpConnection.isOpen_state hopen, hcalm hopen⟩
  | consume i len =>
    obtain rfl := Option.some.inj hp
    exact ⟨s, fun _ => rfl, does_onConn_open h
      (does_of_stable (h.conns i) (TcpConnection.stable_consume (good_rule _ _) len))⟩

theorem new_closeOk (fd : Nat) (a b d e : Bool) :
    CloseOk .none (TcpConnection.new fd a b d e) := by
  refine ⟨rfl, nofun, fun _ => ⟨nofun, rfl⟩, fun _ => ⟨nofun, rfl⟩, Nat.zero_le _, ?_⟩
  intro u hu
  have hlen := hu.length_le
  simp [TcpConnection.new] at hlen

theorem machine_keeps_close : machine.Keeps loopContract (fun _ => Rely) Calm where
  refl _ := Rely.refl
  trans _ _ _ _ := Rely.trans
  init := by
    rintro s ⟨hnew, hactive, hclosing⟩
    refine ⟨fun i => ?_, ?_, ?_, ?_, ?_⟩
    · obtain ⟨fd, a, b, d, e, hi⟩ := hnew i
      rw [hi]
      exact new_closeOk fd a b d e
    · rw [hactive]
      nofun
    · rw [hactive]
      nofun
    · rw [hactive]
      exact List.nodup_nil
    · rw [hclosing]
      nofun
  allow _ _ _ _ _ := trivial
  entry label s p hp hcalm h := by
    obtain ⟨start, hstart, hdoes⟩ := entry_does hp hcalm h
    exact owes_of_does hdoes hstart

/-- No assertion fails, `closeCallback_` runs at most once, and no message follows the disconnected
`connectionCallback_`. -/
def NoEventOnClosed (c : Config Unit ConnLoop SysCall SysResult (Nat × Callback) Fault) : Prop :=
  c.crashed = none ∧ ∀ i, (c.st.conns i).closes ≤ 1 ∧ (c.st.conns i).NoMessageAfterDown

/-- **No event is processed on a closed connection** in a calm run. -/
theorem no_event_on_closed
    {c : Config Unit ConnLoop SysCall SysResult (Nat × Callback) Fault}
    (h : machine.Reach Calm c) : NoEventOnClosed c := by
  have hok := machine_keeps_close.runOk h
  cases hc : c.crashed with
  | none => exact ⟨hc, fun i => ⟨((hok.inv hc).conns i).once, ((hok.inv hc).conns i).order⟩⟩
  | some e => exact (hok.crash e hc).elim

def loopOfServer : ConnLoop := ⟨fun i => .new (i + 3) true true true false, [], []⟩

theorem loopOfServer_init : machine.init loopOfServer :=
  ⟨fun i => ⟨i + 3, true, true, true, false, rfl⟩, rfl, rfl⟩

/-- A message on one connection and a hang-up on another, in one batch. -/
theorem no_event_on_closed_hangup :
    ∃ c, machine.system.run (machine.Meets Calm) (.initial loopOfServer)
        [.start (.connectEstablished 0) [], .resume () [], .start (.connectEstablished 1) [],
          .resume () [],
          .start (.poll [(0, kReadEvent), (1, { EventMask.none with epollhup := true })]) [],
          .start .handleEvent [.bytes [104]], .resume () [], .start .handleEvent [],
          .start (.forceClose 1) [], .resume () []] = some c ∧
      (c.st.conns 1).closes = 1 ∧ NoEventOnClosed c := by
  have hrun : (machine.system.run (machine.Meets Calm) (.initial loopOfServer)
        [.start (.connectEstablished 0) [], .resume () [], .start (.connectEstablished 1) [],
          .resume () [],
          .start (.poll [(0, kReadEvent), (1, { EventMask.none with epollhup := true })]) [],
          .start .handleEvent [.bytes [104]], .resume () [], .start .handleEvent [],
          .start (.forceClose 1) [], .resume () []]).map
      (fun c => (c.st.conns 1).closes) = some 1 := by decide +kernel
  obtain ⟨c, hc, hcloses⟩ := Option.map_eq_some_iff.mp hrun
  exact ⟨c, hc, hcloses, no_event_on_closed (machine.reach_of_run loopOfServer_init hc)⟩

/-- The message callback of one connection closes another one whose `EPOLLIN` is in the same batch;
its end of file then finds it closed. -/
theorem event_on_closed_after_forceClose :
    ¬ ∀ c : Config Unit ConnLoop SysCall SysResult (Nat × Callback) Fault,
      machine.Reachable c → NoEventOnClosed c := by
  intro hall
  have hrun : (machine.system.run (fun _ _ => True) (.initial loopOfServer)
        [.start (.connectEstablished 0) [], .resume () [], .start (.connectEstablished 1) [],
          .resume () [], .start (.poll [(0, kReadEvent), (1, kReadEvent)]) [],
          .start .handleEvent [.bytes [104]], .start (.forceClose 1) [], .resume () [],
          .resume () [], .start .handleEvent [.bytes []]]).map
      (fun c => c.crashed) = some (some .assertHandleClose) := by decide +kernel
  obtain ⟨c, hc, hcrashed⟩ := Option.map_eq_some_iff.mp hrun
  have hnone := (hall c (machine.reachable_of_run loopOfServer_init hc)).1
  rw [hcrashed] at hnone
  cases hnone

end Agora.ConnLoop
