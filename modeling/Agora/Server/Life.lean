import Agora.Conn.Life
import Agora.Server.Rules

/-! # What the connections of a server have told the user -/

open Agora.Lib Agora.Lib.Prog

namespace Agora.TcpServer

open TcpConnection (Life Lives Later Hosts Tells Notified DestroyedCalmly)

variable {τ : Type}

structure LifeInv (now : Option Nat) (s : TcpServer τ) : Prop where
  orderly : Orderly now s
  callback : s.connectionCallback = true
  life : ∀ i, s.Created i → Life (s.conns i)

/-- What nothing on a server takes back. -/
structure Lasting (s s' : TcpServer τ) : Prop where
  loop : s'.loop = s.loop
  made : s.nextConnId ≤ s'.nextConnId
  conns : ∀ i, s.Created i → Later (s.conns i) (s'.conns i)

theorem Lasting.refl (s : TcpServer τ) : Lasting s s := ⟨rfl, Nat.le_refl _, fun _ _ => .refl _⟩

theorem Lasting.created {s s' : TcpServer τ} (h : Lasting s s') {i : Nat} (hi : s.Created i) :
    s'.Created i := ⟨hi.1, Nat.lt_of_lt_of_le hi.2 h.made⟩

theorem Lasting.trans {s s' s'' : TcpServer τ} (h : Lasting s s') (h' : Lasting s' s'') :
    Lasting s s'' :=
  ⟨h'.loop.trans h.loop, Nat.le_trans h.made h'.made,
    fun i hi => (h.conns i hi).trans (h'.conns i (h.created hi))⟩

theorem Lasting.of_same {s s' : TcpServer τ} (hloop : s'.loop = s.loop) (hmade : s'.nextConnId = s.nextConnId)
    (hconns : s'.conns = s.conns) : Lasting s s' := by
  refine ⟨hloop, Nat.le_of_eq hmade.symm, fun i _ => ?_⟩
  rw [hconns]
  exact .refl _

def lifeContract : Contract (TcpServer τ) ServerCall SysResult (Nat × Callback) Fault where
  inv := LifeInv none
  pre _ _ := True
  tolerates _ s := ∀ i, s.Created i → Life (s.conns i)
  allow _ _ _ := True

/-- The state in a segment from `s₀` of a program that was started in `start`. -/
structure OkAt (now : Option Nat) (start s₀ s : TcpServer τ) : Prop where
  inv : LifeInv now s
  segment : Lasting s₀ s
  since : Lasting start s

abbrev Owed (start s₀ s : TcpServer τ) : Prop := Lasting s₀ s ∧ Lasting start s

theorem OkAt.move {now now' : Option Nat} {start s₀ s s' : TcpServer τ} (h : OkAt now start s₀ s)
    (hi : LifeInv now' s') (hl : Lasting s s') : OkAt now' start s₀ s' :=
  ⟨hi, h.segment.trans hl, h.since.trans hl⟩

theorem OkAt.of_same {now now' : Option Nat} {start s₀ s s' : TcpServer τ} (h : OkAt now start s₀ s)
    (ho : Orderly now' s') (hcallback : s'.connectionCallback = s.connectionCallback)
    (hloop : s'.loop = s.loop) (hmade : s'.nextConnId = s.nextConnId) (hconns : s'.conns = s.conns) :
    OkAt now' start s₀ s' := by
  refine h.move ⟨ho, hcallback.trans h.inv.callback, fun i hi => ?_⟩ (.of_same hloop hmade hconns)
  rw [hconns]
  unfold Created at hi
  rw [hmade] at hi
  exact h.inv.life i hi

theorem OkAt.setConn {now : Option Nat} {start s₀ s : TcpServer τ} (h : OkAt now start s₀ s) {i : Nat}
    {c : TcpConnection} (hi : s.Created i) (hnow : ∀ j, some j = now → j = i) (hc : Lives c)
    (hlater : Later (s.conns i) c) : OkAt none start s₀ (setConn i c s) := by
  refine h.move ⟨h.inv.orderly.setConn hi hc.established hnow, h.inv.callback, fun j hj => ?_⟩
    ⟨rfl, Nat.le_refl _, fun j _ => ?_⟩
  all_goals rcases eq_or_ne j i with rfl | hne
  · rw [setConn_self]
    exact hc.life
  · rw [setConn_other hne]
    exact h.inv.life j hj
  · rw [setConn_self]
    exact hlater
  · rw [setConn_other hne]
    exact .refl _

theorem tells_user {start s₀ s : TcpServer τ} (h : OkAt none start s₀ s) (u : Nat × Callback) :
    wp lifeContract (Owed start) Lasting (callback u)
      (fun s₀ s' _ => OkAt none start s₀ s' ∧ Lasting s s') s₀ s := by
  rw [wp_callback]
  refine ⟨⟨h.inv, ⟨h.segment, h.since⟩, trivial⟩, fun s' hi hl => ⟨⟨hi, .refl s', ?_⟩, hl⟩⟩
  exact h.since.trans hl

variable [DecidableEq τ]

theorem tells_removeConnectionInLoop {start s₀ s : TcpServer τ} (h : OkAt none start s₀ s) {i : Nat}
    (hi : s.Created i) :
    wp lifeContract (Owed start) Lasting (removeConnectionInLoop i)
      (fun s₀ s' _ => OkAt none start s₀ s' ∧ Lasting s s') s₀ s := by
  unfold removeConnectionInLoop emit queueInLoop
  simp only [wp_bind, wp_modify, wp_read, wp_assert]
  split
  · have herased : Orderly none { s with
        connections := s.connections.erase i, trace := s.trace ++ [.removeConnectionInLoop i] } :=
      (h.inv.orderly.erase i).record _ _
    have hpushed := herased.push (t := s.loopOf i) (f := .connectDestroyed i) ⟨hi, rfl⟩ fun g _ =>
      before_of_ne (by nofun) g
    exact ⟨h.of_same hpushed rfl rfl rfl rfl, .of_same rfl rfl rfl⟩
  · exact h.inv.life

theorem tells_removeConnection {start s₀ s : TcpServer τ} (h : OkAt none start s₀ s) {i : Nat}
    (hi : s.Created i) (me : τ) :
    wp lifeContract (Owed start) Lasting (removeConnection me i)
      (fun s₀ s' _ => OkAt none start s₀ s' ∧ Lasting s s') s₀ s := by
  have hemitted : Orderly none { s with trace := s.trace ++ [.removeConnection i] } :=
    h.inv.orderly.record _ _
  unfold removeConnection emit
  simp only [wp_bind, wp_modify, wp_read, wp_assert, wp_ite]
  split
  · split
    · refine wp_mono (tells_removeConnectionInLoop (h.of_same hemitted rfl rfl rfl rfl) hi) ?_
      rintro s₀ s' _ ⟨h', hl⟩
      exact ⟨h', hl.loop, hl.made, hl.conns⟩
    · have hpushed := hemitted.push (t := s.loop) (f := .removeConnectionInLoop i) ⟨hi, rfl⟩ fun g _ =>
        before_of_ne (by nofun) g
      exact ⟨h.of_same hpushed rfl rfl rfl rfl, .of_same rfl rfl rfl⟩
  · exact h.inv.life

theorem hosts (me : τ) (i : Nat) (start : TcpServer τ) :
    Hosts (connPart i (handler me i)) lifeContract (Owed start) Lasting
      (fun s₀ s => OkAt (some i) start s₀ s ∧ s.Created i)
      (fun s₀ s => OkAt none start s₀ s ∧ s.Created i ∧ (s.conns i).state ≠ .kConnecting) where
  lawful := connPart_lawful i _
  fault := by
    rintro s₀ s c e ⟨h, hi⟩ hc j hj
    show Life ((setConn i c s).conns j)
    rcases eq_or_ne j i with rfl | hne
    · rw [setConn_self]
      exact hc
    · rw [setConn_other hne]
      exact h.inv.life j hj
  put := by
    rintro s₀ s c ⟨h, hi⟩ hc hlater
    refine ⟨h.setConn hi (fun j hj => Option.some.inj hj) hc hlater, hi, ?_⟩
    show ((setConn i c s).conns i).state ≠ _
    rw [setConn_self]
    exact hc.established
  weaken := by
    rintro s₀ s ⟨h, hi, -⟩
    exact ⟨h.move ⟨h.inv.orderly.weaken _, h.inv.callback, h.inv.life⟩ (.refl s), hi⟩
  lives := by
    rintro s₀ s ⟨h, hi, hs⟩
    exact ⟨h.inv.life i hi, hs⟩
  handler := by
    rintro u s₀ s ⟨h, hi, hs⟩
    have hback : ∀ s₀ s', OkAt none start s₀ s' ∧ Lasting s s' →
        (OkAt none start s₀ s' ∧ s'.Created i ∧ (s'.conns i).state ≠ .kConnecting) ∧
          Later (s.conns i) (s'.conns i) := by
      rintro s₀ s' ⟨h', hl⟩
      have hlater := hl.conns i hi
      exact ⟨⟨h', hl.created hi, hlater.established hs⟩, hlater⟩
    cases u with
    | close => exact wp_mono (tells_removeConnection h hi me) fun s₀ s' _ => hback s₀ s'
    | connection | message | writeComplete =>
      exact wp_mono (tells_user h _) fun s₀ s' _ => hback s₀ s'

/-! ## The programs of the server -/

theorem tells_onConn {start s₀ s : TcpServer τ} (h : OkAt none start s₀ s) {i : Nat} (me : τ)
    (hs : (s.conns i).state ≠ .kConnecting) {α : Type} {p : ConnM α} (hp : Tells p) :
    wp lifeContract (Owed start) Lasting (onConn me i p) (fun s₀ s' _ => OkAt none start s₀ s') s₀ s :=
  wp_mono ((hosts me i start).tells hp s₀ s ⟨h, h.inv.orderly.created hs, hs⟩) fun _ _ _ h => h.1

theorem tells_connectDestroyed {start s₀ s : TcpServer τ} (h : OkAt none start s₀ s) {i : Nat} (me : τ)
    (hs : (s.conns i).state ≠ .kConnecting) :
    wp lifeContract (Owed start) Lasting (connectDestroyed me i)
      (fun s₀ s' _ => OkAt none start s₀ s') s₀ s := by
  have hemitted : OkAt none start s₀ { s with trace := s.trace ++ [.connectDestroyed i me] } :=
    h.of_same (h.inv.orderly.record _ _) rfl rfl rfl rfl
  unfold connectDestroyed emit
  rw [wp_bind, wp_modify]
  exact tells_onConn hemitted me hs TcpConnection.tells_connectDestroyed

theorem tells_connectEstablished {start s₀ s : TcpServer τ} {i : Nat} (h : OkAt (some i) start s₀ s) (me : τ)
    (hi : s.Created i) :
    wp lifeContract (Owed start) Lasting (connectEstablished me i)
      (fun s₀ s' _ => OkAt none start s₀ s') s₀ s := by
  have hemitted : OkAt (some i) start s₀ { s with trace := s.trace ++ [.connectEstablished i me] } :=
    h.of_same (h.inv.orderly.record _ _) rfl rfl rfl rfl
  unfold connectEstablished emit
  rw [wp_bind, wp_modify]
  refine wp_mono ((hosts me i start).run ⟨hemitted, hi⟩ ?_) fun _ _ _ h => h.1
  exact TcpConnection.tells_connectEstablished (h.inv.life i hi)

theorem tells_newConnection {start s₀ s : TcpServer τ} (h : OkAt none start s₀ s) (sockfd : Nat) :
    wp lifeContract (Owed start) Lasting (newConnection s.loop sockfd)
      (fun s₀ s' _ => OkAt none start s₀ s') s₀ s := by
  have hlife : ∀ ioLoop next i, (accepted sockfd ioLoop next s).Created i →
      Life ((accepted sockfd ioLoop next s).conns i) := by
    intro ioLoop next i hi
    rcases (created_accepted h.inv.orderly.made).mp hi with hi | rfl
    · rw [accepted_conns hi.ne_next]
      exact h.inv.life i hi
    · show Life (Function.update s.conns _ _ _)
      rw [Function.update_self, h.inv.callback]
      exact TcpConnection.new_life ..
  have hlasting : ∀ ioLoop next, Lasting s (accepted sockfd ioLoop next s) := by
    intro ioLoop next
    refine ⟨rfl, Nat.le_succ _, fun i hi => ?_⟩
    rw [accepted_conns hi.ne_next]
    exact .refl _
  unfold newConnection queueInLoop
  simp only [wp_bind, wp_read, wp_modify, wp_ite]
  split
  · refine tells_connectEstablished (h.move ?_ (hlasting s.getNextLoop.1 s.getNextLoop.2)) _ ?_
    · exact ⟨h.inv.orderly.accept .., h.inv.callback, hlife _ _⟩
    · exact (created_accepted h.inv.orderly.made).mpr (.inr rfl)
  · rename_i hne
    refine h.move ⟨h.inv.orderly.acceptElsewhere sockfd s.getNextLoop.2 hne, h.inv.callback, ?_⟩ ?_
    · exact hlife s.getNextLoop.1 s.getNextLoop.2
    · have hl := hlasting s.getNextLoop.1 s.getNextLoop.2
      exact ⟨hl.loop, hl.made, hl.conns⟩

theorem tells_destroyConnections {start : TcpServer τ} {entries : List Nat}
    (hentries : ∀ i ∈ entries, start.Created i) :
    Stable lifeContract (Owed start) Lasting (OkAt none start) (destroyConnections start.loop entries) := by
  induction entries with
  | nil => exact Stable.pure ()
  | cons i rest ih =>
    intro s₀ s h
    have hi := h.since.created (hentries i List.mem_cons_self)
    have hrest := ih fun j hj => hentries j (List.mem_cons_of_mem i hj)
    have herased := h.inv.orderly.erase i
    have herasedOk := h.of_same herased rfl rfl rfl rfl
    unfold destroyConnections queueInLoop
    simp only [wp_bind, wp_modify, wp_read, wp_when, wp_ite]
    split
    · split
      · rename_i hme
        have hs := herased.atOnce hi (hme.trans h.since.loop.symm)
        exact wp_mono (tells_connectDestroyed herasedOk _ hs) fun s₀ s _ h => hrest s₀ s h
      · have hpushed := herased.push (t := s.loopOf i) (f := .connectDestroyed i) ⟨hi, rfl⟩ fun g _ =>
          before_of_ne (by nofun) g
        exact hrest s₀ _ (h.of_same hpushed rfl rfl rfl rfl)
    · exact hrest s₀ s h

theorem tells_destroy {s₀ s : TcpServer τ} (h : OkAt none s s₀ s) {entries : List Nat}
    (hentries : ∀ i ∈ entries, s.Created i) :
    wp lifeContract (Owed s) Lasting (destroy s.loop entries)
      (fun s₀ s' _ => OkAt none s s₀ s') s₀ s := by
  have hstart : Orderly none { s with phase := .destructing, trace := s.trace ++ [.destructing] } :=
    h.inv.orderly.record _ _
  unfold destroy emit
  simp only [wp_bind, wp_modify]
  refine wp_mono (tells_destroyConnections hentries s₀ _ (h.of_same hstart rfl rfl rfl rfl)) ?_
  exact fun s₀ s' _ h' => h'.of_same (h'.inv.orderly.record _ _) rfl rfl rfl rfl

theorem tells_runFunctor {start s₀ s : TcpServer τ} (h : OkAt none start s₀ s) {t : τ} {f : ServerFunctor}
    {rest : List ServerFunctor} (hq : s.queue t = f :: rest) :
    wp lifeContract (Owed start) Lasting (runFunctor t f)
      (fun s₀ s' _ => OkAt none start s₀ s') s₀ (popped t rest s) := by
  have hpopped := h.of_same (h.inv.orderly.pop hq) rfl rfl rfl rfl
  have hin : InPlace s t f := by
    refine h.inv.orderly.placed t f ?_
    rw [hq]
    exact List.mem_cons_self
  cases f with
  | connectEstablished i => exact tells_connectEstablished hpopped t hin.1
  | connectDestroyed i => exact tells_connectDestroyed hpopped t (h.inv.orderly.destroyable hq)
  | removeConnectionInLoop i =>
    exact wp_mono (tells_removeConnectionInLoop hpopped hin.1) fun _ _ _ h => h.1

theorem tells_entry {label : ServerLabel τ} {s : TcpServer τ} {p : ServerM τ Unit}
    (hp : entry label s = some p) (h : OkAt none s s s) :
    wp lifeContract (Owed s) Lasting p (fun s₀ s' _ => OkAt none s s₀ s') s s := by
  cases label with
  | newConnection me sockfd =>
    obtain ⟨⟨rfl, -⟩, hp⟩ := Option.ite_none_right_eq_some.mp hp
    obtain rfl := Option.some.inj hp
    exact tells_newConnection h sockfd
  | functor me =>
    cases hq : s.queue me with
    | nil =>
      simp only [entry, hq] at hp
      cases hp
    | cons f rest =>
      simp only [entry, hq] at hp
      obtain rfl := Option.some.inj hp
      rw [wp_bind, wp_modify]
      exact tells_runFunctor h hq
  | conn me i label =>
    obtain ⟨hl, -, hs, rfl⟩ := entry_conn hp
    exact tells_onConn h me hs (TcpConnection.tells_entry hl)
  | destroy me entries =>
    obtain ⟨⟨rfl, -, hperm⟩, hp⟩ := Option.ite_none_right_eq_some.mp hp
    obtain rfl := Option.some.inj hp
    exact tells_destroy h fun i hi => h.inv.orderly.connections i (hperm.subset hi)

/-! ## Runs -/

/-- A server with a `connectionCallback_`. -/
def notifyingMachine (τ : Type) [DecidableEq τ] :
    Machine τ (TcpServer τ) ServerCall SysResult (Nat × Callback) Fault (ServerLabel τ) :=
  { machine τ with init := fun s => ∃ loop loops b c, s = new loop loops true b c }

theorem notifyingMachine_keeps :
    (notifyingMachine τ).Keeps lifeContract (fun _ => Lasting) Machine.anyStep where
  refl _ := Lasting.refl
  trans _ _ _ _ := Lasting.trans
  init := by
    rintro s ⟨loop, loops, b, c, rfl⟩
    exact ⟨new_orderly .., rfl, fun i hi => absurd hi.2 (Nat.not_lt.mpr hi.1)⟩
  allow _ _ _ _ _ := trivial
  entry label s p hp _ h := by
    have howes : ∀ s₀ s', Owed s s₀ s' → Machine.Owes (fun _ => Lasting)
        ((notifyingMachine τ).thread label) ((notifyingMachine τ).idleOnly label) s s₀ s' :=
      fun _ _ ho => ⟨fun _ _ => ho.1, fun _ => ho.2⟩
    refine wp_guar_mono howes (wp_mono (tells_entry hp ⟨h, .refl s, .refl s⟩) ?_)
    exact fun s₀ s' _ h' => ⟨h'.inv, howes s₀ s' ⟨h'.segment, h'.since⟩⟩

theorem life_of_reachable {c : Config τ (TcpServer τ) ServerCall SysResult (Nat × Callback) Fault}
    (h : (notifyingMachine τ).Reachable c) {i : Nat} (hi : c.st.Created i) : Life (c.st.conns i) := by
  have hok := notifyingMachine_keeps.runOk h
  cases hc : c.crashed with
  | none => exact (hok.inv hc).life i hi
  | some e => exact hok.crash e hc i hi

end Agora.TcpServer
