import Agora.Server.Rules

/-! # No connection of a server gets lost

A connection is in `connections_`, or its `connectDestroyed` waits on its loop, or has run there. One that
is still in the map has not asked to be removed, or its removal waits.
-/

open Agora.Lib Agora.Lib.Prog

namespace Agora.TcpServer

variable {τ : Type}

/-- Where the connection `i` is to be found. -/
def Found (s : TcpServer τ) (i : Nat) : Prop :=
  i ∈ s.connections ∨ .connectDestroyed i ∈ s.queue (s.loopOf i) ∨
    .connectDestroyed i (s.loopOf i) ∈ s.trace

/-- The removal of `i` waits, or `i` is not in the map. -/
def Leaving (s : TcpServer τ) (i : Nat) : Prop :=
  .removeConnectionInLoop i ∈ s.queue s.loop ∨ i ∉ s.connections

/-- But for `dropped`, which is about to be destroyed, and for `asked`, which is about to be removed. -/
structure Held (dropped asked : Option Nat) (s : TcpServer τ) : Prop where
  made : 0 < s.nextConnId
  placed : ∀ t, ∀ f ∈ s.queue t, InPlace s t f
  vacant : ∀ i, ¬ s.Created i → (s.conns i).state = .kConnecting
  nodup : s.connections.Nodup
  created : ∀ i ∈ s.connections, s.Created i
  found : ∀ i, s.Created i → some i ≠ dropped → s.Found i
  known : ∀ i, .removeConnection i ∈ s.trace → s.Created i
  queued : ∀ i, .removeConnectionInLoop i ∈ s.queue s.loop → .removeConnection i ∈ s.trace
  leaving : s.phase = .running → ∀ i, .removeConnection i ∈ s.trace → some i ≠ asked → s.Leaving i
  kept : s.phase = .running → ∀ i, s.Created i → .removeConnection i ∉ s.trace → i ∈ s.connections
  ended : s.phase = .destroyed → s.connections = []

theorem new_held (loop : τ) (loops : List τ) (a b c : Bool) : Held none none (new loop loops a b c) :=
  ⟨Nat.one_pos, fun _ => nofun, fun _ _ => rfl, List.nodup_nil, nofun,
    fun _ hi => absurd hi.2 (Nat.not_lt.mpr hi.1), nofun, nofun, fun _ => nofun,
    fun _ _ hi => absurd hi.2 (Nat.not_lt.mpr hi.1), fun _ => rfl⟩

/-! ## Changes -/

section
variable {dropped asked : Option Nat} {s : TcpServer τ}

theorem Held.setConn (h : Held dropped asked s) {i : Nat} (hi : s.Created i) (c : TcpConnection) :
    Held dropped asked (setConn i c s) := by
  refine ⟨h.made, h.placed, fun j hj => ?_, h.nodup, h.created, h.found, h.known, h.queued, h.leaving,
    h.kept, h.ended⟩
  have hne : j ≠ i := by
    rintro rfl
    exact hj hi
  rw [setConn_other hne]
  exact h.vacant j hj

theorem Found.record {i : Nat} (h : s.Found i) (e : ServerEvent τ) :
    Found { s with trace := s.trace ++ [e] } i := by
  rcases h with hin | hwaits | hran
  · exact .inl hin
  · exact .inr (.inl hwaits)
  · exact .inr (.inr (List.mem_append_left _ hran))

theorem Held.record (h : Held dropped asked s) {e : ServerEvent τ} (he : ∀ i, e ≠ .removeConnection i) :
    Held dropped asked { s with trace := s.trace ++ [e] } := by
  have hold : ∀ i, .removeConnection i ∈ s.trace ++ [e] → .removeConnection i ∈ s.trace := by
    intro i hi
    rcases List.mem_append.mp hi with hi | hi
    · exact hi
    · exact absurd (List.mem_singleton.mp hi).symm (he i)
  refine ⟨h.made, h.placed, h.vacant, h.nodup, h.created, fun i hi hne => (h.found i hi hne).record e,
    fun i hi => h.known i (hold i hi), fun i hi => List.mem_append_left _ (h.queued i hi),
    fun hp i hi => h.leaving hp i (hold i hi), fun hp i hi hn => h.kept hp i hi fun hin => ?_, h.ended⟩
  exact hn (List.mem_append_left _ hin)

theorem Held.ask (h : Held dropped none s) {i : Nat} (hi : s.Created i) :
    Held dropped (some i) { s with trace := s.trace ++ [.removeConnection i] } := by
  have hold : ∀ j, some j ≠ some i → .removeConnection j ∈ s.trace ++ [.removeConnection i] →
      .removeConnection j ∈ s.trace := by
    intro j hne hj
    rcases List.mem_append.mp hj with hj | hj
    · exact hj
    · obtain rfl := ServerEvent.removeConnection.inj (List.mem_singleton.mp hj)
      exact absurd rfl hne
  refine ⟨h.made, h.placed, h.vacant, h.nodup, h.created, fun j hj hne => (h.found j hj hne).record _,
    fun j hj => ?_, fun j hj => List.mem_append_left _ (h.queued j hj),
    fun hp j hj hne => h.leaving hp j (hold j hne hj) nofun,
    fun hp j hj hn => h.kept hp j hj fun hin => ?_, h.ended⟩
  · rcases eq_or_ne j i with rfl | hne
    · exact hi
    · exact h.known j (hold j (fun heq => hne (Option.some.inj heq)) hj)
  · exact hn (List.mem_append_left _ hin)

theorem Held.erase (h : Held none asked s) {i : Nat} (hasked : ∀ j, some j = asked → j = i)
    (hi : s.phase = .running → .removeConnection i ∈ s.trace) :
    Held (some i) none { s with connections := s.connections.erase i } := by
  refine ⟨h.made, h.placed, h.vacant, h.nodup.erase i, fun j hj => h.created j (List.mem_of_mem_erase hj),
    fun j hj hne => ?_, h.known, h.queued, fun hp j hj _ => ?_, fun hp j hj hn => ?_, fun hp => ?_⟩
  · have hne : j ≠ i := fun heq => hne (congrArg some heq)
    rcases h.found j hj nofun with hin | hrest
    · exact .inl ((List.mem_erase_of_ne hne).mpr hin)
    · exact .inr hrest
  · rcases eq_or_ne j i with rfl | hne
    · exact .inr h.nodup.not_mem_erase
    · have hleaving := h.leaving hp j hj fun heq => hne (hasked j heq)
      exact hleaving.imp_right fun hout hin => hout (List.mem_of_mem_erase hin)
  · have hne : j ≠ i := by
      rintro rfl
      exact hn (hi hp)
    exact (List.mem_erase_of_ne hne).mpr (h.kept hp j hj hn)
  · show s.connections.erase i = []
    rw [h.ended hp]
    rfl

theorem Held.settled {i : Nat} (h : Held (some i) asked s) (hi : s.Found i) : Held none asked s := by
  refine ⟨h.made, h.placed, h.vacant, h.nodup, h.created, fun j hj _ => ?_, h.known, h.queued, h.leaving,
    h.kept, h.ended⟩
  rcases eq_or_ne j i with rfl | hne
  · exact hi
  · exact h.found j hj fun heq => hne (Option.some.inj heq)

theorem Held.answered {i : Nat} (h : Held dropped (some i) s) (hi : s.Leaving i) : Held dropped none s := by
  refine ⟨h.made, h.placed, h.vacant, h.nodup, h.created, h.found, h.known, h.queued,
    fun hp j hj _ => ?_, h.kept, h.ended⟩
  rcases eq_or_ne j i with rfl | hne
  · exact hi
  · exact h.leaving hp j hj fun heq => hne (Option.some.inj heq)

theorem Held.accept (h : Held none none s) (sockfd next : Nat) (ioLoop : τ) (hrunning : s.phase = .running) :
    Held none none (accepted sockfd ioLoop next s) := by
  have hfresh : ¬ s.Created s.nextConnId := fun hi => hi.ne_next rfl
  have hheld : s.nextConnId ∈ s.connections ++ [s.nextConnId] :=
    List.mem_append_right _ (List.mem_singleton_self _)
  refine ⟨Nat.succ_pos _, fun t f hf => (h.placed t f hf).accepted, fun i hi => ?_, ?_, fun i hi => ?_,
    fun i hi _ => ?_, fun i hi => (h.known i hi).accepted, h.queued, fun hp i hi _ => ?_,
    fun hp i hi hn => ?_, fun hp => ?_⟩
  · rw [created_accepted h.made, not_or] at hi
    rw [accepted_conns hi.2]
    exact h.vacant i hi.1
  · refine List.nodup_append.mpr ⟨h.nodup, List.pairwise_singleton _ _, fun i hi j hj heq => hfresh ?_⟩
    rw [← List.mem_singleton.mp hj, ← heq]
    exact h.created i hi
  · rcases List.mem_append.mp hi with hi | hi
    · exact (h.created i hi).accepted
    · exact (created_accepted h.made).mpr (.inr (List.mem_singleton.mp hi))
  · rcases (created_accepted h.made).mp hi with hi | rfl
    · unfold Found
      rw [accepted_loopOf hi.ne_next]
      rcases h.found i hi nofun with hin | hrest
      · exact .inl (List.mem_append_left _ hin)
      · exact .inr hrest
    · exact .inl hheld
  · have hne := (h.known i hi).ne_next
    refine (h.leaving hp i hi nofun).imp_right fun hout hin => ?_
    rcases List.mem_append.mp hin with hin | hin
    · exact hout hin
    · exact hne (List.mem_singleton.mp hin)
  · rcases (created_accepted h.made).mp hi with hi | rfl
    · exact List.mem_append_left _ (h.kept hp i hi hn)
    · exact hheld
  · exact absurd (hrunning.symm.trans hp) nofun

variable [DecidableEq τ]

theorem Held.push (h : Held dropped asked s) {t : τ} {f : ServerFunctor} (hplace : InPlace s t f)
    (hf : ∀ i, f = .removeConnectionInLoop i → .removeConnection i ∈ s.trace) :
    Held dropped asked (pushed t f s) := by
  refine ⟨h.made, fun u g hg => ?_, h.vacant, h.nodup, h.created, fun i hi hne => ?_, h.known, fun i hi => ?_,
    fun hp i hi hne => ?_, h.kept, h.ended⟩
  · rcases mem_pushed.mp hg with hg | ⟨rfl, rfl⟩
    · exact h.placed u g hg
    · exact hplace
  · exact (h.found i hi hne).imp_right fun hrest => hrest.imp_left fun hwaits => mem_pushed.mpr (.inl hwaits)
  · rcases mem_pushed.mp hi with hi | ⟨-, heq⟩
    · exact h.queued i hi
    · exact hf i heq.symm
  · exact (h.leaving hp i hi hne).imp_left fun hwaits => mem_pushed.mpr (.inl hwaits)

theorem found_pushed (s : TcpServer τ) (i : Nat) : (pushed (s.loopOf i) (.connectDestroyed i) s).Found i :=
  .inr (.inl (mem_pushed.mpr (.inr ⟨rfl, rfl⟩)))

end

/-! ## Programs -/

/-- The destructor takes the map apart, and nothing is added to it any more. -/
structure Onward (s s' : TcpServer τ) : Prop where
  loop : s'.loop = s.loop
  made : s.nextConnId ≤ s'.nextConnId
  down : s.phase ≠ .running → s'.phase ≠ .running ∧ s'.connections ⊆ s.connections

theorem Onward.refl (s : TcpServer τ) : Onward s s :=
  ⟨rfl, Nat.le_refl _, fun hp => ⟨hp, List.Subset.refl _⟩⟩

theorem Onward.trans {s s' s'' : TcpServer τ} (h : Onward s s') (h' : Onward s' s'') : Onward s s'' := by
  refine ⟨h'.loop.trans h.loop, Nat.le_trans h.made h'.made, fun hp => ?_⟩
  obtain ⟨hp', hsub⟩ := h.down hp
  obtain ⟨hp'', hsub'⟩ := h'.down hp'
  exact ⟨hp'', List.Subset.trans hsub' hsub⟩

theorem Onward.of_same {s s' : TcpServer τ} (hloop : s'.loop = s.loop) (hmade : s'.nextConnId = s.nextConnId)
    (hphase : s'.phase = s.phase) (hconnections : s'.connections ⊆ s.connections) : Onward s s' :=
  ⟨hloop, Nat.le_of_eq hmade.symm, fun hp => ⟨hphase ▸ hp, hconnections⟩⟩

theorem Onward.created {s s' : TcpServer τ} (h : Onward s s') {i : Nat} (hi : s.Created i) : s'.Created i :=
  ⟨hi.1, Nat.lt_of_lt_of_le hi.2 h.made⟩

def heldContract : Contract (TcpServer τ) ServerCall SysResult (Nat × Callback) Fault where
  inv := Held none none
  pre u s := s.Created u.1
  tolerates _ _ := True
  allow _ _ _ := True

/-- The state in a segment from `s₀` of a program that was started in `start`. -/
structure HeldAt (dropped asked : Option Nat) (start s₀ s : TcpServer τ) : Prop where
  inv : Held dropped asked s
  segment : Onward s₀ s
  since : Onward start s

abbrev GoesOn (start s₀ s : TcpServer τ) : Prop := Onward s₀ s ∧ Onward start s

section
variable {dropped asked : Option Nat} {start s₀ s : TcpServer τ}

theorem HeldAt.move {dropped' asked' : Option Nat} {s' : TcpServer τ} (h : HeldAt dropped asked start s₀ s)
    (hi : Held dropped' asked' s') (hl : Onward s s') : HeldAt dropped' asked' start s₀ s' :=
  ⟨hi, h.segment.trans hl, h.since.trans hl⟩

variable [DecidableEq τ]

theorem held_removeConnectionInLoop (h : HeldAt none asked start s₀ s) {i : Nat}
    (hi : .removeConnection i ∈ s.trace) (hasked : ∀ j, some j = asked → j = i) :
    wp heldContract (GoesOn start) Onward (removeConnectionInLoop i)
      (fun s₀ s' _ => HeldAt none none start s₀ s' ∧ Onward s s') s₀ s := by
  have hcreated := h.inv.known i hi
  have hrecorded := h.inv.record (e := .removeConnectionInLoop i) nofun
  have herased := hrecorded.erase (i := i) hasked fun _ => List.mem_append_left _ hi
  have hpushed := herased.push (t := s.loopOf i) (f := .connectDestroyed i) ⟨hcreated, rfl⟩ nofun
  have hsettled := hpushed.settled (found_pushed _ i)
  unfold removeConnectionInLoop emit queueInLoop
  simp only [wp_bind, wp_modify, wp_read, wp_assert]
  split
  · have hl : Onward s (pushed (s.loopOf i) (.connectDestroyed i) { s with
        connections := s.connections.erase i, trace := s.trace ++ [.removeConnectionInLoop i] }) :=
      .of_same rfl rfl rfl List.erase_subset
    exact ⟨h.move hsettled hl, hl⟩
  · trivial

theorem held_removeConnection (h : HeldAt none none start s₀ s) {i : Nat} (hi : s.Created i) (me : τ) :
    wp heldContract (GoesOn start) Onward (removeConnection me i)
      (fun s₀ s' _ => HeldAt none none start s₀ s' ∧ Onward s s') s₀ s := by
  have hasked := h.inv.ask hi
  have hin : .removeConnection i ∈ s.trace ++ [.removeConnection i] :=
    List.mem_append_right _ (List.mem_singleton_self _)
  have hl : Onward s { s with trace := s.trace ++ [.removeConnection i] } :=
    .of_same rfl rfl rfl (List.Subset.refl _)
  unfold removeConnection emit
  simp only [wp_bind, wp_modify, wp_read, wp_assert, wp_ite]
  split
  · split
    · refine wp_mono (held_removeConnectionInLoop (h.move hasked hl) hin fun j => Option.some.inj) ?_
      exact fun s₀ s' _ h' => ⟨h'.1, hl.trans h'.2⟩
    · have hpushed := hasked.push (t := s.loop) (f := .removeConnectionInLoop i) ⟨hi, rfl⟩ fun j heq => by
        obtain rfl := ServerFunctor.removeConnectionInLoop.inj heq
        exact hin
      have hanswered := hpushed.answered (.inl (mem_pushed.mpr (.inr ⟨rfl, rfl⟩)))
      exact ⟨h.move hanswered ⟨hl.loop, hl.made, hl.down⟩, hl.loop, hl.made, hl.down⟩
  · trivial

theorem held_handler {here : TcpServer τ} {i : Nat} (hi : here.Created i) (me : τ) (u : Callback) :
    Stable heldContract (GoesOn start) Onward (fun s₀ s => HeldAt none none start s₀ s ∧ Onward here s)
      (handler me i u) := by
  have huser : Stable heldContract (GoesOn start) Onward
      (fun s₀ s => HeldAt none none start s₀ s ∧ Onward here s) (callback (i, u)) := by
    rintro s₀ s ⟨h, hhere⟩
    rw [wp_callback]
    refine ⟨⟨h.inv, ⟨h.segment, h.since⟩, hhere.created hi⟩, fun s' hinv hl => ?_⟩
    exact ⟨⟨hinv, .refl s', h.since.trans hl⟩, hhere.trans hl⟩
  cases u with
  | close =>
    rintro s₀ s ⟨h, hhere⟩
    refine wp_mono (held_removeConnection h (hhere.created hi) me) ?_
    exact fun s₀ s' _ h' => ⟨h'.1, hhere.trans h'.2⟩
  | connection | message | writeComplete => exact huser

theorem held_onConn (h : HeldAt none none start s₀ s) {i : Nat} (hi : s.Created i) (me : τ) {α : Type}
    (p : ConnM α) :
    wp heldContract (GoesOn start) Onward (onConn me i p)
      (fun s₀ s' _ => HeldAt none none start s₀ s' ∧ Onward s s') s₀ s := by
  refine (connPart i (handler me i)).stable_run
    (J := fun s₀ s' => HeldAt none none start s₀ s' ∧ Onward s s') (Embedding.calls_any p)
    (connPart_lawful i _) ?_ (fun _ _ _ _ => trivial) (fun u _ => held_handler hi me u) s₀ s ⟨h, .refl s⟩
  rintro s₀ s' c ⟨h, hl⟩
  have hput : Onward s' (setConn i c s') := .of_same rfl rfl rfl (List.Subset.refl _)
  exact ⟨h.move (h.inv.setConn (hl.created hi) c) hput, hl.trans hput⟩

theorem held_connectEstablished (h : HeldAt none none start s₀ s) {i : Nat} (hi : s.Created i) (me : τ) :
    wp heldContract (GoesOn start) Onward (connectEstablished me i)
      (fun s₀ s' _ => HeldAt none none start s₀ s') s₀ s := by
  have hrecorded := h.inv.record (e := .connectEstablished i me) nofun
  unfold connectEstablished emit
  rw [wp_bind, wp_modify]
  refine wp_mono (held_onConn (h.move hrecorded (.of_same rfl rfl rfl (List.Subset.refl _))) hi me _) ?_
  exact fun _ _ _ h' => h'.1

theorem held_connectDestroyed {i : Nat} (h : HeldAt (some i) none start s₀ s) (hi : s.Created i) {me : τ}
    (hme : s.loopOf i = me) :
    wp heldContract (GoesOn start) Onward (connectDestroyed me i)
      (fun s₀ s' _ => HeldAt none none start s₀ s' ∧ Onward s s') s₀ s := by
  subst hme
  have hrecorded := h.inv.record (e := .connectDestroyed i (s.loopOf i)) nofun
  have hsettled := hrecorded.settled (.inr (.inr (List.mem_append_right _ (List.mem_singleton_self _))))
  have hl : Onward s { s with trace := s.trace ++ [.connectDestroyed i (s.loopOf i)] } :=
    .of_same rfl rfl rfl (List.Subset.refl _)
  unfold connectDestroyed emit
  rw [wp_bind, wp_modify]
  exact wp_mono (held_onConn (h.move hsettled hl) hi _ _) fun _ _ _ h' => ⟨h'.1, hl.trans h'.2⟩

theorem held_newConnection (h : HeldAt none none start s₀ s) (hrunning : s.phase = .running) (me : τ)
    (sockfd : Nat) :
    wp heldContract (GoesOn start) Onward (newConnection me sockfd)
      (fun s₀ s' _ => HeldAt none none start s₀ s') s₀ s := by
  have haccepted := h.inv.accept sockfd s.getNextLoop.2 s.getNextLoop.1 hrunning
  have hl : Onward s (accepted sockfd s.getNextLoop.1 s.getNextLoop.2 s) :=
    ⟨rfl, Nat.le_succ _, fun hp => absurd hrunning hp⟩
  have hcreated : (accepted sockfd s.getNextLoop.1 s.getNextLoop.2 s).Created s.nextConnId :=
    (created_accepted h.inv.made).mpr (.inr rfl)
  unfold newConnection queueInLoop
  simp only [wp_bind, wp_read, wp_modify, wp_ite]
  split
  · exact held_connectEstablished (h.move haccepted hl) hcreated _
  · have hloop : (accepted sockfd s.getNextLoop.1 s.getNextLoop.2 s).loopOf s.nextConnId = s.getNextLoop.1 :=
      Function.update_self ..
    have hpushed := haccepted.push (t := s.getNextLoop.1) (f := .connectEstablished s.nextConnId)
      ⟨hcreated, hloop⟩ nofun
    exact h.move hpushed ⟨hl.loop, hl.made, hl.down⟩

/-! ### The destructor -/

theorem held_destroyConnections {entries : List Nat} (hentries : ∀ i ∈ entries, start.Created i)
    (h : HeldAt none none start s₀ s) (hp : s.phase ≠ .running) (hleft : s.connections ⊆ entries) :
    wp heldContract (GoesOn start) Onward (destroyConnections start.loop entries)
      (fun s₀ s' _ => HeldAt none none start s₀ s' ∧ s'.connections = []) s₀ s := by
  induction entries generalizing s₀ s with
  | nil => exact ⟨h, List.subset_nil.mp hleft⟩
  | cons i rest ih =>
    have hi := h.since.created (hentries i List.mem_cons_self)
    have herased := h.inv.erase (i := i) nofun fun hrunning => absurd hrunning hp
    have hl : Onward s { s with connections := s.connections.erase i } := .of_same rfl rfl rfl List.erase_subset
    have hrest : s.connections.erase i ⊆ rest := by
      intro j hj
      obtain ⟨hne, hj⟩ := h.inv.nodup.mem_erase_iff.mp hj
      exact (List.mem_cons.mp (hleft hj)).resolve_left hne
    have hih := fun s₀ s => @ih s₀ s fun j hj => hentries j (List.mem_cons_of_mem i hj)
    unfold destroyConnections queueInLoop
    simp only [wp_bind, wp_modify, wp_read, wp_when, wp_ite]
    split
    · split
      · rename_i hme
        refine wp_mono (held_connectDestroyed (h.move herased hl) hi hme) ?_
        rintro s₀ s' _ ⟨h', hl'⟩
        obtain ⟨hp', hsub⟩ := hl'.down hp
        exact hih s₀ s' h' hp' (List.Subset.trans hsub hrest)
      · have hpushed := herased.push (t := s.loopOf i) (f := .connectDestroyed i) ⟨hi, rfl⟩ nofun
        have hsettled := hpushed.settled (found_pushed _ i)
        exact hih s₀ _ (h.move hsettled ⟨hl.loop, hl.made, hl.down⟩) hp hrest
    · rename_i hout
      -- A callback has removed it.
      have hout : i ∉ s.connections := of_decide_eq_false (eq_false_of_ne_true hout)
      refine hih s₀ s h hp fun j hj => (List.mem_cons.mp (hleft hj)).resolve_left ?_
      rintro rfl
      exact hout hj

theorem held_destroy (h : HeldAt none none s s₀ s) {entries : List Nat}
    (hentries : entries.Perm s.connections) :
    wp heldContract (GoesOn s) Onward (destroy s.loop entries)
      (fun s₀ s' _ => HeldAt none none s s₀ s') s₀ s := by
  have hrecorded := h.inv.record (e := .destructing) nofun
  have hstart : Held none none { s with trace := s.trace ++ [.destructing], phase := .destructing } :=
    ⟨hrecorded.made, hrecorded.placed, hrecorded.vacant, hrecorded.nodup, hrecorded.created, hrecorded.found,
      hrecorded.known, hrecorded.queued, nofun, nofun, nofun⟩
  have hl : Onward s { s with trace := s.trace ++ [.destructing], phase := .destructing } :=
    ⟨rfl, Nat.le_refl _, fun _ => ⟨nofun, List.Subset.refl _⟩⟩
  unfold destroy emit
  simp only [wp_bind, wp_modify]
  refine wp_mono (held_destroyConnections (fun i hi => h.inv.created i (hentries.subset hi))
    (h.move hstart hl) nofun hentries.symm.subset) ?_
  rintro s₀ s' _ ⟨h', hempty⟩
  refine h'.move ?_ ⟨rfl, Nat.le_refl _, fun _ => ⟨nofun, List.Subset.refl _⟩⟩
  exact ⟨h'.inv.made, h'.inv.placed, h'.inv.vacant, h'.inv.nodup, h'.inv.created, h'.inv.found, h'.inv.known,
    h'.inv.queued, nofun, nofun, fun _ => hempty⟩

/-! ### Runs -/

/-- The connection whose `connectDestroyed` leaves the queue. -/
def ServerFunctor.destroys : ServerFunctor → Option Nat
  | .connectDestroyed i => some i
  | _ => none

/-- The connection whose removal leaves the queue. -/
def ServerFunctor.removes : ServerFunctor → Option Nat
  | .removeConnectionInLoop i => some i
  | _ => none

theorem Held.pop (h : Held none none s) {t : τ} {f : ServerFunctor} {rest : List ServerFunctor}
    (hq : s.queue t = f :: rest) :
    Held (ServerFunctor.destroys f) (ServerFunctor.removes f) (popped t rest s) := by
  have hkept : ∀ u g, g ≠ f → g ∈ s.queue u → g ∈ (popped t rest s).queue u := by
    intro u g hne hg
    rcases eq_or_ne u t with rfl | hu
    · rw [hq] at hg
      rw [popped_self]
      exact (List.mem_cons.mp hg).resolve_left hne
    · rwa [popped_other hu]
  refine ⟨h.made, fun u g hg => h.placed u g (mem_popped hq hg), h.vacant, h.nodup, h.created,
    fun i hi hne => ?_, h.known, fun i hi => h.queued i (mem_popped hq hi), fun hp i hi hne => ?_, h.kept,
    h.ended⟩
  · refine (h.found i hi nofun).imp_right fun hrest => hrest.imp_left (hkept _ _ ?_)
    rintro rfl
    exact hne rfl
  · refine (h.leaving hp i hi nofun).imp_left (hkept _ _ ?_)
    rintro rfl
    exact hne rfl

theorem held_runFunctor (h : HeldAt none none start s₀ s) {t : τ} {f : ServerFunctor}
    {rest : List ServerFunctor} (hq : s.queue t = f :: rest) :
    wp heldContract (GoesOn start) Onward (runFunctor t f)
      (fun s₀ s' _ => HeldAt none none start s₀ s') s₀ (popped t rest s) := by
  have hin : f ∈ s.queue t := by
    rw [hq]
    exact List.mem_cons_self
  have hplace := h.inv.placed t f hin
  have hpopped := h.move (h.inv.pop hq) (.of_same rfl rfl rfl (List.Subset.refl _))
  cases f with
  | connectEstablished i => exact held_connectEstablished hpopped hplace.1 t
  | connectDestroyed i => exact wp_mono (held_connectDestroyed hpopped hplace.1 hplace.2) fun _ _ _ h' => h'.1
  | removeConnectionInLoop i =>
    have hasked : .removeConnection i ∈ s.trace := by
      refine h.inv.queued i ?_
      rw [hplace.2]
      exact hin
    exact wp_mono (held_removeConnectionInLoop hpopped hasked fun j => Option.some.inj) fun _ _ _ h' => h'.1

theorem held_entry {label : ServerLabel τ} {p : ServerM τ Unit} (hp : entry label s = some p)
    (h : HeldAt none none s s s) :
    wp heldContract (GoesOn s) Onward p (fun s₀ s' _ => HeldAt none none s s₀ s') s s := by
  cases label with
  | newConnection me sockfd =>
    obtain ⟨⟨-, hrunning⟩, hp⟩ := Option.ite_none_right_eq_some.mp hp
    obtain rfl := Option.some.inj hp
    exact held_newConnection h hrunning me sockfd
  | functor me =>
    cases hq : s.queue me with
    | nil =>
      simp only [entry, hq] at hp
      cases hp
    | cons f rest =>
      simp only [entry, hq] at hp
      obtain rfl := Option.some.inj hp
      rw [wp_bind, wp_modify]
      exact held_runFunctor h hq
  | conn me i label =>
    obtain ⟨-, -, hs, rfl⟩ := entry_conn hp
    have hi : s.Created i := by
      by_contra hn
      exact hs (h.inv.vacant i hn)
    exact wp_mono (held_onConn h hi me _) fun _ _ _ h' => h'.1
  | destroy me entries =>
    obtain ⟨⟨rfl, -, hperm⟩, hp⟩ := Option.ite_none_right_eq_some.mp hp
    obtain rfl := Option.some.inj hp
    exact held_destroy h hperm

theorem machine_holds : (machine τ).Keeps heldContract (fun _ => Onward) Machine.anyStep where
  refl _ := Onward.refl
  trans _ _ _ _ := Onward.trans
  init := by
    rintro s ⟨loop, loops, a, b, c, rfl⟩
    exact new_held loop loops a b c
  allow _ _ _ _ _ := trivial
  entry label s p hp _ h := by
    have howes : ∀ s₀ s', GoesOn s s₀ s' → Machine.Owes (fun _ => Onward)
        ((machine τ).thread label) ((machine τ).idleOnly label) s s₀ s' :=
      fun _ _ ho => ⟨fun _ _ => ho.1, fun _ => ho.2⟩
    refine wp_guar_mono howes (wp_mono (held_entry hp ⟨h, .refl s, .refl s⟩) ?_)
    exact fun s₀ s' _ h' => ⟨h'.inv, howes s₀ s' ⟨h'.segment, h'.since⟩⟩

omit [DecidableEq τ] in
theorem Held.at_rest (h : Held none none s) (hrest : ∀ t, s.queue t = []) :
    (s.phase = .running → ∀ i, s.Created i → (i ∈ s.connections ↔ .removeConnection i ∉ s.trace)) ∧
      (∀ i, s.Created i → i ∉ s.connections → .connectDestroyed i (s.loopOf i) ∈ s.trace) ∧
      (s.phase = .destroyed → s.connections = []) := by
  refine ⟨fun hp i hi => ⟨fun hin hasked => ?_, h.kept hp i hi⟩, fun i hi hout => ?_, h.ended⟩
  · rcases h.leaving hp i hasked nofun with hwaits | hout
    · rw [hrest] at hwaits
      cases hwaits
    · exact hout hin
  · rcases h.found i hi nofun with hin | hwaits | hran
    · exact absurd hin hout
    · rw [hrest] at hwaits
      cases hwaits
    · exact hran

end

variable [DecidableEq τ]

/-- **Nothing is lost or left behind.** When no functor waits, a running server holds the connections that have
not asked to be removed, and each one that it does not hold has been destroyed on its loop; a destroyed server
holds none. -/
theorem at_rest_none_lost {c : Config τ (TcpServer τ) ServerCall SysResult (Nat × Callback) Fault}
    (h : (machine τ).Reachable c) (hrunning : c.crashed = none) (hrest : ∀ t, c.st.queue t = []) :
    (c.st.phase = .running → ∀ i, c.st.Created i →
        (i ∈ c.st.connections ↔ .removeConnection i ∉ c.st.trace)) ∧
      (∀ i, c.st.Created i → i ∉ c.st.connections → .connectDestroyed i (c.st.loopOf i) ∈ c.st.trace) ∧
      (c.st.phase = .destroyed → c.st.connections = []) :=
  ((machine_holds.runOk h).inv hrunning).at_rest hrest

/-- Two connections on another loop. The peer closes the first, and the server goes on with the second. -/
theorem at_rest_none_lost_two :
    ∃ c, (machine Bool).Reachable c ∧ c.st.phase = .running ∧ c.st.nextConnId = 3 ∧
      (∀ i, c.st.Created i → (i ∈ c.st.connections ↔ .removeConnection i ∉ c.st.trace)) ∧
      ∀ i, c.st.Created i → i ∉ c.st.connections → .connectDestroyed i (c.st.loopOf i) ∈ c.st.trace := by
  have hrun : ((machine Bool).system.run (fun _ _ => True) (.initial (new false [true] true true true))
        [.start (.newConnection false 5) [], .start (.newConnection false 6) [],
          .start (.functor true) [], .resume true [], .start (.functor true) [], .resume true [],
          .start (.conn true 1 (.event kReadEvent)) [.bytes []], .resume true [],
          .start (.functor false) [], .start (.functor true) []]).map
      (fun c => (c.st.phase, c.st.nextConnId, c.crashed, decide (∀ t, c.st.queue t = []))) =
        some (.running, 3, none, true) := by decide +kernel
  obtain ⟨c, hc, heq⟩ := Option.map_eq_some_iff.mp hrun
  obtain ⟨hphase, hmade, hcrashed, hqueues⟩ : _ ∧ _ ∧ _ ∧ _ := by simpa only [Prod.mk.injEq] using heq
  have hreach := (machine Bool).reachable_of_run ⟨false, [true], true, true, true, rfl⟩ hc
  obtain ⟨hheld, hlost, -⟩ := at_rest_none_lost hreach hcrashed (of_decide_eq_true hqueues)
  exact ⟨c, hreach, hphase, hmade, hheld hphase, hlost⟩

end Agora.TcpServer
