import Agora.Server.Rules

/-! # Which connections of a server still wait to be established -/

open Agora.Lib

namespace Agora.TcpServer

variable {τ : Type}

/-- A connection is established by one functor. -/
def NotTwice (f g : ServerFunctor) : Prop := ∀ i, f = .connectEstablished i → g ≠ .connectEstablished i

def Waits (s : TcpServer τ) (i : Nat) : Prop := .connectEstablished i ∈ s.queue (s.loopOf i)

/-- The connections that wait are those that another loop has not established yet. -/
structure Pending (s : TcpServer τ) : Prop where
  made : 0 < s.nextConnId
  placed : ∀ t, ∀ f ∈ s.queue t, InPlace s t f
  ordered : ∀ t, (s.queue t).Pairwise Before
  once : ∀ t, (s.queue t).Pairwise NotTwice
  connections : ∀ i ∈ s.connections, s.Created i
  waits : ∀ i, s.Waits i → (s.conns i).state = .kConnecting ∧ s.loopOf i ≠ s.loop

theorem new_pending (loop : τ) (loops : List τ) (a b c : Bool) : Pending (new loop loops a b c) :=
  ⟨Nat.one_pos, fun _ => nofun, fun _ => List.Pairwise.nil, fun _ => List.Pairwise.nil, nofun, fun _ => nofun⟩

theorem Pending.setConn {s : TcpServer τ} (h : Pending s) {i : Nat} (hi : ¬ s.Waits i) (c : TcpConnection) :
    Pending (setConn i c s) := by
  refine ⟨h.made, h.placed, h.ordered, h.once, h.connections, fun j hj => ?_⟩
  have hne : j ≠ i := by
    rintro rfl
    exact hi hj
  rw [setConn_other hne]
  exact h.waits j hj

theorem Pending.record {s : TcpServer τ} (h : Pending s) (phase : ServerPhase) (trace : List (ServerEvent τ)) :
    Pending { s with phase := phase, trace := trace } :=
  ⟨h.made, h.placed, h.ordered, h.once, h.connections, h.waits⟩

theorem Pending.erase {s : TcpServer τ} (h : Pending s) (i : Nat) :
    Pending { s with connections := s.connections.erase i } :=
  ⟨h.made, h.placed, h.ordered, h.once, fun j hj => h.connections j (List.mem_of_mem_erase hj), h.waits⟩

section
variable [DecidableEq τ]

theorem Pending.push {s : TcpServer τ} (h : Pending s) {t : τ} {f : ServerFunctor} (hf : InPlace s t f)
    (hne : ∀ i, f ≠ .connectEstablished i) :
    Pending (pushed t f s) ∧ ∀ i, (pushed t f s).Waits i ↔ s.Waits i := by
  have hwaits : ∀ i, (pushed t f s).Waits i ↔ s.Waits i := by
    intro i
    refine mem_pushed.trans ⟨fun hin => ?_, .inl⟩
    rcases hin with hin | ⟨-, heq⟩
    · exact hin
    · exact absurd heq.symm (hne i)
  refine ⟨⟨h.made, fun u g hg => ?_, pairwise_pushed h.ordered fun g _ => before_of_ne hne g,
    pairwise_pushed h.once fun _ _ i _ => hne i, h.connections, fun i hi => h.waits i ((hwaits i).mp hi)⟩, hwaits⟩
  rcases mem_pushed.mp hg with hg | ⟨rfl, rfl⟩
  · exact h.placed u g hg
  · exact hf

theorem Pending.pop {s : TcpServer τ} (h : Pending s) {t : τ} {f : ServerFunctor} {rest : List ServerFunctor}
    (hq : s.queue t = f :: rest) :
    Pending (popped t rest s) ∧
      ∀ i, f = .connectEstablished i ∨ f = .connectDestroyed i → ¬ (popped t rest s).Waits i := by
  have hin : f ∈ s.queue t := by
    rw [hq]
    exact List.mem_cons_self
  refine ⟨⟨h.made, fun u g hg => h.placed u g (mem_popped hq hg), pairwise_popped hq h.ordered,
    pairwise_popped hq h.once, h.connections, fun i hi => h.waits i (mem_popped hq hi)⟩, fun i hf hi => ?_⟩
  have hloop : s.loopOf i = t := by
    rcases hf with rfl | rfl
    · exact (h.placed t _ hin).2
    · exact (h.placed t _ hin).2
  have hrest : .connectEstablished i ∈ rest := by
    have hi : .connectEstablished i ∈ (popped t rest s).queue (s.loopOf i) := hi
    rwa [hloop, popped_self] at hi
  have hordered := h.ordered t
  have honce := h.once t
  rw [hq, List.pairwise_cons] at hordered honce
  rcases hf with rfl | rfl
  · exact honce.1 _ hrest i rfl rfl
  · exact hordered.1 _ hrest i rfl rfl

end

theorem accepted_made (sockfd next : Nat) (ioLoop : τ) (s : TcpServer τ) :
    (accepted sockfd ioLoop next s).conns s.nextConnId =
      .new sockfd s.connectionCallback s.messageCallback true s.writeCompleteCallback := Function.update_self ..

theorem Pending.accept {s : TcpServer τ} (h : Pending s) (sockfd next : Nat) (ioLoop : τ) :
    Pending (accepted sockfd ioLoop next s) ∧ ¬ (accepted sockfd ioLoop next s).Waits s.nextConnId := by
  have hnew : ∀ t, .connectEstablished s.nextConnId ∉ s.queue t :=
    fun t hin => (h.placed t _ hin).1.ne_next rfl
  refine ⟨⟨Nat.succ_pos _, fun t f hf => (h.placed t f hf).accepted, h.ordered, h.once, fun i hi => ?_,
    fun i hi => ?_⟩, hnew _⟩
  · rw [created_accepted h.made]
    rcases List.mem_append.mp hi with hi | hi
    · exact .inl (h.connections i hi)
    · exact .inr (List.mem_singleton.mp hi)
  · have hne : i ≠ s.nextConnId := by
      rintro rfl
      exact hnew _ hi
    unfold Waits at hi
    rw [accepted_loopOf hne] at hi ⊢
    rw [accepted_conns hne]
    exact h.waits i hi

theorem Pending.acceptElsewhere [DecidableEq τ] {s : TcpServer τ} (h : Pending s) (sockfd next : Nat) {ioLoop : τ}
    (hne : ioLoop ≠ s.loop) :
    Pending (pushed ioLoop (.connectEstablished s.nextConnId) (accepted sockfd ioLoop next s)) := by
  have haccept := (h.accept sockfd next ioLoop).1
  have hloop : (accepted sockfd ioLoop next s).loopOf s.nextConnId = ioLoop := Function.update_self ..
  have hold : ∀ g ∈ s.queue ioLoop, ∀ i, g = .connectEstablished i ∨ g = .connectDestroyed i →
      i ≠ s.nextConnId := by
    rintro g hg i (rfl | rfl)
    · exact (h.placed ioLoop _ hg).1.ne_next
    · exact (h.placed ioLoop _ hg).1.ne_next
  refine ⟨haccept.made, fun u g hg => ?_, pairwise_pushed haccept.ordered fun g hg i hi heq => ?_,
    pairwise_pushed haccept.once fun g hg i hi heq => ?_, haccept.connections, fun i hi => ?_⟩
  · rcases mem_pushed.mp hg with hg | ⟨rfl, rfl⟩
    · exact haccept.placed u g hg
    · exact ⟨⟨h.made, Nat.lt_succ_self _⟩, hloop⟩
  · exact hold g hg i (.inr hi) (ServerFunctor.connectEstablished.inj heq).symm
  · exact hold g hg i (.inl hi) (ServerFunctor.connectEstablished.inj heq).symm
  · rcases mem_pushed.mp hi with hi | ⟨-, heq⟩
    · exact haccept.waits i hi
    · obtain rfl := ServerFunctor.connectEstablished.inj heq
      show ((accepted sockfd ioLoop next s).conns _).state = _ ∧ (accepted sockfd ioLoop next s).loopOf _ ≠ s.loop
      rw [hloop]
      rw [accepted_made]
      exact ⟨rfl, hne⟩

end Agora.TcpServer
