import Agora.Code.TcpServer

/-! # Where the functors of a server stand, and which of its connections are established -/

open Agora.Lib Agora.Lib.Prog

namespace Agora.TcpServer

variable {τ : Type}

/-- `newConnection` has made the connection `i`. -/
def Created (s : TcpServer τ) (i : Nat) : Prop := 0 < i ∧ i < s.nextConnId

/-- A connection is not destroyed in front of the functor that establishes it. -/
def Before (f g : ServerFunctor) : Prop := ∀ i, f = .connectDestroyed i → g ≠ .connectEstablished i

/-- The functor is in the queue of the loop that it belongs to. -/
def InPlace (s : TcpServer τ) (t : τ) : ServerFunctor → Prop
  | .connectEstablished i | .connectDestroyed i => s.Created i ∧ s.loopOf i = t
  | .removeConnectionInLoop i => s.Created i ∧ s.loop = t

/-- The connections that are not established wait in the queue of another loop, but for `now`. -/
structure Orderly (now : Option Nat) (s : TcpServer τ) : Prop where
  made : 0 < s.nextConnId
  placed : ∀ t, ∀ f ∈ s.queue t, InPlace s t f
  ordered : ∀ t, (s.queue t).Pairwise Before
  connections : ∀ i ∈ s.connections, s.Created i
  vacant : ∀ i, ¬ s.Created i → (s.conns i).state = .kConnecting
  connecting : ∀ i, s.Created i → (s.conns i).state = .kConnecting → some i ≠ now →
    s.loopOf i ≠ s.loop ∧ .connectEstablished i ∈ s.queue (s.loopOf i)

/-! ## Changes of one connection -/

@[simp] theorem setConn_self (i : Nat) (c : TcpConnection) (s : TcpServer τ) :
    (setConn i c s).conns i = c := Function.update_self ..

theorem setConn_other {i j : Nat} (h : j ≠ i) (c : TcpConnection) (s : TcpServer τ) :
    (setConn i c s).conns j = s.conns j := Function.update_of_ne h ..

theorem setConn_setConn (i : Nat) (c c' : TcpConnection) (s : TcpServer τ) :
    setConn i c' (setConn i c s) = setConn i c' s := by
  unfold setConn
  rw [Function.update_idem]

theorem setConn_same (i : Nat) (s : TcpServer τ) : setConn i (s.conns i) s = s := by
  unfold setConn
  rw [Function.update_eq_self]

theorem connPart_lawful (i : Nat) (handler : Callback → ServerM τ Unit) : (connPart i handler).Lawful :=
  ⟨fun c s => setConn_self i c s, fun c c' s => setConn_setConn i c c' s, setConn_same i⟩

theorem Orderly.created {now : Option Nat} {s : TcpServer τ} (h : Orderly now s) {i : Nat}
    (hs : (s.conns i).state ≠ .kConnecting) : s.Created i := by
  by_contra hn
  exact hs (h.vacant i hn)

theorem Orderly.setConn {now : Option Nat} {s : TcpServer τ} (h : Orderly now s) {i : Nat}
    {c : TcpConnection} (hi : s.Created i) (hc : c.state ≠ .kConnecting) (hnow : ∀ j, some j = now → j = i) :
    Orderly none (setConn i c s) := by
  refine ⟨h.made, h.placed, h.ordered, h.connections, fun j hj => ?_, fun j hj hs _ => ?_⟩
  · have hne : j ≠ i := by
      rintro rfl
      exact hj hi
    rw [setConn_other hne]
    exact h.vacant j hj
  · have hne : j ≠ i := by
      rintro rfl
      rw [setConn_self] at hs
      exact hc hs
    rw [setConn_other hne] at hs
    exact h.connecting j hj hs fun hj' => hne (hnow j hj')

theorem Orderly.record {now : Option Nat} {s : TcpServer τ} (h : Orderly now s) (phase : ServerPhase)
    (trace : List (ServerEvent τ)) : Orderly now { s with phase := phase, trace := trace } :=
  ⟨h.made, h.placed, h.ordered, h.connections, h.vacant, h.connecting⟩

theorem Orderly.weaken {s : TcpServer τ} (h : Orderly none s) (now : Option Nat) : Orderly now s :=
  ⟨h.made, h.placed, h.ordered, h.connections, h.vacant, fun i hi hs _ => h.connecting i hi hs nofun⟩

/-! ## Changes of the queues -/

theorem Orderly.destroyable {s : TcpServer τ} (h : Orderly none s) {t : τ} {i : Nat}
    {rest : List ServerFunctor} (hq : s.queue t = .connectDestroyed i :: rest) :
    (s.conns i).state ≠ .kConnecting := by
  intro hs
  have hin : .connectDestroyed i ∈ s.queue t := by
    rw [hq]
    exact List.mem_cons_self
  obtain ⟨hi, ht⟩ := h.placed t _ hin
  obtain ⟨-, hmem⟩ := h.connecting i hi hs nofun
  have hordered := h.ordered t
  rw [ht, hq] at hmem
  rw [hq, List.pairwise_cons] at hordered
  rcases List.mem_cons.mp hmem with heq | hmem
  · cases heq
  · exact hordered.1 _ hmem i rfl rfl

section
variable [DecidableEq τ]

/-- `queueInLoop`, on the state. -/
def pushed (t : τ) (f : ServerFunctor) (s : TcpServer τ) : TcpServer τ :=
  { s with queue := Function.update s.queue t (s.queue t ++ [f]) }

@[simp] theorem pushed_self (t : τ) (f : ServerFunctor) (s : TcpServer τ) :
    (pushed t f s).queue t = s.queue t ++ [f] := Function.update_self ..

theorem pushed_other {t u : τ} (h : u ≠ t) (f : ServerFunctor) (s : TcpServer τ) :
    (pushed t f s).queue u = s.queue u := Function.update_of_ne h ..

theorem mem_pushed {t u : τ} {f g : ServerFunctor} {s : TcpServer τ} :
    g ∈ (pushed t f s).queue u ↔ g ∈ s.queue u ∨ u = t ∧ g = f := by
  rcases eq_or_ne u t with rfl | hne
  · simp
  · simp [pushed_other hne, hne]

theorem pairwise_pushed {s : TcpServer τ} {t : τ} {f : ServerFunctor} {R : ServerFunctor → ServerFunctor → Prop}
    (h : ∀ u, (s.queue u).Pairwise R) (hf : ∀ g ∈ s.queue t, R g f) (u : τ) :
    ((pushed t f s).queue u).Pairwise R := by
  rcases eq_or_ne u t with rfl | hne
  · rw [pushed_self, List.pairwise_append]
    refine ⟨h u, List.pairwise_singleton R f, fun g hg f' hf' => ?_⟩
    rw [List.mem_singleton.mp hf']
    exact hf g hg
  · rw [pushed_other hne]
    exact h u

theorem Orderly.push {now : Option Nat} {s : TcpServer τ} (h : Orderly now s) {t : τ} {f : ServerFunctor}
    (hf : InPlace s t f) (hbefore : ∀ g ∈ s.queue t, Before g f) : Orderly now (pushed t f s) := by
  refine ⟨h.made, fun u g hg => ?_, pairwise_pushed h.ordered hbefore, h.connections, h.vacant, ?_⟩
  · rcases mem_pushed.mp hg with hg | ⟨rfl, rfl⟩
    · exact h.placed u g hg
    · exact hf
  · intro i hi hs hnow
    obtain ⟨hloop, hmem⟩ := h.connecting i hi hs hnow
    exact ⟨hloop, mem_pushed.mpr (.inl hmem)⟩

theorem before_of_ne {f : ServerFunctor} (hf : ∀ i, f ≠ .connectEstablished i) (g : ServerFunctor) :
    Before g f := fun i _ => hf i

/-- A functor leaves the front of the queue. -/
def popped (t : τ) (rest : List ServerFunctor) (s : TcpServer τ) : TcpServer τ :=
  { s with queue := Function.update s.queue t rest }

@[simp] theorem popped_self (t : τ) (rest : List ServerFunctor) (s : TcpServer τ) :
    (popped t rest s).queue t = rest := Function.update_self ..

theorem popped_other {t u : τ} (h : u ≠ t) (rest : List ServerFunctor) (s : TcpServer τ) :
    (popped t rest s).queue u = s.queue u := Function.update_of_ne h ..

theorem mem_popped {t u : τ} {f g : ServerFunctor} {rest : List ServerFunctor} {s : TcpServer τ}
    (hq : s.queue t = f :: rest) (hg : g ∈ (popped t rest s).queue u) : g ∈ s.queue u := by
  rcases eq_or_ne u t with rfl | hne
  · rw [popped_self] at hg
    rw [hq]
    exact List.mem_cons_of_mem f hg
  · rwa [popped_other hne] at hg

theorem pairwise_popped {s : TcpServer τ} {t : τ} {f : ServerFunctor} {rest : List ServerFunctor}
    {R : ServerFunctor → ServerFunctor → Prop} (hq : s.queue t = f :: rest)
    (h : ∀ u, (s.queue u).Pairwise R) (u : τ) : ((popped t rest s).queue u).Pairwise R := by
  rcases eq_or_ne u t with rfl | hne
  · rw [popped_self]
    have hu := h u
    rw [hq] at hu
    exact hu.of_cons
  · rw [popped_other hne]
    exact h u

/-- The connection that the functor establishes. -/
def ServerFunctor.establishes : ServerFunctor → Option Nat
  | .connectEstablished i => some i
  | _ => none

theorem Orderly.pop {s : TcpServer τ} (h : Orderly none s) {t : τ} {f : ServerFunctor}
    {rest : List ServerFunctor} (hq : s.queue t = f :: rest) :
    Orderly (ServerFunctor.establishes f) (popped t rest s) := by
  refine ⟨h.made, fun u g hg => h.placed u g (mem_popped hq hg), pairwise_popped hq h.ordered,
    h.connections, h.vacant, fun i hi hs hnow => ?_⟩
  obtain ⟨hloop, hmem⟩ := h.connecting i hi hs nofun
  refine ⟨hloop, ?_⟩
  show _ ∈ (popped t rest s).queue (s.loopOf i)
  rcases eq_or_ne (s.loopOf i) t with heq | hne
  · rw [heq, hq] at hmem
    rw [heq, popped_self]
    rcases List.mem_cons.mp hmem with rfl | hmem
    · exact absurd rfl hnow
    · exact hmem
  · rwa [popped_other hne]

end

theorem entry_conn [DecidableEq τ] {me : τ} {i : Nat} {label : ConnLabel} {s : TcpServer τ}
    {p : ServerM τ Unit} (h : entry (.conn me i label) s = some p) :
    label ≠ .connectEstablished ∧ s.loopOf i = me ∧ (s.conns i).state ≠ .kConnecting ∧
      p = onConn me i (TcpConnection.entry label) := by
  cases label with
  | connectEstablished | connectDestroyed => cases h
  | _ =>
    obtain ⟨⟨-, hloop, hs⟩, hp⟩ := Option.ite_none_right_eq_some.mp h
    exact ⟨nofun, hloop, hs, (Option.some.inj hp).symm⟩

/-! ## New connections, and connections that leave the map -/

theorem Orderly.erase {now : Option Nat} {s : TcpServer τ} (h : Orderly now s) (i : Nat) :
    Orderly now { s with connections := s.connections.erase i } :=
  ⟨h.made, h.placed, h.ordered, fun j hj => h.connections j (List.mem_of_mem_erase hj), h.vacant,
    h.connecting⟩

/-- `newConnection` up to the point where the connection is to be established. -/
def accepted (sockfd : Nat) (ioLoop : τ) (next : Nat) (s : TcpServer τ) : TcpServer τ :=
  { s with
    next := next
    nextConnId := s.nextConnId + 1
    conns := Function.update s.conns s.nextConnId
      (.new sockfd s.connectionCallback s.messageCallback true s.writeCompleteCallback)
    loopOf := Function.update s.loopOf s.nextConnId ioLoop
    connections := s.connections ++ [s.nextConnId] }

theorem Created.ne_next {s : TcpServer τ} {i : Nat} (h : s.Created i) : i ≠ s.nextConnId :=
  Nat.ne_of_lt h.2

theorem created_accepted {s : TcpServer τ} {sockfd next i : Nat} {ioLoop : τ} (hmade : 0 < s.nextConnId) :
    (accepted sockfd ioLoop next s).Created i ↔ s.Created i ∨ i = s.nextConnId := by
  unfold Created accepted
  show 0 < i ∧ i < s.nextConnId + 1 ↔ _
  omega

theorem Created.accepted {s : TcpServer τ} {sockfd next i : Nat} {ioLoop : τ} (h : s.Created i) :
    (accepted sockfd ioLoop next s).Created i := ⟨h.1, Nat.lt_succ_of_lt h.2⟩

theorem accepted_conns {s : TcpServer τ} {sockfd next i : Nat} {ioLoop : τ} (h : i ≠ s.nextConnId) :
    (accepted sockfd ioLoop next s).conns i = s.conns i := Function.update_of_ne h ..

theorem accepted_loopOf {s : TcpServer τ} {sockfd next i : Nat} {ioLoop : τ} (h : i ≠ s.nextConnId) :
    (accepted sockfd ioLoop next s).loopOf i = s.loopOf i := Function.update_of_ne h ..

theorem InPlace.accepted {s : TcpServer τ} {sockfd next : Nat} {ioLoop t : τ} {f : ServerFunctor}
    (h : InPlace s t f) : InPlace (accepted sockfd ioLoop next s) t f := by
  cases f with
  | connectEstablished i | connectDestroyed i =>
    refine ⟨h.1.accepted, ?_⟩
    rw [accepted_loopOf h.1.ne_next]
    exact h.2
  | removeConnectionInLoop i => exact ⟨h.1.accepted, h.2⟩

theorem Orderly.accept {s : TcpServer τ} (h : Orderly none s) (sockfd next : Nat) (ioLoop : τ) :
    Orderly (some s.nextConnId) (accepted sockfd ioLoop next s) := by
  refine ⟨Nat.succ_pos _, fun t f hf => (h.placed t f hf).accepted, h.ordered, fun i hi => ?_,
    fun i hi => ?_, fun i hi hs hnow => ?_⟩
  · rw [created_accepted h.made]
    rcases List.mem_append.mp hi with hi | hi
    · exact .inl (h.connections i hi)
    · exact .inr (List.mem_singleton.mp hi)
  · rw [created_accepted h.made, not_or] at hi
    rw [accepted_conns hi.2]
    exact h.vacant i hi.1
  · have hne : i ≠ s.nextConnId := by
      rintro rfl
      exact hnow rfl
    rw [accepted_conns hne] at hs
    rw [accepted_loopOf hne]
    have hold := ((created_accepted h.made).mp hi).resolve_right hne
    exact h.connecting i hold hs nofun

theorem Orderly.atOnce {s : TcpServer τ} (h : Orderly none s) {i : Nat} (hi : s.Created i)
    (hloop : s.loopOf i = s.loop) : (s.conns i).state ≠ .kConnecting :=
  fun hs => (h.connecting i hi hs nofun).1 hloop

theorem Orderly.acceptElsewhere [DecidableEq τ] {s : TcpServer τ} (h : Orderly none s) (sockfd next : Nat) {ioLoop : τ}
    (hne : ioLoop ≠ s.loop) :
    Orderly none (pushed ioLoop (.connectEstablished s.nextConnId) (accepted sockfd ioLoop next s)) := by
  have haccept := h.accept sockfd next ioLoop
  have hloop : (accepted sockfd ioLoop next s).loopOf s.nextConnId = ioLoop := Function.update_self ..
  have hpush : Orderly (some s.nextConnId)
      (pushed ioLoop (.connectEstablished s.nextConnId) (accepted sockfd ioLoop next s)) := by
    refine haccept.push ⟨(created_accepted h.made).mpr (.inr rfl), hloop⟩ ?_
    rintro g hg i rfl heq
    obtain rfl := ServerFunctor.connectEstablished.inj heq
    exact (h.placed ioLoop _ hg).1.ne_next rfl
  refine ⟨hpush.made, hpush.placed, hpush.ordered, hpush.connections, hpush.vacant, fun i hi hs _ => ?_⟩
  rcases eq_or_ne i s.nextConnId with rfl | hi'
  · show (accepted sockfd ioLoop next s).loopOf _ ≠ s.loop ∧ _
    rw [hloop]
    refine ⟨hne, mem_pushed.mpr (.inr ⟨hloop, rfl⟩)⟩
  · exact hpush.connecting i hi hs fun hsome => hi' (Option.some.inj hsome)

theorem new_orderly (loop : τ) (loops : List τ) (a b c : Bool) : Orderly none (new loop loops a b c) :=
  ⟨Nat.one_pos, fun _ => nofun, fun _ => List.Pairwise.nil, nofun, fun _ _ => rfl,
    fun _ hi => absurd hi.2 (Nat.not_lt.mpr hi.1)⟩

end Agora.TcpServer
