import Agora.Http.Hosted
import Agora.Lib.Progress
import Agora.Lib.Queues
import Agora.Server.Rest

/-!
# That the loops of a server come to rest

Each functor leaves less to do: a removal makes room for one `connectDestroyed`, and nothing else that a
loop runs from its queue puts anything into one.
-/

open Agora.Lib Agora.Lib.Prog

namespace Agora

/-! ## The only callback -/

namespace TcpConnection

theorem calls_connectEstablished : Embedding.Calls (· = .connection) connectEstablished := by
  intro c₀ c _
  unfold connectEstablished
  simp [setState, setChannel, invokeConnectionCallback, emit]

theorem calls_connectDestroyed : Embedding.Calls (· = .connection) connectDestroyed := by
  intro c₀ c _
  unfold connectDestroyed
  simp [setState, setChannel, invokeConnectionCallback, emit]

end TcpConnection

/-! ## What a functor leaves to do -/

def ServerFunctor.weight : ServerFunctor → Nat
  | .removeConnectionInLoop _ => 2
  | .connectEstablished _ | .connectDestroyed _ => 1

namespace TcpServer

variable {τ : Type}

/-- Nothing has changed but connections and the history. -/
structure SameQueues (s s' : TcpServer τ) : Prop where
  loop : s'.loop = s.loop
  made : s'.nextConnId = s.nextConnId
  loopOf : s'.loopOf = s.loopOf
  queue : s'.queue = s.queue
  phase : s'.phase = s.phase

theorem SameQueues.refl (s : TcpServer τ) : SameQueues s s := ⟨rfl, rfl, rfl, rfl, rfl⟩

theorem SameQueues.trans {s s' s'' : TcpServer τ} (h : SameQueues s s') (h' : SameQueues s' s'') :
    SameQueues s s'' :=
  ⟨h'.loop.trans h.loop, h'.made.trans h.made, h'.loopOf.trans h.loopOf, h'.queue.trans h.queue,
    h'.phase.trans h.phase⟩

theorem sameQueues_setConn (i : Nat) (c : TcpConnection) (s : TcpServer τ) : SameQueues s (setConn i c s) :=
  ⟨rfl, rfl, rfl, rfl, rfl⟩

theorem sameQueues_record (s : TcpServer τ) (e : ServerEvent τ) :
    SameQueues s { s with trace := s.trace ++ [e] } :=
  ⟨rfl, rfl, rfl, rfl, rfl⟩

def sameQueuesContract (phase : ServerPhase) :
    Contract (TcpServer τ) ServerCall SysResult (Nat × Callback) Fault where
  inv s := s.phase = phase
  pre _ _ := True
  tolerates _ s := s.phase = phase
  allow _ _ _ := True

variable [DecidableEq τ]

/-- The threads that may have something in their queues. -/
def threads (s : TcpServer τ) : Finset τ := insert s.loop ((Finset.range s.nextConnId).image s.loopOf)

/-- How much there is to do. -/
def rank (s : TcpServer τ) : Nat := backlog ServerFunctor.weight s.threads s.queue

variable {s s' s₀ : TcpServer τ} {i : Nat}

theorem Created.thread (hi : s.Created i) : s.loopOf i ∈ s.threads :=
  Finset.mem_insert_of_mem (Finset.mem_image_of_mem _ (Finset.mem_range.mpr hi.2))

theorem InPlace.thread {t : τ} {f : ServerFunctor} (h : InPlace s t f) : t ∈ s.threads := by
  cases f with
  | connectEstablished i | connectDestroyed i =>
    obtain ⟨hi, rfl⟩ := h
    exact hi.thread
  | removeConnectionInLoop i =>
    obtain ⟨-, rfl⟩ := h
    exact Finset.mem_insert_self ..

theorem SameQueues.threads (h : SameQueues s s') : s'.threads = s.threads := by
  unfold TcpServer.threads
  rw [h.loop, h.made, h.loopOf]

theorem SameQueues.rank (h : SameQueues s s') : s'.rank = s.rank := by
  unfold TcpServer.rank
  rw [h.threads, h.queue]

theorem sameQueues_onConn (me : τ) (i : Nat) {p : ConnM Unit} (hcalls : Embedding.Calls (· = .connection) p)
    {start : TcpServer τ} {phase : ServerPhase} (hphase : start.phase = phase) :
    Stable (sameQueuesContract phase) (fun _ _ => True) SameQueues (fun _ s => SameQueues start s)
      (onConn me i p) := by
  refine (connPart i (handler me i)).stable_run hcalls (connPart_lawful i _) (fun _ s c h => ?_)
    (fun _ _ s h => h.phase.trans hphase) fun u hu => ?_
  · exact h.trans (sameQueues_setConn ..)
  · subst hu
    exact fun _ s h => ⟨⟨h.phase.trans hphase, trivial, trivial⟩, fun s' _ h' => h.trans h'⟩

theorem sameQueues_recorded (me : τ) (i : Nat) (e : ServerEvent τ) {p : ConnM Unit}
    (hcalls : Embedding.Calls (· = .connection) p) {phase : ServerPhase} (hphase : s.phase = phase) :
    wp (sameQueuesContract phase) (fun _ _ => True) SameQueues (do emit e; onConn me i p)
      (fun _ s' _ => SameQueues s s') s₀ s := by
  unfold emit
  rw [wp_bind, wp_modify]
  exact sameQueues_onConn me i hcalls hphase _ _ (sameQueues_record ..)

theorem sameQueues_connectEstablished (me : τ) (i : Nat) {phase : ServerPhase} (hphase : s.phase = phase) :
    wp (sameQueuesContract phase) (fun _ _ => True) SameQueues (connectEstablished me i)
      (fun _ s' _ => SameQueues s s') s₀ s :=
  sameQueues_recorded me i _ TcpConnection.calls_connectEstablished hphase

theorem sameQueues_connectDestroyed (me : τ) (i : Nat) {phase : ServerPhase} (hphase : s.phase = phase) :
    wp (sameQueuesContract phase) (fun _ _ => True) SameQueues (connectDestroyed me i)
      (fun _ s' _ => SameQueues s s') s₀ s :=
  sameQueues_recorded me i _ TcpConnection.calls_connectDestroyed hphase

theorem runFunctor_fewer {t : τ} {f : ServerFunctor} {rest : List ServerFunctor} (hq : s.queue t = f :: rest)
    (hplace : InPlace s t f) (hphase : s.phase = .running) :
    wp (sameQueuesContract .running) (fun _ _ => True) SameQueues (runFunctor t f)
      (fun _ s' _ => s'.phase = .running ∧ s'.rank < s.rank) s₀ (popped t rest s) := by
  have hpop : (popped t rest s).rank + f.weight = s.rank := backlog_pop hplace.thread hq
  cases f with
  | connectEstablished i =>
    refine wp_mono (sameQueues_connectEstablished t i hphase) fun _ s' _ h => ⟨h.phase.trans hphase, ?_⟩
    have hrank := h.rank
    simp only [ServerFunctor.weight] at hpop
    omega
  | connectDestroyed i =>
    refine wp_mono (sameQueues_connectDestroyed t i hphase) fun _ s' _ h => ⟨h.phase.trans hphase, ?_⟩
    have hrank := h.rank
    simp only [ServerFunctor.weight] at hpop
    omega
  | removeConnectionInLoop i =>
    have hrunning : (popped t rest s).phase = .running := hphase
    have hpush : backlog ServerFunctor.weight (popped t rest s).threads
        (Function.update (popped t rest s).queue (s.loopOf i)
          ((popped t rest s).queue (s.loopOf i) ++ [.connectDestroyed i])) = (popped t rest s).rank + 1 :=
      backlog_push hplace.1.thread _
    unfold runFunctor removeConnectionInLoop emit queueInLoop
    simp only [wp_bind, wp_modify, wp_read, wp_assert]
    rw [if_pos (decide_eq_true (by rw [hrunning]; nofun))]
    refine ⟨hphase, hpush.trans_lt ?_⟩
    simp only [ServerFunctor.weight] at hpop
    omega

/-- The listening socket does not see the server go. -/
theorem running_newConnection (hphase : s.phase = .running) (me : τ) (sockfd : Nat) :
    wp (sameQueuesContract .running) (fun _ _ => True) SameQueues (newConnection me sockfd)
      (fun _ s' _ => s'.phase = .running) s₀ s := by
  unfold newConnection queueInLoop
  simp only [wp_bind, wp_read, wp_modify, wp_ite]
  split
  · exact wp_mono (sameQueues_connectEstablished _ _ hphase) fun _ _ _ h => h.phase.trans hphase
  · exact hphase

end TcpServer

/-! ## In a server whose callbacks are code -/

namespace Service

open TcpServer (Held Onward GoesOn HeldAt SameQueues sameQueuesContract)

variable {S Q ι τ : Type} {A : Application S Q ι} {C : Contract (Service A τ) (Nat × Q) ι Empty Fault}
  {s s₀ : Service A τ}

theorem server_run {D : Contract (TcpServer τ) ServerCall SysResult (Nat × Callback) Fault}
    {guar rely : TcpServer τ → TcpServer τ → Prop} {post : TcpServer τ → TcpServer τ → Unit → Prop}
    (hallow : ∀ s q a, D.allow s q a) (hfault : ∀ e s, D.tolerates e s.server → C.tolerates e s)
    (hbroken : ∀ e s, D.inv s.server → C.tolerates e s) (hrefl : ∀ c, rely c c)
    (hput : ∀ c server i u conn, D.pre (i, u) c → D.inv server ∧ rely c server →
      D.inv (TcpServer.setConn i conn server) ∧ rely c (TcpServer.setConn i conn server))
    {p : ServerM τ Unit} (hp : wp D guar rely p post s.server s.server) {post' : TcpServer τ → Prop}
    (hpost : ∀ c c' a, post c c' a → post' c') :
    wp C (fun _ _ => True) (fun _ _ => True) ((serverPart A τ).run p) (fun _ s' _ => post' s'.server) s₀ s := by
  refine Embedding.wp_run (I := fun _ _ => True) _ (serverPart_lawful A τ)
    (fun _ _ _ _ => hallow _ _ _) (fun _ _ _ e _ hc => hfault e _ hc) ?_ (fun _ _ _ _ _ h => hpost _ _ _ h) trivial hp
  rintro s₀ s₁ c ⟨i, u⟩ - hinv - hpre
  have hstable : Stable C (fun _ _ => True) (fun _ _ => True)
      (fun _ s => D.inv s.server ∧ rely c s.server) ((serverPart A τ).handler (i, u)) :=
    (sessionPart A τ i).stable_run (Embedding.calls_any _) (sessionPart_lawful A τ i)
      (fun _ s t h => hput c s.server i u _ hpre h) (fun e _ s h => hbroken e s h.1) fun u => u.elim
  exact wp_mono (hstable s₀ _ ⟨hinv, hrefl c⟩) fun _ _ _ h => ⟨trivial, h⟩

theorem sameQueues_run (phase : ServerPhase) (post : TcpServer τ → Prop)
    (hfault : ∀ e s, s.server.phase = phase → C.tolerates e s) {p : ServerM τ Unit}
    (hp : wp (sameQueuesContract phase) (fun _ _ => True) SameQueues p (fun _ s' _ => post s')
      s.server s.server) :
    wp C (fun _ _ => True) (fun _ _ => True) ((serverPart A τ).run p) (fun _ s' _ => post s'.server) s₀ s := by
  refine server_run (fun _ _ _ => trivial) hfault hfault .refl (fun c server i _ conn _ h => ?_) hp fun _ _ _ h => h
  exact ⟨h.1, h.2.trans (TcpServer.sameQueues_setConn i conn server)⟩

theorem held_run (hfault : ∀ e s, C.tolerates e s) {p : ServerM τ Unit}
    (hp : wp TcpServer.heldContract (GoesOn s.server) Onward p (fun s₀ s' _ => HeldAt none none s.server s₀ s')
      s.server s.server) :
    wp C (fun _ _ => True) (fun _ _ => True) ((serverPart A τ).run p)
      (fun _ s' _ => Held none none s'.server) s₀ s := by
  refine server_run (fun _ _ _ => trivial) (fun e s _ => hfault e s) (fun e s _ => hfault e s) .refl
    (fun c server i _ conn hcreated h => ?_) hp fun _ _ _ h => h.inv
  exact ⟨h.1.setConn (h.2.created hcreated) conn, h.2.trans (.of_same rfl rfl rfl (List.Subset.refl _))⟩

def heldContract (A : Application S Q ι) (τ : Type) : Contract (Service A τ) (Nat × Q) ι Empty Fault where
  inv s := Held none none s.server
  pre _ _ := True
  tolerates _ _ := True
  allow _ _ _ := True

/-- The server is there when a functor has been called. -/
def runningContract (A : Application S Q ι) (τ : Type) : Contract (Service A τ) (Nat × Q) ι Empty Fault where
  inv _ := True
  pre _ _ := True
  tolerates _ s := s.server.phase = .running
  allow _ _ _ := True

variable [DecidableEq τ]

theorem held_handleRead (h : Held none none s.server) (hphase : s.server.phase = .running) (loop : τ)
    (errno : AcceptErrno) (connfds : List Nat) (s₀ : Service A τ) :
    wp (heldContract A τ) (fun _ _ => True) (fun _ _ => True)
      ((serverPart A τ).run
        (Acceptor.handleRead (some (TcpServer.newConnection loop)) (fun _ => pure ()) errno connfds))
      (fun _ s' _ => Held none none s'.server) s₀ s := by
  induction connfds generalizing s₀ s with
  | nil =>
    cases errno with
    | unexpected => trivial
    | EAGAIN | ECONNABORTED | EINTR | EPROTO | EPERM | EMFILE => exact h
  | cons connfd connfds ih =>
    unfold Acceptor.handleRead
    simp only [Embedding.wp_run_bind]
    refine wp_mono (wp_and (held_run (fun _ _ => trivial) ?_)
      (sameQueues_run .running (fun server => server.phase = .running) (fun _ _ _ => trivial) ?_))
      fun s₀ s' _ h' => ih h'.1 h'.2 s₀
    · exact TcpServer.held_newConnection ⟨h, .refl _, .refl _⟩ hphase loop connfd
    · exact TcpServer.running_newConnection hphase loop connfd

theorem held_entry (h : Held none none s.server) {label : ServiceLabel τ} {p : ServiceM A τ Unit}
    (hp : entry label s = some p) :
    wp (heldContract A τ) (fun _ _ => True) (fun _ _ => True) p (fun _ s' _ => Held none none s'.server) s s := by
  obtain ⟨p, hentry, rfl⟩ := Option.map_eq_some_iff.mp hp
  have hserver : ∀ label, TcpServer.entry label s.server = some p →
      wp (heldContract A τ) (fun _ _ => True) (fun _ _ => True) ((serverPart A τ).run p)
        (fun _ s' _ => Held none none s'.server) s s := fun _ hentry =>
    held_run (fun _ _ => trivial) (TcpServer.held_entry hentry ⟨h, .refl _, .refl _⟩)
  cases label with
  | accept connfds errno =>
    obtain ⟨hphase, hp⟩ := Option.ite_none_right_eq_some.mp hentry
    obtain rfl := Option.some.inj hp
    exact held_handleRead h hphase s.server.loop errno connfds s
  | functor me => exact hserver (.functor me) hentry
  | event me i revents => exact hserver (.conn me i (.event revents)) (Option.ite_none_right_eq_some.mp hentry).2
  | destroy entries => exact hserver (.destroy s.server.loop entries) hentry

theorem keeps_held (cond : Machine.Condition (Service A τ) (Nat × Q) ι (ServiceLabel τ)) :
    (machine A τ).Keeps (heldContract A τ) (fun _ _ _ => True) cond := by
  refine .of_inv ?_ (fun _ _ _ _ _ => trivial) fun _ _ _ hp _ h => held_entry h hp
  rintro _ ⟨loop, loops, rfl⟩
  exact TcpServer.new_held ..

theorem functor_fewer (h : Held none none s.server) (hphase : s.server.phase = .running) {t : τ}
    {p : ServiceM A τ Unit} (hp : entry (.functor t) s = some p) :
    wp (runningContract A τ) (fun _ _ => True) (fun _ _ => True) p
      (fun _ s' _ => s'.server.phase = .running ∧ s'.server.rank < s.server.rank) s s := by
  obtain ⟨p, hentry, rfl⟩ := Option.map_eq_some_iff.mp hp
  refine sameQueues_run .running (fun server => server.phase = .running ∧ server.rank < s.server.rank)
    (fun _ _ hphase => hphase) ?_
  unfold serverEntry TcpServer.entry at hentry
  simp only at hentry
  split at hentry
  · cases hentry
  · rename_i f rest hq
    obtain rfl := Option.some.inj hentry
    have hin : f ∈ s.server.queue t := by
      rw [hq]
      exact List.mem_cons_self
    rw [wp_bind, wp_modify]
    exact TcpServer.runFunctor_fewer hq (h.placed t f hin) hphase

/-- The loop `a.1` calls the next functor of its queue, with the results `a.2` of its system calls. -/
def turn (a : τ × List ι) : Action Unit ι (ServiceLabel τ) := .start (.functor a.1) a.2

/-- A server whose loops may come to rest. -/
structure Settling (Ready : S → Prop) (c : Config Unit (Service A τ) (Nat × Q) ι Empty Fault) : Prop where
  alive : c.crashed = none
  hosted : Hosted (A.calmContract Ready) none c.st.server.loop c.st
  held : Held none none c.st.server
  running : c.st.server.phase = .running

variable {Ready : S → Prop} {c c' : Config Unit (Service A τ) (Nat × Q) ι Empty Fault}

theorem Settling.step (htame : A.Tame Ready) (h : Settling Ready c) {a : τ × List ι}
    (hs : (machine A τ).step c (turn a) = some c') :
    Settling Ready c' ∧ c'.st.server.rank < c.st.server.rank := by
  obtain ⟨p, stop, hp, he, rfl⟩ := Machine.step_start _ hs
  have hmeets := Machine.meets_anyStep_prog p c.st a.2
  have hhosted := Prog.exec_sound (fun _ _ _ _ _ => trivial)
    (functor_hosted htame.keeps h.hosted hp) hmeets he
  have hheld := Prog.exec_sound (fun _ _ _ _ _ => trivial) (held_entry h.held hp) hmeets he
  have hfewer := Prog.exec_sound (fun _ _ _ _ _ => trivial) (functor_fewer h.held h.running hp) hmeets he
  cases stop with
  | done s a => exact ⟨⟨rfl, hhosted.again, hheld, hfewer.1⟩, hfewer.2⟩
  | called s u k => exact u.elim
  | faulted s e =>
    rcases hhosted with ⟨-, hdown⟩ | ⟨i, -, hfalse⟩
    · cases hfewer.symm.trans hdown
    · exact hfalse.elim

theorem step_turn (hvalid : ∀ q, ∃ a, A.valid q a = true) (hc : c.crashed = none) {t : τ}
    (hwaits : c.st.server.queue t ≠ []) : ∃ answers c', (machine A τ).step c (turn (t, answers)) = some c' := by
  obtain ⟨f, rest, hq⟩ := List.exists_cons_of_ne_nil hwaits
  have hidle : c.frames () = [] := by
    cases hframes : c.frames () with
    | nil => rfl
    | cons f rest => exact f.1.elim
  obtain ⟨p, hp⟩ : ∃ p, (machine A τ).entry (.functor t) c.st = some p := by
    show ∃ p, Option.map _ (serverEntry (.functor t) c.st.server) = some p
    unfold serverEntry TcpServer.entry
    simp only [hq]
    exact ⟨_, rfl⟩
  have hanswers : ∀ q, ∃ a, (machine A τ).valid q a = true := fun q => hvalid q.2
  obtain ⟨answers, stop, hstop⟩ := Prog.exec_total hanswers p c.st
  exact ⟨answers, _, Machine.step_start_stop hc hidle hp hstop⟩

theorem settling {cond : Machine.Condition S Q ι EventMask} (htame : A.Tame Ready)
    (hcalm : ∀ t revents, cond.label t revents → TcpConnection.CalmMask revents)
    (h : (machine A τ).Reach (each cond) c) (hc : c.crashed = none) (hrunning : c.st.server.phase = .running) :
    Settling Ready c :=
  ⟨hc, ((keeps (htame.keeps_events hcalm) fun _ _ _ _ _ => trivial).runOk h).inv hc,
    ((keeps_held _).runOk h).inv hc, hrunning⟩

/-- However the loops take their turns, they can go on until nothing waits, and there is an end to it. -/
theorem come_to_rest (htame : A.Tame Ready) (hvalid : ∀ q, ∃ a, A.valid q a = true) (h : Settling Ready c)
    {as : List (τ × List ι)} (hrun : (machine A τ).system.run (fun _ _ => True) c (as.map turn) = some c') :
    Settling Ready c' ∧ as.length ≤ c.st.server.rank ∧
      ∀ t, c'.st.server.queue t ≠ [] → ∃ answers c'', (machine A τ).step c' (turn (t, answers)) = some c'' := by
  obtain ⟨h', hle⟩ := System.length_le_rank (fun _ _ _ h hs => h.step htame hs) h hrun
  exact ⟨h', by omega, fun t => step_turn hvalid h'.alive⟩

end Service

namespace HttpServer

variable {b : Bool} {τ : Type} [DecidableEq τ]
  {c c' : Config Unit (Service (application b) τ) (Nat × HttpCall) HttpAnswer Empty Fault}

theorem answerable (q : HttpCall) : ∃ a, q.valid a = true := by
  cases q with
  | sys q =>
    refine ⟨.sys (.error .other), ?_⟩
    cases q <;> rfl
  | httpCallback request => exact ⟨.response (.new true), rfl⟩

/-- **The loops come to rest.** A running server that nothing reaches from outside calls no more functors than
its rank, in whatever order, and none of them aborts. A loop whose queue is not empty can go on, and when all are
empty, each connection is in the map, or was asked to go and has been destroyed on its loop. -/
theorem loops_come_to_rest (h : (Service.machine (application b) τ).Reach (Service.each CalmEvents) c)
    (hc : c.crashed = none) (hrunning : c.st.server.phase = .running) {as : List (τ × List HttpAnswer)}
    (hrun : (Service.machine (application b) τ).system.run (fun _ _ => True) c (as.map Service.turn) = some c') :
    as.length ≤ c.st.server.rank ∧ c'.crashed = none ∧
      (∀ t, c'.st.server.queue t ≠ [] → ∃ answers c'',
        (Service.machine (application b) τ).step c' (Service.turn (t, answers)) = some c'') ∧
      ((∀ t, c'.st.server.queue t = []) → ∀ i, c'.st.server.Created i →
        (i ∈ c'.st.server.connections ↔ .removeConnection i ∉ c'.st.server.trace) ∧
        (i ∉ c'.st.server.connections →
          .connectDestroyed i (c'.st.server.loopOf i) ∈ c'.st.server.trace)) := by
  have hsettling := Service.settling (tame b) (fun _ _ hcalm => hcalm) h hc hrunning
  obtain ⟨h', hless, hgoes⟩ := Service.come_to_rest (tame b) answerable hsettling hrun
  refine ⟨hless, h'.alive, hgoes, fun hrest i hi => ?_⟩
  obtain ⟨hmap, hdestroyed, -⟩ := h'.held.at_rest hrest
  exact ⟨hmap h'.running i hi, hdestroyed i hi⟩

/-- The peer of a connection on another loop closes. Its removal waits on the first loop, which hands it over
to the second. -/
theorem loops_come_to_rest_two :
    ∃ c c', (Service.machine (application true) Bool).Reach (Service.each CalmEvents) c ∧
      (Service.machine (application true) Bool).system.run (fun _ _ => True) c
        ([(false, []), (true, [])].map Service.turn) = some c' ∧
      2 ≤ c.st.server.rank ∧ c'.crashed = none ∧ c'.st.server.Created 1 ∧
        (1 ∈ c'.st.server.connections ↔ .removeConnection 1 ∉ c'.st.server.trace) ∧
        (1 ∉ c'.st.server.connections →
          .connectDestroyed 1 (c'.st.server.loopOf 1) ∈ c'.st.server.trace) := by
  have hruns : ((Service.machine (application true) Bool).system.run
        ((Service.machine (application true) Bool).Meets (Service.each CalmEvents))
        (.initial (Service.new _ false [true]))
        [.start (.accept [5] .EAGAIN) [], .start (.functor true) [],
          .start (.event true 1 kReadEvent) [.sys (.bytes [])]]).bind (fun c =>
      ((Service.machine (application true) Bool).system.run (fun _ _ => True) c
        ([(false, []), (true, [])].map Service.turn)).map fun c' =>
          (c.crashed, c.st.server.phase, c'.st.server.nextConnId, decide (∀ t, c'.st.server.queue t = []))) =
        some (none, .running, 2, true) := by decide +kernel
  obtain ⟨c, hc, hruns⟩ := Option.bind_eq_some_iff.mp hruns
  obtain ⟨c', hc', heq⟩ := Option.map_eq_some_iff.mp hruns
  obtain ⟨hcrashed, hphase, hmade, hqueues⟩ : _ ∧ _ ∧ _ ∧ _ := by simpa only [Prod.mk.injEq] using heq
  have hreach : (Service.machine (application true) Bool).Reach (Service.each CalmEvents) c :=
    Machine.reach_of_run _ ⟨false, [true], rfl⟩ hc
  have hi : c'.st.server.Created 1 := ⟨Nat.le_refl 1, by rw [hmade]; decide⟩
  obtain ⟨hless, halive, -, hrest⟩ := loops_come_to_rest hreach hcrashed hphase hc'
  exact ⟨c, c', hreach, hc', hless, halive, hi, hrest (of_decide_eq_true hqueues) 1 hi⟩

end HttpServer

end Agora
