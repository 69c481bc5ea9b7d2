import Agora.Code.Servers
import Agora.Server.Hosting

/-! # Every session of a server is a run of the application's own machine -/

open Agora.Lib Agora.Lib.Prog

namespace Agora

variable {S Q ι τ : Type} {A : Application S Q ι} {C : Contract S Q ι Empty Fault}
  {may : S → EventMask → Prop}

namespace Service

open TcpServer (Pending)

variable {loop : τ} {s : Service A τ}

/-! ## A new connection -/

theorem accept_hosted (hkeeps : A.Keeps C may) (h : Hosted C none loop s) (sockfd next : Nat) (ioLoop : τ) :
    Hosted C none loop (setServer (TcpServer.accepted sockfd ioLoop next s.server) s) := by
  have hp := h.pending.accept sockfd next ioLoop
  have hother : ∀ i, i ≠ s.server.nextConnId →
      (setServer (TcpServer.accepted sockfd ioLoop next s.server) s).sessions i = s.sessions i :=
    fun i hne => setServer_sessions (TcpServer.accepted_conns hne)
  refine ⟨h.loop, hp.1, h.callbacks, fun i hi _ => ?_, fun i hi => ?_⟩
  · rcases (TcpServer.created_accepted h.pending.made).mp hi with hold | rfl
    · rw [hother i hold.ne_next]
      exact h.inv i hold nofun
    · have hnew : ¬ s.server.Created s.server.nextConnId := fun hin => hin.ne_next rfl
      show C.inv (A.part.put ((TcpServer.accepted sockfd ioLoop next s.server).conns _) (s.sessions _))
      obtain ⟨ha, hb, hc⟩ := h.callbacks
      rw [TcpServer.accepted_made, h.blank _ hnew, A.lawful.put_put, ha, hb, hc]
      exact hkeeps.new sockfd
  · have hold : ¬ s.server.Created i ∧ i ≠ s.server.nextConnId :=
      not_or.mp fun hin => hi ((TcpServer.created_accepted h.pending.made).mpr hin)
    rw [hother i hold.2]
    exact h.blank i hold.1

variable [DecidableEq τ]

theorem connectEstablished_hosted (hkeeps : A.Keeps C may) (h : Hosted C none loop s) {i : Nat}
    (hi : s.server.Created i) (hidle : ¬ s.server.Waits i) (hs : (s.server.conns i).state = .kConnecting) (me : τ)
    (s₀ : Service A τ) :
    wp (hostContract C A τ) (fun _ _ => True) (fun _ _ => True)
      ((serverPart A τ).run (TcpServer.connectEstablished me i))
      (fun _ s' _ => After C loop s.server.nextConnId s') s₀ s := by
  have h' := h.beside.emit s.server.phase (s.server.trace ++ [.connectEstablished i me])
  unfold TcpServer.connectEstablished TcpServer.emit
  simp only [Embedding.wp_run_bind, Embedding.wp_run_modify]
  refine onConn_hosted (h'.hosted.running hi hidle) me ?_ _
  rw [h'.sessions]
  exact hkeeps.connectEstablished _ (h.inv i hi nofun) ((congrArg _ (s.synced i)).trans hs)

theorem connectDestroyed_hosted (hkeeps : A.Keeps C may) (h : Hosted C none loop s) {i : Nat}
    (hi : s.server.Created i) (hidle : ¬ s.server.Waits i) (me : τ) (s₀ : Service A τ) :
    wp (hostContract C A τ) (fun _ _ => True) (fun _ _ => True)
      ((serverPart A τ).run (TcpServer.connectDestroyed me i))
      (fun _ s' _ => After C loop s.server.nextConnId s') s₀ s := by
  have h' := h.beside.emit s.server.phase (s.server.trace ++ [.connectDestroyed i me])
  unfold TcpServer.connectDestroyed TcpServer.emit
  simp only [Embedding.wp_run_bind, Embedding.wp_run_modify]
  refine onConn_hosted (h'.hosted.running hi hidle) me ?_ _
  rw [h'.sessions]
  exact hkeeps.connectDestroyed _ (h.inv i hi nofun)

theorem newConnection_hosted (hkeeps : A.Keeps C may) (h : Hosted C none loop s) (sockfd : Nat)
    (s₀ : Service A τ) :
    wp (hostContract C A τ) (fun _ _ => True) (fun _ _ => True)
      ((serverPart A τ).run (TcpServer.newConnection loop sockfd)) (fun _ s' _ => Hosted C none loop s') s₀ s := by
  have hnew := accept_hosted hkeeps h sockfd s.server.getNextLoop.2 s.server.getNextLoop.1
  have hcreated : (TcpServer.accepted sockfd s.server.getNextLoop.1 s.server.getNextLoop.2 s.server).Created
      s.server.nextConnId := (TcpServer.created_accepted h.pending.made).mpr (.inr rfl)
  unfold TcpServer.newConnection TcpServer.queueInLoop
  simp only [Embedding.wp_run_bind, Embedding.wp_run_read, Embedding.wp_run_modify, Embedding.wp_run_ite]
  split
  · refine wp_mono (connectEstablished_hosted hkeeps hnew hcreated (h.pending.accept ..).2 ?_ loop s₀) ?_
    · exact congrArg TcpConnection.state (TcpServer.accepted_made ..)
    · exact fun _ _ _ h => h.hosted
  · rename_i hne
    rw [← h.loop] at hne
    exact hnew.setServer (h.pending.acceptElsewhere sockfd _ hne) rfl rfl rfl ⟨rfl, rfl, rfl⟩

theorem handleRead_hosted (hkeeps : A.Keeps C may) (h : Hosted C none loop s) (errno : AcceptErrno)
    (connfds : List Nat) (s₀ : Service A τ) :
    wp (acceptContract C A τ) (fun _ _ => True) (fun _ _ => True)
      ((serverPart A τ).run
        (Acceptor.handleRead (some (TcpServer.newConnection loop)) (fun _ => pure ()) errno connfds))
      (fun _ s' _ => Hosted C none loop s') s₀ s := by
  induction connfds generalizing s₀ s with
  | nil =>
    cases errno with
    | unexpected => exact .inl rfl
    | EAGAIN | ECONNABORTED | EINTR | EPROTO | EPERM | EMFILE => exact h
  | cons connfd connfds ih =>
    unfold Acceptor.handleRead
    simp only [Embedding.wp_run_bind]
    refine wp_mono (wp_accept (newConnection_hosted hkeeps h connfd s₀)) fun s₀ s' _ h' => ?_
    exact ih h' s₀

/-! ## A functor, and the destructor -/

theorem runFunctor_hosted (hkeeps : A.Keeps C may) (h : Hosted C none loop s) {me : τ} {f : ServerFunctor}
    {rest : List ServerFunctor} (hq : s.server.queue me = f :: rest) (s₀ : Service A τ) :
    wp (hostContract C A τ) (fun _ _ => True) (fun _ _ => True)
      ((serverPart A τ).run (TcpServer.runFunctor me f)) (fun _ s' _ => Hosted C none loop s') s₀
      (setServer (TcpServer.popped me rest s.server) s) := by
  obtain ⟨hp, hidle⟩ := h.pending.pop hq
  have h' : Hosted C none loop (setServer (TcpServer.popped me rest s.server) s) :=
    h.setServer hp rfl rfl rfl ⟨rfl, rfl, rfl⟩
  have hin : f ∈ s.server.queue me := by
    rw [hq]
    exact List.mem_cons_self
  have hplaced := h.pending.placed me f hin
  cases f with
  | connectEstablished i =>
    obtain ⟨hi, hloop⟩ := hplaced
    have hs : (s.server.conns i).state = .kConnecting := by
      refine (h.pending.waits i ?_).1
      unfold TcpServer.Waits
      rwa [hloop]
    exact wp_mono (connectEstablished_hosted hkeeps h' hi (hidle i (.inl rfl)) hs me s₀) fun _ _ _ h => h.hosted
  | connectDestroyed i =>
    exact wp_mono (connectDestroyed_hosted hkeeps h' hplaced.1 (hidle i (.inr rfl)) me s₀) fun _ _ _ h => h.hosted
  | removeConnectionInLoop i => exact wp_mono (removeConnectionInLoop_beside h' hplaced.1 s₀) fun _ _ _ h => h.hosted

theorem destroyConnections_hosted (hkeeps : A.Keeps C may) (h : Hosted C none loop s) {entries : List Nat}
    (hentries : ∀ i ∈ entries, s.server.Created i) (s₀ : Service A τ) :
    wp (hostContract C A τ) (fun _ _ => True) (fun _ _ => True)
      ((serverPart A τ).run (TcpServer.destroyConnections loop entries))
      (fun _ s' _ => Hosted C none loop s') s₀ s := by
  induction entries generalizing s₀ s with
  | nil => exact h
  | cons i rest ih =>
    have hi := hentries i List.mem_cons_self
    have herased := (h.beside.erase i).hosted
    have hgoes : ∀ s₀ s', After C loop s.server.nextConnId s' →
        wp (hostContract C A τ) (fun _ _ => True) (fun _ _ => True)
          ((serverPart A τ).run (TcpServer.destroyConnections loop rest))
          (fun _ s' _ => Hosted C none loop s') s₀ s' := by
      refine fun s₀ s' h' => ih h'.hosted (fun j hj => ?_) s₀
      unfold TcpServer.Created
      rw [h'.made]
      exact hentries j (List.mem_cons_of_mem i hj)
    unfold TcpServer.destroyConnections TcpServer.queueInLoop
    simp only [Embedding.wp_run_bind, Embedding.wp_run_read, Embedding.wp_run_when,
      Embedding.wp_run_modify, Embedding.wp_run_ite]
    split
    · split
      · rename_i hloop
        have hidle : ¬ s.server.Waits i := fun hw => (h.pending.waits i hw).2 (hloop.trans h.loop.symm)
        exact wp_mono (connectDestroyed_hosted hkeeps herased hi hidle loop s₀) fun s₀ s' _ h' => hgoes s₀ s' h'
      · have hpushed := herased.beside.push (t := s.server.loopOf i) (f := .connectDestroyed i) ⟨hi, rfl⟩
          (by simp)
        exact hgoes s₀ _ ⟨hpushed.hosted, rfl⟩
    · exact hgoes s₀ s ⟨h, rfl⟩

theorem destroy_hosted (hkeeps : A.Keeps C may) (h : Hosted C none loop s) {entries : List Nat}
    (hentries : ∀ i ∈ entries, s.server.Created i) (s₀ : Service A τ) :
    wp (hostContract C A τ) (fun _ _ => True) (fun _ _ => True)
      ((serverPart A τ).run (TcpServer.destroy loop entries)) (fun _ s' _ => Hosted C none loop s') s₀ s := by
  have hemitted := (h.beside.emit s.server.phase (s.server.trace ++ [.destructing])).hosted
  have hdestructing := (hemitted.beside.emit .destructing (s.server.trace ++ [.destructing])).hosted
  unfold TcpServer.destroy TcpServer.emit
  simp only [Embedding.wp_run_bind, Embedding.wp_run_modify]
  refine wp_mono (destroyConnections_hosted hkeeps hdestructing hentries s₀) fun _ s' _ h' => ?_
  exact (h'.beside.emit .destroyed s'.server.trace).hosted

/-! ## An event -/

theorem event_hosted (hkeeps : A.Keeps C may) (h : Hosted C none loop s) {me : τ} {i : Nat} {revents : EventMask}
    (hindex : (s.server.conns i).channel.index = .kAdded) (hs : (s.server.conns i).state ≠ .kConnecting)
    (hmay : may (s.sessions i) revents) (s₀ : Service A τ) :
    wp (hostContract C A τ) (fun _ _ => True) (fun _ _ => True)
      ((serverPart A τ).run (TcpServer.onConn me i (TcpConnection.entry (.event revents))))
      (fun _ s' _ => Hosted C none loop s') s₀ s := by
  have hview : (A.part.view (s.sessions i)).channel.index = .kAdded := by
    rw [s.synced]
    exact hindex
  have hi : s.server.Created i := by
    by_contra hn
    rw [h.blank i hn, A.lawful.view_put] at hview
    cases hview
  have hidle : ¬ s.server.Waits i := fun hw => hs (h.pending.waits i hw).1
  refine wp_mono (onConn_hosted (h.running hi hidle) me ?_ s₀) fun _ _ _ h => h.hosted
  exact hkeeps.event _ revents (h.inv i hi nofun) hview hmay

/-! ## Every run -/

/-- A condition on each session, for the server. -/
def each (cond : Machine.Condition S Q ι EventMask) :
    Machine.Condition (Service A τ) (Nat × Q) ι (ServiceLabel τ) where
  label s
    | .event _ i revents => cond.label (s.sessions i) revents
    | _ => True
  answer s q a := cond.answer (s.sessions q.1) q.2 a

instance {cond : Machine.Condition S Q ι EventMask} [∀ t revents, Decidable (cond.label t revents)]
    (s : Service A τ) : ∀ label, Decidable ((each cond).label s label)
  | .event _ i revents => inferInstanceAs (Decidable (cond.label (s.sessions i) revents))
  | .accept _ _ | .functor _ | .destroy _ => .isTrue trivial

instance {cond : Machine.Condition S Q ι EventMask} [∀ t q a, Decidable (cond.answer t q a)] (s : Service A τ)
    (q : Nat × Q) (a : ι) : Decidable ((each cond).answer s q a) :=
  inferInstanceAs (Decidable (cond.answer (s.sessions q.1) q.2 a))

omit [DecidableEq τ] in
theorem each_anyStep : each (A := A) (τ := τ) Machine.anyStep = Machine.anyStep := by
  unfold each
  congr 1
  funext s label
  cases label <;> rfl

omit [DecidableEq τ] in
theorem new_hosted (A : Application S Q ι) (loop : τ) (loops : List τ) : Hosted C none loop (new A loop loops) :=
  ⟨rfl, TcpServer.new_pending .., ⟨rfl, rfl, rfl⟩, fun _ hi _ => absurd hi.2 (Nat.not_lt.mpr hi.1),
    fun _ _ => rfl⟩

omit [DecidableEq τ] in
theorem Hosted.again (h : Hosted C none loop s) : (hostContract C A τ).inv s := by
  show Hosted C none s.server.loop s
  rw [h.loop]
  exact h

theorem functor_hosted (hkeeps : A.Keeps C may) (h : Hosted C none s.server.loop s) {me : τ}
    {p : ServiceM A τ Unit} (hp : entry (.functor me) s = some p) :
    wp (hostContract C A τ) (fun _ _ => True) (fun _ _ => True) p
      (fun _ s' _ => Hosted C none s.server.loop s') s s := by
  obtain ⟨p, hentry, rfl⟩ := Option.map_eq_some_iff.mp hp
  unfold serverEntry TcpServer.entry at hentry
  simp only at hentry
  split at hentry
  · cases hentry
  · rename_i f rest hq
    obtain rfl := Option.some.inj hentry
    simp only [Embedding.wp_run_bind, Embedding.wp_run_modify]
    exact runFunctor_hosted hkeeps h hq s

theorem entry_hosted (hkeeps : A.Keeps C may) (h : Hosted C none s.server.loop s) {label : ServiceLabel τ}
    {p : ServiceM A τ Unit} (hp : entry label s = some p)
    (hmay : ∀ me i revents, label = .event me i revents → may (s.sessions i) revents) :
    wp (acceptContract C A τ) (fun _ _ => True) (fun _ _ => True) p
      (fun _ s' _ => Hosted C none s.server.loop s') s s := by
  have hfunctor : ∀ me, label = .functor me → wp (hostContract C A τ) (fun _ _ => True) (fun _ _ => True) p
      (fun _ s' _ => Hosted C none s.server.loop s') s s := by
    rintro me rfl
    exact functor_hosted hkeeps h hp
  obtain ⟨p, hentry, rfl⟩ := Option.map_eq_some_iff.mp hp
  cases label with
  | accept connfds errno =>
    obtain ⟨-, hp⟩ := Option.ite_none_right_eq_some.mp hentry
    obtain rfl := Option.some.inj hp
    exact handleRead_hosted hkeeps h errno connfds s
  | functor me => exact wp_accept (hfunctor me rfl)
  | event me i revents =>
    obtain ⟨hindex, hp⟩ := Option.ite_none_right_eq_some.mp hentry
    obtain ⟨-, -, hs, rfl⟩ := TcpServer.entry_conn hp
    exact wp_accept (event_hosted hkeeps h hindex hs (hmay me i revents rfl) s)
  | destroy entries =>
    obtain ⟨⟨-, -, hperm⟩, hp⟩ := Option.ite_none_right_eq_some.mp hentry
    obtain rfl := Option.some.inj hp
    refine wp_accept (destroy_hosted hkeeps h (fun i hi => ?_) s)
    exact h.pending.connections i (hperm.mem_iff.mp hi)

theorem keeps {cond : Machine.Condition S Q ι EventMask} (hkeeps : A.Keeps C cond.label)
    (hallow : ∀ s q a, A.valid q a = true → cond.answer s q a → C.allow s q a) :
    (machine A τ).Keeps (acceptContract C A τ) (fun _ _ _ => True) (each cond) := by
  refine .of_inv ?_ (fun s q a => hallow (s.sessions q.1) q.2 a) fun label s p hp hmay h => ?_
  · rintro _ ⟨loop, loops, rfl⟩
    exact new_hosted A loop loops
  · refine wp_mono (entry_hosted hkeeps h hp ?_) fun _ s' _ h' => h'.again
    rintro me i revents rfl
    exact hmay

/-- **The rule for sessions.** What the functions of a session keep holds of every session of a server. -/
theorem session_inv {cond : Machine.Condition S Q ι EventMask} (hkeeps : A.Keeps C cond.label)
    (hallow : ∀ s q a, A.valid q a = true → cond.answer s q a → C.allow s q a)
    {c : Config Unit (Service A τ) (Nat × Q) ι Empty Fault} (h : (machine A τ).Reach (each cond) c)
    (hc : c.crashed = none) {i : Nat} (hi : c.st.server.Created i) : C.inv (c.st.sessions i) :=
  (((keeps hkeeps hallow).runOk h).inv hc).inv i hi nofun

end Service

/-! ## The strongest contract -/

/-- The condition on what comes from outside, for a session on its own. -/
def Application.alone (cond : Machine.Condition S Q ι EventMask) : Machine.Condition S Q ι SessionLabel where
  label t
    | .event revents => cond.label t revents
    | _ => True
  answer := cond.answer

theorem Application.runs_keeps (A : Application S Q ι) (cond : Machine.Condition S Q ι EventMask) :
    A.Keeps (A.machine.runs (Application.alone cond)) cond.label where
  new sockfd := .init ⟨_, ⟨sockfd, rfl⟩, rfl⟩
  connectEstablished _ h hs := A.machine.runs_entry _ .connectEstablished (if_pos hs) trivial h
  event _ revents h hindex hmay := A.machine.runs_entry _ (.event revents) (if_pos hindex) hmay h
  connectDestroyed _ h := A.machine.runs_entry _ .connectDestroyed rfl trivial h

/-- **Hosting.** Whatever the loops of a server do, in any order, each of its connections is in a state that the
session reaches on its own. The server crashes only as one of its sessions does, when `accept4` fails in an
unexpected way, or when a functor calls it behind its destructor. -/
theorem Service.session_reach [DecidableEq τ] {cond : Machine.Condition S Q ι EventMask}
    {c : Config Unit (Service A τ) (Nat × Q) ι Empty Fault}
    (h : (Service.machine A τ).Reach (Service.each cond) c) :
    (c.crashed = none → ∀ i, c.st.server.Created i →
      A.machine.Reach (Application.alone cond) (.initial (c.st.sessions i))) ∧
    ∀ e, c.crashed = some e → e = .fatalAccept ∨ e = .destroyedServer ∧ c.st.server.phase = .destroyed ∨
      ∃ i, c.st.server.Created i ∧
        A.machine.Reach (Application.alone cond) ⟨c.st.sessions i, fun _ => [], none, some e⟩ := by
  have hok := (Service.keeps (τ := τ) (A.runs_keeps cond) fun _ _ _ hv ha => ⟨hv, ha⟩).runOk h
  exact ⟨fun hc i hi => (hok.inv hc).inv i hi nofun, hok.crash⟩

/-- Two connections on two loops, in one of which a byte arrives. -/
theorem Service.session_reach_two :
    ∃ c, (Service.machine EchoServer.application Bool).Reach (Service.each Machine.anyStep) c ∧
      c.crashed = none ∧ c.st.server.nextConnId = 3 ∧
      ((c.crashed = none → ∀ i, c.st.server.Created i →
        EchoServer.application.machine.Reach (Application.alone Machine.anyStep) (.initial (c.st.sessions i))) ∧
      ∀ e, c.crashed = some e → e = .fatalAccept ∨ e = .destroyedServer ∧ c.st.server.phase = .destroyed ∨
        ∃ i, c.st.server.Created i ∧ EchoServer.application.machine.Reach (Application.alone Machine.anyStep)
          ⟨c.st.sessions i, fun _ => [], none, some e⟩) := by
  have hrun : ((Service.machine EchoServer.application Bool).system.run (fun _ _ => True)
      (.initial (Service.new _ false [true, false]))
      [.start (.accept [5, 6] .EAGAIN) [], .start (.functor true) [],
        .start (.event true 1 kReadEvent) [.bytes [97], .count 1]]).map
      (fun c => (c.crashed, c.st.server.nextConnId)) = some (none, 3) := by decide +kernel
  obtain ⟨c, hc, heq⟩ := Option.map_eq_some_iff.mp hrun
  obtain ⟨hcrashed, hmade⟩ : _ ∧ _ := by simpa only [Prod.mk.injEq] using heq
  have hreach := (Service.machine EchoServer.application Bool).reachable_of_run ⟨false, [true, false], rfl⟩ hc
  have hany : (Service.machine EchoServer.application Bool).Reach (Service.each Machine.anyStep) c := by
    rw [Service.each_anyStep]
    exact hreach
  exact ⟨c, hany, hcrashed, hmade, Service.session_reach hany⟩

end Agora
