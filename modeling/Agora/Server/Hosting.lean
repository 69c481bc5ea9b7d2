import Agora.Code.Service
import Agora.Lib.Simulate
import Agora.Server.Pending

/-!
# What holds of a session on its own holds of each session of a server

Whatever the loops of a server do in any order, a session only sees the functions of its own connection.
-/

open Agora.Lib Agora.Lib.Prog

namespace Agora

variable {S Q ι : Type}

/-- The functions that a loop calls on a session keep the contract, for the events that `may` come. -/
structure Application.Preserves (A : Application S Q ι) (C : Contract S Q ι Empty Fault)
    (may : S → EventMask → Prop) : Prop where
  connectEstablished : ∀ t, C.inv t → (A.part.view t).state = .kConnecting →
    wpe C (A.part.run TcpConnection.connectEstablished) (fun t _ => C.inv t) t
  event : ∀ t revents, C.inv t → (A.part.view t).channel.index = .kAdded → may t revents →
    wpe C (A.part.run (TcpConnection.entry (.event revents))) (fun t _ => C.inv t) t
  connectDestroyed : ∀ t, C.inv t → wpe C (A.part.run TcpConnection.connectDestroyed) (fun t _ => C.inv t) t

/-- The contract also holds of a new session. -/
structure Application.Keeps (A : Application S Q ι) (C : Contract S Q ι Empty Fault)
    (may : S → EventMask → Prop) : Prop extends A.Preserves C may where
  new : ∀ sockfd, C.inv (A.part.put (A.newConn sockfd) A.blank)

theorem Application.Preserves.entry {A : Application S Q ι} {C : Contract S Q ι Empty Fault}
    {may : S → EventMask → Prop} (h : A.Preserves C may) {label : SessionLabel} {t : S}
    {p : Prog S Q ι Empty Fault Unit} (hp : A.entry label t = some p) (ht : C.inv t)
    (hmay : ∀ revents, label = .event revents → may t revents) : wpe C p (fun t _ => C.inv t) t := by
  cases label with
  | connectEstablished =>
    obtain ⟨hs, hp⟩ := Option.ite_none_right_eq_some.mp hp
    obtain rfl := Option.some.inj hp
    exact h.connectEstablished t ht hs
  | event revents =>
    obtain ⟨hindex, hp⟩ := Option.ite_none_right_eq_some.mp hp
    obtain rfl := Option.some.inj hp
    exact h.event t revents ht hindex (hmay revents rfl)
  | connectDestroyed =>
    obtain rfl := Option.some.inj hp
    exact h.connectDestroyed t ht

namespace Service

open TcpServer (Pending)

variable {A : Application S Q ι} {τ : Type} {C : Contract S Q ι Empty Fault} {now : Option Nat} {loop : τ}
  {s s' : Service A τ}

/-- Every session meets its invariant, but for `now`. -/
structure Hosted (C : Contract S Q ι Empty Fault) (now : Option Nat) (loop : τ) (s : Service A τ) : Prop where
  loop : s.server.loop = loop
  pending : Pending s.server
  callbacks : s.server.connectionCallback = A.connectionCallback ∧
    s.server.messageCallback = A.messageCallback ∧ s.server.writeCompleteCallback = A.writeCompleteCallback
  inv : ∀ i, s.server.Created i → some i ≠ now → C.inv (s.sessions i)
  blank : ∀ i, ¬ s.server.Created i → s.sessions i = A.part.put (.new 0 false false false false) A.blank

def hostContract (C : Contract S Q ι Empty Fault) (A : Application S Q ι) (τ : Type) :
    Contract (Service A τ) (Nat × Q) ι Empty Fault where
  inv s := Hosted C none s.server.loop s
  pre _ _ := True
  tolerates e s := e = .destroyedServer ∧ s.server.phase = .destroyed ∨
    ∃ i, s.server.Created i ∧ C.tolerates e (s.sessions i)
  allow s q a := C.allow (s.sessions q.1) q.2 a

/-- A server that accepts connections also stops when `accept4` fails in an unexpected way. -/
def acceptContract (C : Contract S Q ι Empty Fault) (A : Application S Q ι) (τ : Type) :
    Contract (Service A τ) (Nat × Q) ι Empty Fault :=
  { hostContract C A τ with tolerates := fun e s => e = .fatalAccept ∨ (hostContract C A τ).tolerates e s }

theorem wp_accept {guar rely : Service A τ → Service A τ → Prop} {p : ServiceM A τ Unit}
    {post : Service A τ → Service A τ → Unit → Prop} {s₀ : Service A τ}
    (h : wp (hostContract C A τ) guar rely p post s₀ s) : wp (acceptContract C A τ) guar rely p post s₀ s :=
  wp_tolerates_mono (fun _ _ => Or.inr) h

theorem setServer_sessions {server : TcpServer τ} {i : Nat} (h : server.conns i = s.server.conns i) :
    (setServer server s).sessions i = s.sessions i := by
  show A.part.put (server.conns i) (s.sessions i) = _
  rw [h, ← s.synced, A.lawful.put_view]

theorem sessionPart_lawful (A : Application S Q ι) (τ : Type) (i : Nat) : (sessionPart A τ i).Lawful where
  view_put _ _ := Function.update_self ..
  put_put _ _ _ := Service.ext (TcpServer.setConn_setConn ..) (Function.update_idem ..)
  put_view s := by
    refine Service.ext ?_ (Function.update_eq_self ..)
    show TcpServer.setConn i (A.part.view (s.sessions i)) s.server = s.server
    rw [s.synced, TcpServer.setConn_same]

theorem serverPart_lawful (A : Application S Q ι) (τ : Type) : (serverPart A τ).Lawful where
  view_put _ _ := rfl
  put_put c c' s := by
    refine Service.ext rfl (funext fun i => ?_)
    exact A.lawful.put_put _ _ _
  put_view s := by
    refine Service.ext rfl (funext fun i => ?_)
    show A.part.put (s.server.conns i) (s.sessions i) = s.sessions i
    rw [← s.synced, A.lawful.put_view]

/-! ## Changes outside the sessions -/

/-- Nothing has happened to a session. -/
structure Beside (C : Contract S Q ι Empty Fault) (now : Option Nat) (loop : τ) (s s' : Service A τ) :
    Prop where
  hosted : Hosted C now loop s'
  sessions : s'.sessions = s.sessions
  waits : ∀ i, s'.server.Waits i ↔ s.server.Waits i
  made : s'.server.nextConnId = s.server.nextConnId

theorem Hosted.beside (h : Hosted C now loop s) : Beside C now loop s s := ⟨h, rfl, fun _ => .rfl, rfl⟩

theorem setServer_same {server : TcpServer τ} (h : server.conns = s.server.conns) :
    (setServer server s).sessions = s.sessions := funext fun i => setServer_sessions (congrFun h i)

theorem Hosted.setServer (h : Hosted C now loop s) {server : TcpServer τ} (hp : Pending server)
    (hloop : server.loop = s.server.loop) (hmade : server.nextConnId = s.server.nextConnId)
    (hconns : server.conns = s.server.conns)
    (hcallbacks : server.connectionCallback = s.server.connectionCallback ∧
      server.messageCallback = s.server.messageCallback ∧
        server.writeCompleteCallback = s.server.writeCompleteCallback) :
    Hosted C now loop (setServer server s) := by
  have hcreated : ∀ i, server.Created i ↔ s.server.Created i := by
    intro i
    unfold TcpServer.Created
    rw [hmade]
  obtain ⟨ha, hb, hc⟩ := h.callbacks
  refine ⟨hloop.trans h.loop, hp, ⟨hcallbacks.1.trans ha, hcallbacks.2.1.trans hb, hcallbacks.2.2.trans hc⟩,
    fun i hi hnow => ?_, fun i hi => ?_⟩
  · rw [setServer_same hconns]
    exact h.inv i ((hcreated i).mp hi) hnow
  · rw [setServer_same hconns]
    exact h.blank i fun hin => hi ((hcreated i).mpr hin)

theorem Beside.setServer (h : Beside C now loop s s') {server : TcpServer τ} (hp : Pending server)
    (hwaits : ∀ i, server.Waits i ↔ s'.server.Waits i) (hloop : server.loop = s'.server.loop)
    (hmade : server.nextConnId = s'.server.nextConnId) (hconns : server.conns = s'.server.conns)
    (hcallbacks : server.connectionCallback = s'.server.connectionCallback ∧
      server.messageCallback = s'.server.messageCallback ∧
        server.writeCompleteCallback = s'.server.writeCompleteCallback) :
    Beside C now loop s (setServer server s') :=
  ⟨h.hosted.setServer hp hloop hmade hconns hcallbacks, (setServer_same hconns).trans h.sessions,
    fun i => (hwaits i).trans (h.waits i), hmade.trans h.made⟩

theorem Beside.emit (h : Beside C now loop s s') (phase : ServerPhase) (trace : List (ServerEvent τ)) :
    Beside C now loop s (Service.setServer { s'.server with phase := phase, trace := trace } s') :=
  h.setServer (h.hosted.pending.record phase trace) (fun _ => .rfl) rfl rfl rfl ⟨rfl, rfl, rfl⟩

theorem Beside.erase (h : Beside C now loop s s') (i : Nat) :
    Beside C now loop s
      (Service.setServer { s'.server with connections := s'.server.connections.erase i } s') :=
  h.setServer (h.hosted.pending.erase i) (fun _ => .rfl) rfl rfl rfl ⟨rfl, rfl, rfl⟩

variable [DecidableEq τ]

theorem Beside.push (h : Beside C now loop s s') {t : τ} {f : ServerFunctor} (hf : TcpServer.InPlace s'.server t f)
    (hne : ∀ i, f ≠ .connectEstablished i) :
    Beside C now loop s (Service.setServer (TcpServer.pushed t f s'.server) s') := by
  obtain ⟨hp, hwaits⟩ := h.hosted.pending.push hf hne
  exact h.setServer hp hwaits rfl rfl rfl ⟨rfl, rfl, rfl⟩

theorem removeConnectionInLoop_beside (h : Hosted C now loop s) {i : Nat} (hi : s.server.Created i)
    (s₀ : Service A τ) :
    wp (hostContract C A τ) (fun _ _ => True) (fun _ _ => True)
      ((serverPart A τ).run (TcpServer.removeConnectionInLoop i))
      (fun _ s' _ => Beside C now loop s s') s₀ s := by
  unfold TcpServer.removeConnectionInLoop TcpServer.emit TcpServer.queueInLoop
  simp only [Embedding.wp_run_bind, Embedding.wp_run_modify, Embedding.wp_run_read, Embedding.wp_run_assert]
  split
  · exact ((h.beside.emit _ _).erase i).push ⟨hi, rfl⟩ (by simp)
  · rename_i hphase
    rw [Bool.not_eq_true, decide_eq_false_iff_not, not_not] at hphase
    exact .inl ⟨rfl, hphase⟩

theorem removeConnection_beside (h : Hosted C now loop s) {i : Nat} (hi : s.server.Created i) (me : τ)
    (s₀ : Service A τ) :
    wp (hostContract C A τ) (fun _ _ => True) (fun _ _ => True)
      ((serverPart A τ).run (TcpServer.removeConnection me i))
      (fun _ s' _ => Beside C now loop s s') s₀ s := by
  have hemitted := h.beside.emit s.server.phase (s.server.trace ++ [.removeConnection i])
  unfold TcpServer.removeConnection TcpServer.emit TcpServer.queueInLoop
  simp only [Embedding.wp_run_bind, Embedding.wp_run_modify, Embedding.wp_run_read, Embedding.wp_run_assert,
    Embedding.wp_run_ite]
  split
  · split
    · refine wp_mono (removeConnectionInLoop_beside hemitted.hosted hi _) ?_
      intro _ s' _ h'
      exact ⟨h'.hosted, h'.sessions.trans hemitted.sessions, fun j => (h'.waits j).trans (hemitted.waits j),
        h'.made.trans hemitted.made⟩
    · exact hemitted.push ⟨hi, rfl⟩ (by simp)
  · rename_i hphase
    rw [Bool.not_eq_true, Bool.or_eq_false_iff, decide_eq_false_iff_not, not_not] at hphase
    exact .inl ⟨rfl, hphase.1⟩

/-! ## The functions of one connection -/

/-- The connection `i` has the thread. -/
structure Running (C : Contract S Q ι Empty Fault) (i : Nat) (loop : τ) (next : Nat) (s : Service A τ) :
    Prop where
  hosted : Hosted C (some i) loop s
  created : s.server.Created i
  idle : ¬ s.server.Waits i
  made : s.server.nextConnId = next

omit [DecidableEq τ] in
theorem Hosted.running (h : Hosted C none loop s) {i : Nat} (hi : s.server.Created i) (hidle : ¬ s.server.Waits i) :
    Running C i loop s.server.nextConnId s :=
  ⟨⟨h.loop, h.pending, h.callbacks, fun j hj _ => h.inv j hj nofun, h.blank⟩, hi, hidle, rfl⟩

omit [DecidableEq τ] in
theorem Running.done {i next : Nat} (h : Running C i loop next s) (hi : C.inv (s.sessions i)) :
    Hosted C none loop s := by
  refine ⟨h.hosted.loop, h.hosted.pending, h.hosted.callbacks, fun j hj _ => ?_, h.hosted.blank⟩
  rcases eq_or_ne j i with rfl | hne
  · exact hi
  · exact h.hosted.inv j hj fun heq => hne (Option.some.inj heq)

omit [DecidableEq τ] in
theorem Running.setSession {i next : Nat} (h : Running C i loop next s) (t : S) :
    Running C i loop next (setSession i t s) := by
  refine ⟨⟨h.hosted.loop, h.hosted.pending.setConn h.idle _, h.hosted.callbacks, fun j hj hnow => ?_,
    fun j hj => ?_⟩, h.created, h.idle, h.made⟩
  · have hne : j ≠ i := fun heq => hnow (congrArg some heq)
    show C.inv (Function.update s.sessions i t j)
    rw [Function.update_of_ne hne]
    exact h.hosted.inv j hj hnow
  · have hne : j ≠ i := by
      rintro rfl
      exact hj h.created
    show Function.update s.sessions i t j = _
    rw [Function.update_of_ne hne]
    exact h.hosted.blank j hj

omit [DecidableEq τ] in
theorem setServer_setConn (i : Nat) (c : TcpConnection) (s : Service A τ) :
    setServer (TcpServer.setConn i c s.server) s = setSession i (A.part.put c (s.sessions i)) s := by
  refine Service.ext ?_ (funext fun j => ?_)
  · show TcpServer.setConn i c s.server = TcpServer.setConn i (A.part.view (A.part.put c (s.sessions i))) s.server
    rw [A.lawful.view_put]
  · show A.part.put ((TcpServer.setConn i c s.server).conns j) (s.sessions j) = Function.update s.sessions i _ j
    rcases eq_or_ne j i with rfl | hne
    · rw [TcpServer.setConn_self, Function.update_self]
    · rw [TcpServer.setConn_other hne, Function.update_of_ne hne, ← s.synced, A.lawful.put_view]

/-- A callback of the user, and the removal of the connection behind `closeCallback_`. -/
theorem simulates_handler (me : τ) (i next : Nat) (u : Callback) :
    Simulates C (hostContract C A τ) (fun s => s.sessions i) (Running C i loop next)
      ((serverPart A τ).run (TcpServer.handler me i u)) (A.part.handler u) := by
  have huser : Simulates C (hostContract C A τ) (fun s => s.sessions i) (Running C i loop next)
      ((serverPart A τ).run (callback (i, u))) (A.part.handler u) := by
    have hpart : Simulates C (hostContract C A τ) (sessionPart A τ i).view (Running C i loop next)
        ((sessionPart A τ i).run (A.part.handler u)) (A.part.handler u) := by
      refine Simulates.part (sessionPart_lawful A τ i) (fun t _ h => h.setSession t) ?_ ?_ _
      · exact fun _ _ _ _ ha => ha
      · exact fun _ _ h ht => .inr ⟨i, h.created, ht⟩
    show Simulates _ _ _ _ (((sessionPart A τ i).run (A.part.handler u)).bind fun _ => .ret ()) _
    rw [bind_unit]
    exact hpart
  cases u with
  | close =>
    rw [A.close]
    refine Simulates.silent fun s h => ?_
    refine wp_mono (removeConnection_beside h.hosted h.created me s) fun _ s' _ h' => ?_
    refine ⟨⟨h'.hosted, ?_, fun hw => h.idle ((h'.waits i).mp hw), h'.made.trans h.made⟩, congrFun h'.sessions i⟩
    unfold TcpServer.Created
    rw [h'.made]
    exact h.created
  | connection | message | writeComplete => exact huser

theorem simulates_conn (me : τ) (i next : Nat) (p : ConnM Unit) :
    Simulates C (hostContract C A τ) (fun s => s.sessions i) (Running C i loop next)
      ((serverPart A τ).run (TcpServer.onConn me i p)) (A.part.run p) := by
  have hinside : Simulates C (hostContract C A τ) (fun s => s.sessions i) (Running C i loop next)
      (((TcpServer.connPart i (TcpServer.handler me i)).inside (serverPart A τ)).run p) (A.part.run p) := by
    refine Simulates.run (fun s => (s.synced i).symm) (fun c s => ?_) (fun c s h => ?_) ?_ ?_
      (simulates_handler me i next) p
    · show (setServer (TcpServer.setConn i c s.server) s).sessions i = _
      rw [setServer_setConn]
      exact Function.update_self ..
    · show Running C i loop next (setServer (TcpServer.setConn i c s.server) s)
      rw [setServer_setConn]
      exact h.setSession _
    · exact fun s q a ha => ⟨a, ha, rfl⟩
    · exact fun e s h ht => .inr ⟨i, h.created, ht⟩
  intro post s hs h
  exact (Embedding.wp_run_run _ _ p _ s s).mpr (hinside post s hs h)

/-- Nothing has happened to the number of connections. -/
structure After (C : Contract S Q ι Empty Fault) (loop : τ) (next : Nat) (s : Service A τ) : Prop where
  hosted : Hosted C none loop s
  made : s.server.nextConnId = next

theorem onConn_hosted {i next : Nat} (h : Running C i loop next s) (me : τ) {p : ConnM Unit}
    (hp : wpe C (A.part.run p) (fun t _ => C.inv t) (s.sessions i)) (s₀ : Service A τ) :
    wp (hostContract C A τ) (fun _ _ => True) (fun _ _ => True) ((serverPart A τ).run (TcpServer.onConn me i p))
      (fun _ s' _ => After C loop next s') s₀ s :=
  wp_start (wpe_mono (simulates_conn me i next p _ s h hp) fun _ _ ⟨h, hi⟩ => ⟨h.done hi, h.made⟩)

end Service

end Agora
