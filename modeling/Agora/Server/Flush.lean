import Agora.Conn.Closed
import Agora.Conn.Flush
import Agora.Server.HalfClose
import Mathlib.Algebra.GroupWithZero.Nat

/-! # That the output of a server gets out -/

open Agora.Lib Agora.Lib.Prog Agora.Spec

namespace Agora

open TcpConnection (Flushing Writes)

variable {S Q ι τ : Type} {A : Application S Q ι} {cond : Machine.Condition S Q ι EventMask}
variable {reply : SysResult → ι}

/-- A session has the results of its system calls as `reply`, and the condition is none on `::write`. -/
structure Application.Relays (A : Application S Q ι) (cond : Machine.Condition S Q ι EventMask)
    (reply : SysResult → ι) : Prop where
  back : ∀ a, A.part.back (reply a) = a
  valid : ∀ q a, q.valid a = true → A.valid (A.part.lift q) (reply a) = true
  label : ∀ t, cond.label t kWriteEvent
  allow : ∀ t len a, cond.answer t (A.part.lift (.write len)) (reply a)
  writeComplete : A.part.handler .writeComplete = pure ()

namespace Service

/-- The kernel takes `n` bytes of the connection `i`. -/
def writable (reply : SysResult → ι) (t : τ) (i n : Nat) : Action Unit ι (ServiceLabel τ) :=
  .start (.event t i kWriteEvent) [reply (.count n)]

/-- What a call is answered with, and that the condition is met. -/
def Relayed (A : Application S Q ι) (cond : Machine.Condition S Q ι EventMask) (s : Service A τ)
    (q : Nat × Q) (a : ι) : Prop := A.valid q.2 a = true ∧ cond.answer (s.sessions q.1) q.2 a

variable [DecidableEq τ]

theorem event_entry {s : Service A τ} {i : Nat} (me : τ) (revents : EventMask)
    (hindex : (s.server.conns i).channel.index = .kAdded) (hmade : i < s.server.nextConnId)
    (hloop : s.server.loopOf i = me) (hup : (s.server.conns i).state ≠ .kConnecting) :
    entry (.event me i revents) s =
      some ((serverPart A τ).run (TcpServer.onConn me i (TcpConnection.entry (.event revents)))) := by
  have hserver : serverEntry (.event me i revents) s.server =
      some (TcpServer.onConn me i (TcpConnection.entry (.event revents))) :=
    (if_pos hindex).trans (if_pos ⟨hmade, hloop, hup⟩)
  unfold entry
  rw [hserver]
  rfl

theorem event_ends (h : A.Relays cond reply) {s : Service A τ} {i n : Nat} (me : τ)
    (hon : (s.server.conns i).channel.isWriting = true) (hpos : 0 < n)
    (hle : n ≤ (s.server.conns i).outputBuffer.readable.length) :
    ((serverPart A τ).run (TcpServer.onConn me i (TcpConnection.entry (.event kWriteEvent)))).Ends
      (fun _ => False) (Relayed A cond)
      (setSession i (A.part.put ((s.server.conns i).flushed n) (s.sessions i)) s) () s
      [reply (.count n)] := by
  -- the callback of the connection reaches the session, which does nothing at it
  have hconn : (TcpServer.onConn me i (TcpConnection.entry (.event kWriteEvent))).Ends
      (fun u => u.2 = .writeComplete) (fun _ q => Writes q.2)
      (s.server.setConn i ((s.server.conns i).flushed n)) () s.server [.count n] := by
    refine Embedding.ends_run (TcpServer.connPart_lawful i (TcpServer.handler me i)) id (fun _ => rfl)
      (fun _ _ _ ha => ha) ?_ rfl (TcpConnection.event_ends hon hpos hle)
    rintro u rfl s
    exact ⟨rfl, rfl, rfl, rfl⟩
  rw [← setServer_setConn]
  refine Embedding.ends_run (serverPart_lawful A τ) reply h.back
    ?_ ?_ rfl hconn
  · rintro s ⟨j, q⟩ a ⟨⟨len, hwrite⟩, hvalid⟩
    obtain rfl : q = .write len := hwrite
    exact ⟨h.valid _ _ hvalid, h.allow _ _ _⟩
  · rintro ⟨j, u⟩ rfl s
    show Ends _ _ _ _ ((sessionPart A τ j).run (A.part.handler .writeComplete)) _ _
    rw [h.writeComplete]
    exact ⟨rfl, rfl, rfl⟩

/-- The run from `c` to `c'` has only sent output of the connection `i`, and `left` of it is still to come. -/
structure Flows (cond : Machine.Condition S Q ι EventMask) (i : Nat)
    (c : Config Unit (Service A τ) (Nat × Q) ι Empty Fault) (left : List Byte)
    (c' : Config Unit (Service A τ) (Nat × Q) ι Empty Fault) : Prop where
  reach : (machine A τ).Reach (each cond) c'
  running : c'.crashed = none
  sent : ∃ conn, c'.st = setSession i (A.part.put conn (c.st.sessions i)) c.st ∧
    Flushing (c.st.server.conns i) left conn

variable {c c' : Config Unit (Service A τ) (Nat × Q) ι Empty Fault} {i n : Nat} {left : List Byte}

theorem Flows.refl (h : (machine A τ).Reach (each cond) c) (hc : c.crashed = none)
    (hready : (c.st.server.conns i).outputBuffer.readable ≠ [] →
      (c.st.server.conns i).channel.isWriting = true ∧ (c.st.server.conns i).channel.index = .kAdded) :
    Flows cond i c (c.st.server.conns i).outputBuffer.readable c := by
  refine ⟨h, hc, _, ?_, .refl hready⟩
  rw [← setServer_setConn, TcpServer.setConn_same]
  exact ((serverPart_lawful A τ).put_view c.st).symm

theorem Flows.step (hrelays : A.Relays cond reply) (h : Flows cond i c left c') (hi : c.st.server.Created i)
    (hs : (c.st.server.conns i).state ≠ .kConnecting) (hpos : 0 < n) (hle : n ≤ left.length) :
    ∃ c'', (machine A τ).step c' (writable reply (c.st.server.loopOf i) i n) = some c'' ∧
      Flows cond i c (left.drop n) c'' := by
  obtain ⟨hreach, hc, conn, hst, hflushing⟩ := h
  have hconn : c'.st.server.conns i = conn := by
    rw [hst, ← setServer_setConn]
    exact TcpServer.setConn_self ..
  have hidle : c'.frames () = [] := by
    cases hframes : c'.frames () with
    | nil => rfl
    | cons f rest => exact f.1.elim
  have hne : left ≠ [] := by
    rintro rfl
    exact Nat.not_lt.mpr hle hpos
  obtain ⟨hon, hindex⟩ := hflushing.ready hne
  have hentry := event_entry (s := c'.st) (i := i) (c.st.server.loopOf i) kWriteEvent (by rwa [hconn])
    (by rw [hst]; exact hi.2) (by rw [hst]; rfl) (by rwa [hconn, hflushing.state])
  have hend := event_ends hrelays (s := c'.st) (i := i) (n := n) (c.st.server.loopOf i) (by rwa [hconn])
    hpos (by rwa [hconn, hflushing.output])
  have hmeets : (machine A τ).Meets (each cond) c' (writable reply (c.st.server.loopOf i) i n) := by
    refine ⟨hrelays.label _, fun p hp => ?_⟩
    obtain rfl := Option.some.inj (hentry.symm.trans hp)
    exact hend.meets fun _ _ _ hok => hok.2
  have hstep : (machine A τ).step c' (writable reply (c.st.server.loopOf i) i n) = some ⟨_, _, _, _⟩ :=
    Machine.step_start_done (fun _ _ _ hok => hok.1) hc hidle hentry hend
  refine ⟨_, hstep, .step hreach hmeets hstep, rfl, conn.flushed n, ?_, hflushing.flushed⟩
  have hsession : c'.st.sessions i = A.part.put conn (c.st.sessions i) := by
    rw [hst]
    exact Function.update_self ..
  show setSession i (A.part.put ((c'.st.server.conns i).flushed n) (c'.st.sessions i)) c'.st = _
  rw [hconn, hsession, A.lawful.put_put, hst]
  exact (sessionPart_lawful A τ i).put_put ..

/-- The portions `ns` make up the output that is still to come. -/
def ToCome (cond : Machine.Condition S Q ι EventMask) (i : Nat)
    (c : Config Unit (Service A τ) (Nat × Q) ι Empty Fault) (ns : List Nat)
    (c' : Config Unit (Service A τ) (Nat × Q) ι Empty Fault) : Prop :=
  (∀ n ∈ ns, 0 < n) ∧ ∃ left, ns.sum = left.length ∧ Flows cond i c left c'

theorem flush (hrelays : A.Relays cond reply) (h : (machine A τ).Reach (each cond) c) (hc : c.crashed = none)
    (hi : c.st.server.Created i) (hs : (c.st.server.conns i).state ≠ .kConnecting)
    (hready : (c.st.server.conns i).outputBuffer.readable ≠ [] →
      (c.st.server.conns i).channel.isWriting = true ∧ (c.st.server.conns i).channel.index = .kAdded)
    {ns : List Nat} (hpos : ∀ n ∈ ns, 0 < n)
    (hsum : ns.sum = (c.st.server.conns i).outputBuffer.readable.length) :
    ∃ c', (machine A τ).system.run (fun _ _ => True) c
        (ns.map (writable reply (c.st.server.loopOf i) i)) = some c' ∧
      Flows cond i c [] c' := by
  have hrun : ∃ c', (machine A τ).system.run (fun _ _ => True) c
      (ns.map (writable reply (c.st.server.loopOf i) i)) = some c' ∧ ToCome cond i c [] c' := by
    refine System.run_of_steps _ _ ?_ ⟨hpos, _, hsum, .refl h hc hready⟩
    rintro n ns c' ⟨hpos, left, hlength, hflows⟩
    rw [List.sum_cons] at hlength
    obtain ⟨c'', hstep, hflows⟩ := hflows.step hrelays hi hs (hpos n List.mem_cons_self) (by omega)
    refine ⟨trivial, c'', hstep, fun m hm => hpos m (List.mem_cons_of_mem n hm), _, ?_, hflows⟩
    rw [List.length_drop]
    omega
  obtain ⟨c', hc', -, left, hlength, hflows⟩ := hrun
  obtain rfl := List.length_eq_zero_iff.mp hlength.symm
  exact ⟨c', hc', hflows⟩

theorem Flows.conn (h : Flows cond i c left c') :
    Flushing (c.st.server.conns i) left (c'.st.server.conns i) := by
  obtain ⟨-, -, conn, hst, hflushing⟩ := h
  have hconn : c'.st.server.conns i = conn := by
    rw [hst, ← setServer_setConn]
    exact TcpServer.setConn_self ..
  rwa [hconn]

/-- **The output gets out**, and the half-close behind it. -/
theorem delivered (hrelays : A.Relays cond reply) (h : (machine A τ).Reach (each cond) c) (hc : c.crashed = none)
    (hi : c.st.server.Created i) (hdrain : A.drainContract.inv (c.st.sessions i))
    (hopen : (A.part.view (c.st.sessions i)).isOpen = true)
    (hindex : (A.part.view (c.st.sessions i)).channel.index = .kAdded) {ns : List Nat}
    (hpos : ∀ n ∈ ns, 0 < n)
    (hsum : ns.sum = (A.part.view (c.st.sessions i)).outputBuffer.readable.length) :
    ∃ c', (machine A τ).system.run (fun _ _ => True) c
        (ns.map (writable reply (c.st.server.loopOf i) i)) = some c' ∧
      (machine A τ).Reach (each cond) c' ∧ c'.crashed = none ∧
      written (A.part.view (c'.st.sessions i)).trace =
        written (A.part.view (c.st.sessions i)).trace ++ (A.part.view (c.st.sessions i)).outputBuffer.readable ∧
      ((A.part.view (c.st.sessions i)).state = .kDisconnecting → ns ≠ [] →
        .shutdownWrite ∈ (A.part.view (c'.st.sessions i)).trace) := by
  have hpending := hdrain.1.pending (TcpConnection.isOpen_state hopen)
  rw [c.st.synced] at hopen hindex hsum hpending ⊢
  have hs : (c.st.server.conns i).state ≠ .kConnecting := by
    intro hs
    simp [TcpConnection.isOpen, hs] at hopen
  obtain ⟨c', hrun, hflows⟩ := flush hrelays h hc hi hs (fun hne => ⟨hpending hne, hindex⟩) hpos hsum
  have hflushed := hflows.conn
  refine ⟨c', hrun, hflows.reach, hflows.running, ?_, fun hdown hne => ?_⟩
  · rw [c'.st.synced, ← hflushed.sent, List.append_nil]
  · rw [c'.st.synced]
    refine hflushed.shut hdown rfl fun hempty => hne ?_
    rw [hempty] at hsum
    cases ns with
    | nil => rfl
    | cons n ns =>
      have hn := hpos n List.mem_cons_self
      rw [List.sum_cons, List.length_nil] at hsum
      omega

end Service

end Agora
