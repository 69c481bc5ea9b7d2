import Agora.Code.TcpConnection
import Agora.Lib.Ledger

/-!
# The output stream of a connection

Every byte passed to `send` is with the kernel or in `outputBuffer_`, in order.
-/

open Agora.Lib

namespace Agora.Spec

/-! ## The stream of a history -/

/-- The payloads passed to `send`, in call order. -/
def accepted (t : List ConnEvent) : List Byte :=
  t.flatMap fun e => match e with
    | .accepted payload => payload
    | _ => []

/-- The bytes that the kernel took. -/
def written (t : List ConnEvent) : List Byte :=
  t.flatMap fun e => match e with
    | .written bytes => bytes
    | _ => []

theorem accepted_append (t u : List ConnEvent) : accepted (t ++ u) = accepted t ++ accepted u :=
  List.flatMap_append

theorem written_append (t u : List ConnEvent) : written (t ++ u) = written t ++ written u :=
  List.flatMap_append

@[simp] theorem accepted_snoc (t : List ConnEvent) (e : ConnEvent) :
    accepted (t ++ [e]) = accepted t ++ accepted [e] := accepted_append t [e]

@[simp] theorem written_snoc (t : List ConnEvent) (e : ConnEvent) :
    written (t ++ [e]) = written t ++ written [e] := written_append t [e]

/-- At every moment of the history the kernel has a prefix of what was sent, and all of it whenever
the write-complete callback starts. -/
structure StreamOk (t : List ConnEvent) : Prop where
  sent : ∀ u, u <+: t → written u <+: accepted u
  complete : ∀ u, u ++ [.writeCompleteCallback] <+: t → written u = accepted u

theorem streamOk_nil : StreamOk [] :=
  ⟨fun u hu => by rw [List.prefix_nil.mp hu]; exact List.prefix_rfl, fun u hu => by simp at hu⟩

theorem StreamOk.snoc {t : List ConnEvent} {e : ConnEvent} (h : StreamOk t)
    (hsent : written (t ++ [e]) <+: accepted (t ++ [e]))
    (hcomplete : e = .writeCompleteCallback → written t = accepted t) : StreamOk (t ++ [e]) where
  sent u hu := by
    rcases List.prefix_concat_iff.mp hu with rfl | hu
    · exact hsent
    · exact h.sent u hu
  complete u hu := by
    rcases prefix_snoc hu with ⟨rfl, heq⟩ | hu
    · exact hcomplete heq.symm
    · exact h.complete u hu

end Agora.Spec

namespace Agora.TcpConnection

open Spec Prog

/-- The bytes with the kernel, then the bytes in `outputBuffer_`, are the bytes sent. -/
structure StreamInv (c : TcpConnection) : Prop where
  history : StreamOk c.trace
  bytes : written c.trace ++ c.outputBuffer.readable = accepted c.trace

/-- No byte waits when the write-complete callback starts, and a crash leaves a good history. -/
def streamContract : Contract TcpConnection SysCall SysResult Callback Fault where
  inv := StreamInv
  pre u c := u = .writeComplete → written c.trace = accepted c.trace
  tolerates _ c := StreamOk c.trace
  allow _ q a := q.valid a = true

/-! ## What each function does to the stream -/

theorem StreamInv.of_eq {c c' : TcpConnection} (h : StreamInv c) (ht : c'.trace = c.trace)
    (ho : c'.outputBuffer = c.outputBuffer) : StreamInv c' :=
  ⟨ht ▸ h.history, by rw [ht, ho]; exact h.bytes⟩

theorem StreamInv.snoc {c : TcpConnection} (h : StreamInv c) {e : ConnEvent}
    (ha : accepted [e] = []) (hw : written [e] = []) (he : e ≠ .writeCompleteCallback) :
    StreamInv { c with trace := c.trace ++ [e] } := by
  have hbytes := h.bytes
  have hsent : written (c.trace ++ [e]) <+: accepted (c.trace ++ [e]) := by
    rw [written_snoc, accepted_snoc, ha, hw, List.append_nil, List.append_nil, ← hbytes]
    exact List.prefix_append _ _
  exact ⟨h.history.snoc hsent fun heq => absurd heq he,
    by simpa only [written_snoc, accepted_snoc, ha, hw, List.append_nil] using hbytes⟩

theorem keeps_setState (s : ConnState) : Keeps streamContract (setState s) :=
  Keeps.modify fun _ h => h.of_eq rfl rfl

theorem keeps_setChannel (f : Channel → Channel × List EpollCtl) :
    Keeps streamContract (setChannel f) := Keeps.modify fun _ h => h.of_eq rfl rfl

theorem keeps_shutdownWrite : Keeps streamContract shutdownWrite :=
  Keeps.modify fun _ h => h.snoc rfl rfl (by simp)

theorem keeps_invoke {u : Callback} {f : TcpConnection → Bool} {e : TcpConnection → ConnEvent}
    (ha : ∀ c, accepted [e c] = []) (hw : ∀ c, written [e c] = [])
    (he : ∀ c, e c ≠ .writeCompleteCallback) (hu : u ≠ .writeComplete) :
    Keeps streamContract (do
      let c ← read
      when (f c) do
        emit (e c)
        callback u : ConnM Unit) := by
  refine Stable.bind Stable.read fun c => Stable.when (Stable.bind ?_ fun _ => ?_)
  · exact Keeps.modify fun _ h => h.snoc (ha c) (hw c) (he c)
  · exact fun _ _ h => ⟨⟨h, trivial, fun heq => absurd heq hu⟩, fun _ h' _ => h'⟩

theorem keeps_invokeConnectionCallback : Keeps streamContract invokeConnectionCallback :=
  keeps_invoke (fun _ => rfl) (fun _ => rfl) (fun _ => by simp) (by simp)

theorem keeps_invokeCloseCallback : Keeps streamContract invokeCloseCallback :=
  keeps_invoke (fun _ => rfl) (fun _ => rfl) (fun _ => by simp) (by simp)

theorem keeps_invokeMessageCallback : Keeps streamContract invokeMessageCallback :=
  keeps_invoke (fun _ => rfl) (fun _ => rfl) (fun _ => by simp) (by simp)

theorem invokeWriteCompleteCallback_wp {s₀ s : TcpConnection} (h : StreamInv s)
    (hempty : s.outputBuffer.readable = []) :
    wp streamContract (fun _ _ => True) (fun _ _ => True) invokeWriteCompleteCallback
      (fun _ s _ => StreamInv s) s₀ s := by
  have hall : written s.trace = accepted s.trace := by simpa [hempty] using h.bytes
  unfold invokeWriteCompleteCallback emit
  simp only [wp_bind, wp_modify, wp_callback]
  refine ⟨⟨⟨h.history.snoc ?_ fun _ => hall, ?_⟩, trivial, fun _ => ?_⟩, fun _ h' _ => h'⟩
  · rw [written_snoc, accepted_snoc, hall]
    exact List.prefix_rfl
  · simpa [accepted, written] using h.bytes
  · simpa [accepted, written] using hall

theorem written_prefix {s : TcpConnection} {data : List Byte} (hh : StreamOk s.trace)
    (hdata : written s.trace ++ data = accepted s.trace) (n : Nat) :
    StreamOk (s.trace ++ [.written (data.take n)]) ∧
      written (s.trace ++ [.written (data.take n)]) ++ data.drop n =
        accepted (s.trace ++ [.written (data.take n)]) := by
  have hbytes : written (s.trace ++ [.written (data.take n)]) ++ data.drop n =
      accepted (s.trace ++ [.written (data.take n)]) := by
    simp [written, accepted] at hdata ⊢
    exact hdata
  exact ⟨hh.snoc (hbytes ▸ List.prefix_append _ _) (by simp), hbytes⟩

theorem sendInLoop_wp {s₀ s : TcpConnection} {data : List Byte} (hh : StreamOk s.trace)
    (hs : s.state ≠ .kDisconnected)
    (hdata : written s.trace ++ s.outputBuffer.readable ++ data = accepted s.trace) :
    wp streamContract (fun _ _ => True) (fun _ _ => True) (sendInLoop data)
      (fun _ s _ => StreamInv s) s₀ s := by
  unfold sendInLoop write emit appendOutput setChannel
  simp only [wp_bind, wp_read, wp_ite, wp_pure, wp_syscall]
  rw [if_neg hs]
  split
  · rename_i hdirect
    obtain ⟨-, hempty⟩ : _ ∧ s.outputBuffer.readable = [] := by simpa using hdirect
    rw [hempty, List.append_nil] at hdata
    intro a ha
    have hfail : StreamInv { s with
        outputBuffer := s.outputBuffer.append data
        channel := s.channel.enableWriting.1 } := ⟨hh, by simpa [hempty] using hdata⟩
    cases a with
    | count n =>
      have hn : n ≤ data.length := by simpa [streamContract, SysCall.valid] using ha
      obtain ⟨hh', hbytes⟩ := written_prefix hh hdata n
      simp only [wp_bind, wp_modify, wp_pure, wp_ite, wp_when]
      split
      · -- The kernel took everything at once.
        rename_i hall
        have hall : data.length ≤ n := by
          have := (Bool.and_eq_true_iff.mp hall).1
          simp at this; omega
        rw [List.drop_eq_nil_of_le hall] at hbytes
        exact invokeWriteCompleteCallback_wp ⟨hh', by simpa [hempty] using hbytes⟩ hempty
      · split
        · exact ⟨hh', by simpa [hempty] using hbytes⟩
        · rename_i hnone
          have hle : data.length ≤ n := by simp at hnone; omega
          rw [List.drop_eq_nil_of_le hle] at hbytes
          exact ⟨hh', by simpa [hempty] using hbytes⟩
    | bytes _ => exact hfail
    | error _ => exact hfail
  · -- Earlier bytes wait in front.
    exact ⟨hh, by simpa using hdata⟩

theorem send_accepts {s : TcpConnection} (h : StreamInv s) (payload : List Byte) :
    StreamOk (s.trace ++ [.accepted payload]) ∧
      written (s.trace ++ [.accepted payload]) ++ s.outputBuffer.readable ++ payload =
        accepted (s.trace ++ [.accepted payload]) := by
  have hbytes : written (s.trace ++ [.accepted payload]) ++ s.outputBuffer.readable ++ payload =
      accepted (s.trace ++ [.accepted payload]) := by
    have := h.bytes
    simp [written, accepted] at this ⊢
    rw [← List.append_assoc, this]
  refine ⟨h.history.snoc ?_ (by simp), hbytes⟩
  rw [← hbytes, List.append_assoc]
  exact List.prefix_append _ _

theorem keeps_send (message : List Byte) : Keeps streamContract (send message) := by
  intro s₀ s h
  unfold send emit
  simp only [wp_bind, wp_read, wp_when, wp_modify]
  split
  · rename_i hs
    obtain ⟨hh, hdata⟩ := send_accepts h message
    have hs : s.state = .kConnected := by simpa using hs
    exact sendInLoop_wp hh (by simp [hs]) hdata
  · exact h

theorem keeps_sendBuffer (buffer : WfBuffer) : Keeps streamContract (sendBuffer buffer) := by
  intro s₀ s h
  have hpeek : buffer.bytesAtPeek buffer.readableBytes = buffer.readable := rfl
  unfold sendBuffer emit
  simp only [wp_bind, wp_read, wp_ite, wp_pure, wp_modify]
  split
  · rename_i hs
    obtain ⟨hh, hdata⟩ := send_accepts h buffer.readable
    rw [hpeek]
    exact sendInLoop_wp hh (by simp [hs]) hdata
  · exact h

theorem keeps_shutdownInLoop : Keeps streamContract shutdownInLoop :=
  Stable.bind Stable.read fun _ => Stable.when keeps_shutdownWrite

theorem keeps_shutdown : Keeps streamContract shutdown :=
  Stable.bind Stable.read fun _ => Stable.when
    (Stable.bind (keeps_setState _) fun _ => keeps_shutdownInLoop)

theorem keeps_handleClose : Keeps streamContract handleClose :=
  Stable.bind Stable.read fun _ =>
  Stable.bind (Keeps.assert fun _ h => h.history) fun _ =>
  Stable.bind (keeps_setState _) fun _ =>
  Stable.bind (keeps_setChannel _) fun _ =>
  Stable.bind keeps_invokeConnectionCallback fun _ => keeps_invokeCloseCallback

theorem keeps_forceClose : Keeps streamContract forceClose :=
  Stable.bind Stable.read fun _ => Stable.when
    (Stable.bind (keeps_setState _) fun _ => keeps_handleClose)

theorem keeps_handleError : Keeps streamContract handleError :=
  Stable.bind (Stable.syscall _) fun _ => Stable.pure _

theorem keeps_handleRead : Keeps streamContract handleRead := by
  refine Stable.bind Stable.read fun c => Stable.bind (Stable.syscall _) fun a => ?_
  split
  · exact keeps_handleClose
  · exact Stable.bind (Keeps.modify fun _ h => h.of_eq rfl rfl) fun _ => keeps_invokeMessageCallback
  · exact Stable.pure _
  · exact keeps_handleError

theorem finishWrite_wp {s₀ s : TcpConnection} (h : StreamInv s)
    (hempty : s.outputBuffer.readable = []) :
    wp streamContract (fun _ _ => True) (fun _ _ => True) finishWrite
      (fun _ s _ => StreamInv s) s₀ s := by
  have hlast : Keeps streamContract (do
      let c ← read
      when (c.state = .kDisconnecting) shutdownInLoop : ConnM Unit) :=
    Stable.bind Stable.read fun _ => Stable.when keeps_shutdownInLoop
  unfold finishWrite setChannel
  rw [wp_bind, wp_modify, wp_bind, wp_read, wp_bind, wp_when]
  have h₁ : StreamInv { s with channel := s.channel.disableWriting.1 } := h.of_eq rfl rfl
  split
  · exact wp_mono (invokeWriteCompleteCallback_wp h₁ hempty) fun s₀ s _ h => hlast s₀ s h
  · exact hlast _ _ h₁

theorem keeps_handleWrite : Keeps streamContract handleWrite := by
  intro s₀ s h
  unfold handleWrite write emit
  simp only [wp_bind, wp_read, wp_when, wp_syscall]
  split
  · intro a ha
    cases a with
    | bytes _ => exact h
    | error _ => exact h
    | count n =>
      obtain ⟨hh, hbytes⟩ := written_prefix h.history h.bytes n
      simp only [WfBuffer.writeFd_readable, wp_bind, wp_modify, wp_pure, wp_when, wp_read]
      split
      · have h₁ : StreamInv { s with
            trace := s.trace ++ [.written (s.outputBuffer.readable.take n)]
            outputBuffer := s.outputBuffer.retrieve n } := ⟨hh, by simpa using hbytes⟩
        split
        · rename_i hdone
          have hempty : (s.outputBuffer.retrieve n).readable = [] := by
            rw [WfBuffer.readableBytes_eq, beq_iff_eq, List.length_eq_zero_iff] at hdone
            exact hdone
          exact finishWrite_wp h₁ hempty
        · exact h₁
      · -- Nothing was taken.
        rename_i hzero
        obtain rfl : n = 0 := by simpa using hzero
        exact ⟨hh, by simpa using hbytes⟩
  · exact h

theorem keeps_handleEvent : Keeps streamContract handleEvent :=
  Stable.bind Stable.read fun _ => Stable.bind (Stable.when keeps_handleClose) fun _ =>
  Stable.bind Stable.read fun _ => Stable.bind (Stable.when keeps_handleError) fun _ =>
  Stable.bind Stable.read fun _ => Stable.bind (Stable.when keeps_handleRead) fun _ =>
  Stable.bind Stable.read fun _ => Stable.when keeps_handleWrite

theorem keeps_connectEstablished : Keeps streamContract connectEstablished :=
  Stable.bind Stable.read fun _ =>
  Stable.bind (Keeps.assert fun _ h => h.history) fun _ =>
  Stable.bind (keeps_setState _) fun _ =>
  Stable.bind (keeps_setChannel _) fun _ => keeps_invokeConnectionCallback

theorem keeps_connectDestroyed : Keeps streamContract connectDestroyed :=
  Stable.bind Stable.read fun _ =>
  Stable.bind (Keeps.modify fun _ h => h.snoc rfl rfl (by simp)) fun _ =>
  Stable.bind (Stable.when (Stable.bind (keeps_setState _) fun _ =>
    Stable.bind (keeps_setChannel _) fun _ => keeps_invokeConnectionCallback)) fun _ =>
  Stable.bind (keeps_setChannel _) fun _ =>
  Stable.bind Stable.read fun _ => Keeps.modify fun _ h => h.snoc rfl rfl (by simp)

/-! ## Every run -/

theorem keeps_entry (label : ConnLabel) : Keeps streamContract (entry label) := by
  cases label with
  | connectEstablished => exact keeps_connectEstablished
  | connectDestroyed => exact keeps_connectDestroyed
  | event revents =>
    exact Stable.bind (Keeps.modify fun _ h => h.of_eq rfl rfl) fun _ => keeps_handleEvent
  | send message => exact keeps_send message
  | sendBuffer buffer => exact Stable.bind (keeps_sendBuffer buffer) fun _ => Stable.pure _
  | shutdown => exact keeps_shutdown
  | forceClose => exact keeps_forceClose
  | consume len => exact Keeps.modify fun _ h => h.of_eq rfl rfl

theorem new_streamInv (fd : Nat) (a b d e : Bool) : StreamInv (new fd a b d e) :=
  ⟨streamOk_nil, rfl⟩

theorem machine_keeps : machine.Keeps streamContract (fun _ _ _ => True) Machine.anyStep := by
  refine Machine.Keeps.of_inv ?_ (fun _ _ _ h _ => h) fun label s p hp _ h => ?_
  · rintro s ⟨fd, a, b, d, e, rfl⟩
    exact new_streamInv fd a b d e
  · obtain rfl := Option.some.inj hp
    exact keeps_entry label s s h

/-- **Output stream integrity.** -/
theorem output_stream_integrity {c : Config Unit TcpConnection SysCall SysResult Callback Fault}
    (h : machine.Reachable c) :
    (∀ u, u <+: c.st.trace → written u <+: accepted u) ∧
    (∀ u, u ++ [.writeCompleteCallback] <+: c.st.trace → written u = accepted u) ∧
    (c.crashed = none → c.st.state = .kConnected ∨ c.st.state = .kDisconnecting →
      written c.st.trace ++ c.st.outputBuffer.readable = accepted c.st.trace) ∧
    (c.calling = some .writeComplete → written c.st.trace = accepted c.st.trace) := by
  have hok := machine_keeps.runOk h
  have hh : StreamOk c.st.trace := by
    cases hc : c.crashed with
    | none => exact (hok.inv hc).history
    | some e => exact hok.crash e hc
  exact ⟨hh.sent, hh.complete, fun hc _ => (hok.inv hc).bytes, fun hu => hok.calling _ hu rfl⟩

/-- A partial write, with the rest in the buffer. -/
theorem output_stream_integrity_partial_write :
    ∃ c, machine.system.run (fun _ _ => True) (.initial (new 3 false false false false))
        [.start .connectEstablished [], .start (.send [1, 2, 3]) [.count 2]] = some c ∧
      written c.st.trace = [1, 2] ∧
      written c.st.trace ++ c.st.outputBuffer.readable = [1, 2, 3] := by
  have hrun : machine.system.run (fun _ _ => True) (.initial (new 3 false false false false))
      [.start .connectEstablished [], .start (.send [1, 2, 3]) [.count 2]] = some _ := rfl
  have hreach := machine.reachable_of_run ⟨3, false, false, false, false, rfl⟩ hrun
  exact ⟨_, hrun, rfl, (output_stream_integrity hreach).2.2.1 rfl (.inl rfl)⟩

end Agora.TcpConnection
