import Agora.Conn.Drain
import Agora.Conn.Still
import Agora.Lib.Progress

/-! # What writable events get done -/

open Agora.Lib Agora.Lib.Prog Agora.Spec

namespace Agora.TcpConnection

/-- `handleWrite` up to the end of the buffer, when the kernel takes `n` bytes. -/
def taken (n : Nat) (c : TcpConnection) : TcpConnection :=
  { c with
    channel := { c.channel with revents := kWriteEvent }
    outputBuffer := c.outputBuffer.retrieve n
    trace := c.trace ++ [.written (c.outputBuffer.writeFd.take n)] }

/-- What `finishWrite` leaves in the history. -/
def farewell (c : TcpConnection) : List ConnEvent :=
  (if c.writeCompleteCallback then [.writeCompleteCallback] else []) ++
    if c.state = .kDisconnecting then [.shutdownWrite] else []

/-- `finishWrite`, when `writeCompleteCallback_` does nothing -/
def finished (c : TcpConnection) : TcpConnection :=
  { c with channel := c.channel.disableWriting.1, trace := c.trace ++ c.farewell }

/-- A writable event at which the kernel takes `n` bytes. -/
def flushed (n : Nat) (c : TcpConnection) : TcpConnection :=
  if (c.taken n).outputBuffer.readableBytes == 0 then (c.taken n).finished else c.taken n

/-- The callback that does nothing. -/
def Skipped (u : Callback) : Prop := u = .writeComplete

/-- Only `::write` is called. -/
def Writes (q : SysCall) (a : SysResult) : Prop := (∃ len, q = .write len) ∧ q.valid a = true

variable {c : TcpConnection} {n : Nat}

theorem finishWrite_ends : finishWrite.Ends Skipped (fun _ => Writes) c.finished () c [] := by
  have hoff : c.channel.disableWriting.1.isWriting = false := Channel.disableWriting_isWriting _
  have hshut : ∀ t, (when (c.state = .kDisconnecting) shutdownInLoop).Ends Skipped (fun _ => Writes)
      { c with
        channel := c.channel.disableWriting.1
        trace := t ++ if c.state = .kDisconnecting then [.shutdownWrite] else [] } ()
      { c with channel := c.channel.disableWriting.1, trace := t } [] := by
    intro t
    by_cases hs : c.state = .kDisconnecting
    · rw [if_pos hs, decide_eq_true hs]
      show Ends _ _ _ _ (when (!c.channel.disableWriting.1.isWriting) shutdownWrite) _ []
      rw [hoff]
      exact ⟨rfl, rfl, rfl⟩
    · rw [if_neg hs, decide_eq_false hs, List.append_nil]
      exact ⟨rfl, rfl, rfl⟩
  unfold finished farewell
  rw [← List.append_assoc]
  show Ends _ _ _ _ ((when c.writeCompleteCallback invokeWriteCompleteCallback).bind _) _ _
  by_cases hset : c.writeCompleteCallback = true
  · have hcall : when c.writeCompleteCallback invokeWriteCompleteCallback = invokeWriteCompleteCallback :=
      if_pos hset
    rw [hcall, if_pos hset]
    exact ⟨rfl, hshut _⟩
  · have hcall : when c.writeCompleteCallback invokeWriteCompleteCallback = pure () := if_neg hset
    rw [hcall, if_neg hset, List.append_nil]
    exact hshut _

theorem event_ends (hon : c.channel.isWriting = true) (hpos : 0 < n)
    (hle : n ≤ c.outputBuffer.readable.length) :
    (entry (.event kWriteEvent)).Ends Skipped (fun _ => Writes) (c.flushed n) () c [.count n] := by
  have hwrites : Writes (.write c.outputBuffer.writeFd.length) (.count n) := ⟨⟨_, rfl⟩, decide_eq_true hle⟩
  show Ends _ _ _ _ (when c.channel.isWriting _) _ _
  rw [hon]
  refine ⟨hwrites, ?_⟩
  show Ends _ _ _ _ (when (n > 0) _) _ []
  rw [decide_eq_true hpos]
  show Ends _ _ _ _ (when ((c.taken n).outputBuffer.readableBytes == 0) finishWrite) (c.taken n) []
  unfold flushed
  split
  · rename_i hempty
    rw [hempty]
    exact finishWrite_ends
  · rename_i hmore
    rw [Bool.eq_false_iff.mpr hmore]
    exact ⟨rfl, rfl, rfl⟩

/-! ## The output that is left -/

/-- `c'` is `c` with `left` of its output still to come. -/
structure Flushing (c : TcpConnection) (left : List Byte) (c' : TcpConnection) : Prop where
  state : c'.state = c.state
  inputBuffer : c'.inputBuffer = c.inputBuffer
  payloads : c'.payloads = c.payloads
  output : c'.outputBuffer.readable = left
  sent : written c'.trace ++ left = written c.trace ++ c.outputBuffer.readable
  ready : left ≠ [] → c'.channel.isWriting = true ∧ c'.channel.index = .kAdded
  /-- The half-close comes with the last byte. -/
  shut : c.state = .kDisconnecting → left = [] → c.outputBuffer.readable ≠ [] →
    .shutdownWrite ∈ c'.trace

theorem Flushing.refl (h : c.outputBuffer.readable ≠ [] →
      c.channel.isWriting = true ∧ c.channel.index = .kAdded) :
    Flushing c c.outputBuffer.readable c :=
  ⟨rfl, rfl, rfl, rfl, rfl, h, fun _ hempty hne => absurd hempty hne⟩

variable {c' : TcpConnection} {left : List Byte}

theorem Flushing.taken (h : Flushing c left c') (hne : left.drop n ≠ []) :
    Flushing c (left.drop n) (c'.taken n) := by
  have houtput : (c'.taken n).outputBuffer.readable = left.drop n := by
    rw [← h.output]
    exact WfBuffer.readable_retrieve ..
  refine ⟨h.state, h.inputBuffer, ?_, houtput, ?_, fun _ => ?_, fun _ hempty => absurd hempty hne⟩
  · rw [← h.payloads]
    exact payloads_muted rfl
  · show written (c'.trace ++ [_]) ++ _ = _
    rw [written_snoc, ← h.sent, WfBuffer.writeFd_readable, h.output]
    simp [written]
  · refine h.ready ?_
    rintro rfl
    exact hne List.drop_nil

theorem finished_written (c : TcpConnection) : written c.finished.trace = written c.trace := by
  have hnothing : written c.farewell = [] := by
    unfold farewell
    split <;> split <;> rfl
  exact (written_append _ _).trans (by rw [hnothing, List.append_nil])

theorem finished_payloads (c : TcpConnection) : c.finished.payloads = c.payloads := by
  have hnothing : payloads { c with trace := c.farewell } = [] := by
    unfold payloads farewell
    split <;> split <;> rfl
  exact List.filterMap_append.trans ((congrArg _ hnothing).trans (List.append_nil _))

theorem Flushing.finished (h : Flushing c left c') (hempty : left.drop n = []) :
    Flushing c [] (c'.taken n).finished := by
  have houtput : (c'.taken n).outputBuffer.readable = [] := by
    rw [← hempty, ← h.output]
    exact WfBuffer.readable_retrieve ..
  have hall : left.take n = left := by
    rw [← List.append_nil (left.take n), ← hempty, List.take_append_drop]
  have htaken : written (c'.taken n).trace = written c.trace ++ c.outputBuffer.readable := by
    show written (c'.trace ++ [_]) = _
    rw [written_snoc, ← h.sent, WfBuffer.writeFd_readable, h.output, hall]
    simp [written]
  have hpayloads : (c'.taken n).payloads = c'.payloads := payloads_muted rfl
  refine ⟨h.state, h.inputBuffer, (finished_payloads _).trans (hpayloads.trans h.payloads), houtput, ?_,
    fun hne => absurd rfl hne, fun hs _ _ => ?_⟩
  · rw [List.append_nil, finished_written, htaken]
  · have hs' : (c'.taken n).state = .kDisconnecting := h.state.trans hs
    unfold TcpConnection.finished farewell
    rw [if_pos hs']
    exact List.mem_append_right _ (List.mem_append_right _ (List.mem_singleton_self _))

theorem Flushing.flushed (h : Flushing c left c') : Flushing c (left.drop n) (c'.flushed n) := by
  have houtput : (c'.taken n).outputBuffer.readable = left.drop n := by
    rw [← h.output]
    exact WfBuffer.readable_retrieve ..
  unfold TcpConnection.flushed
  rw [WfBuffer.readableBytes_eq, houtput]
  split
  · rename_i hempty
    have hempty : left.drop n = [] := List.length_eq_zero_iff.mp (beq_iff_eq.mp hempty)
    rw [hempty]
    exact h.finished hempty
  · rename_i hmore
    refine h.taken fun hempty => hmore ?_
    rw [hempty]
    rfl

end Agora.TcpConnection
