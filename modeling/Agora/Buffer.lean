import Agora.Spec.Bytes
import Mathlib.Tactic.Common

/-!
# `Buffer` is a FIFO queue of bytes

One spec per function of `buffer.cpp`, then the queue over any sequence of operations.
-/

open Agora.Spec

namespace Agora.Buffer

/-! ## The vector -/

theorem memcpy_length (v : List Byte) (i : Nat) (data : List Byte) : (memcpy v i data).length = v.length := by
  simp [memcpy]; omega

theorem memcpy_inside {v data : List Byte} {i : Nat} (h : i + data.length ≤ v.length) :
    memcpy v i data = v.take i ++ data ++ v.drop (i + data.length) := by
  rw [memcpy, List.take_of_length_le (l := data) (by omega)]

theorem resize_length (v : List Byte) (n : Nat) : (resize v n).length = n := by
  simp [resize]; omega

theorem resize_grow {v : List Byte} {n : Nat} (h : v.length ≤ n) :
    resize v n = v ++ List.replicate (n - v.length) 0 := by
  rw [resize, List.take_of_length_le h]

theorem copy_length (v : List Byte) (src dst n : Nat) : (copy v src dst n).length = v.length := by
  induction n generalizing v src dst with
  | zero => rfl
  | succ n ih => rw [copy, ih, List.length_set]

theorem copy_eq {v : List Byte} {src dst n : Nat} (hdst : dst ≤ src) (hsrc : src + n ≤ v.length) :
    copy v src dst n = v.take dst ++ (v.drop src).take n ++ v.drop (dst + n) := by
  induction n generalizing v src dst with
  | zero => simp [copy]
  | succ n ih =>
    have hlt : src < v.length := by omega
    have hget : v.getD src 0 = v[src] := by simp [List.getD_eq_getElem?_getD, hlt]
    -- The byte that was written lies in front of all that is still to be read.
    rw [copy, hget, ih (by omega) (by simp; omega), List.drop_set_of_lt (by omega)]
    have hfront : (v.set dst v[src]).take (dst + 1) = v.take dst ++ [v[src]] := by
      rw [List.take_add_one, List.take_set_of_le (Nat.le_refl _)]
      simp [show dst < v.length by omega]
    have hback : (v.set dst v[src]).drop (dst + 1 + n) = v.drop (dst + 1 + n) :=
      List.drop_set_of_lt (by omega)
    have hmove : ((v.drop src).take (n + 1)) = v[src] :: (v.drop (src + 1)).take n := by
      rw [List.drop_eq_getElem_cons hlt, List.take_succ_cons]
    rw [hfront, hmove, hback]
    simp [Nat.add_assoc, Nat.add_comm 1 n]

/-! ## Well-formed buffers and what they hold -/

/-- The indices are in order, and inside the storage. -/
structure Wf (b : Buffer) : Prop where
  prepend : kCheapPrepend ≤ b.readerIndex
  reader : b.readerIndex ≤ b.writerIndex
  writer : b.writerIndex ≤ b.buffer.length

def readable (b : Buffer) : List Byte := (b.buffer.drop b.readerIndex).take b.readableBytes

theorem readable_length {b : Buffer} (h : b.Wf) : b.readable.length = b.readableBytes := by
  have := h.writer
  simp [readable, readableBytes]; omega

theorem bytesAtPeek_eq {b : Buffer} {len : Nat} (h : len ≤ b.readableBytes) :
    b.bytesAtPeek len = b.readable.take len := by
  rw [bytesAtPeek, readable, List.take_take, Nat.min_eq_left h]; rfl

theorem new_wf : new.Wf :=
  ⟨Nat.le_refl _, Nat.le_refl _, by simp [new, kCheapPrepend]⟩

theorem new_readable : new.readable = [] := by simp [new, readable, readableBytes]

theorem retrieveAll_wf {b : Buffer} (h : b.Wf) : b.retrieveAll.Wf :=
  ⟨Nat.le_refl _, Nat.le_refl _, by
    have := h.prepend; have := h.reader; have := h.writer
    simp only [retrieveAll]; omega⟩

theorem retrieveAll_readable (b : Buffer) : b.retrieveAll.readable = [] := by
  simp [retrieveAll, readable, readableBytes]

theorem retrieve_wf {b : Buffer} (h : b.Wf) (len : Nat) : (b.retrieve len).Wf := by
  unfold retrieve
  split
  · rename_i hlt
    unfold readableBytes at hlt
    have := h.prepend
    exact ⟨by simp only; omega, by simp only; omega, h.writer⟩
  · exact retrieveAll_wf h

theorem retrieve_readable {b : Buffer} (h : b.Wf) (len : Nat) :
    (b.retrieve len).readable = b.readable.drop len := by
  unfold retrieve
  split
  · rename_i hlt
    simp only [readable, readableBytes, List.drop_take, List.drop_drop]
    congr 1; omega
  · rename_i hge
    rw [retrieveAll_readable, List.drop_eq_nil_of_le]
    rw [readable_length h]; omega

theorem retrieveUntil_readable {b : Buffer} (h : b.Wf) (offset : Nat) :
    (b.retrieveUntil (b.peek + offset)).readable = b.readable.drop offset := by
  rw [retrieveUntil, Nat.add_sub_cancel_left, retrieve_readable h]

theorem retrieveAsString_eq {b : Buffer} {len : Nat} (h : len ≤ b.readableBytes) :
    b.retrieveAsString len = some (b.readable.take len, b.retrieve len) := by
  rw [retrieveAsString, if_pos h, bytesAtPeek_eq h]

theorem retrieveAllAsString_eq {b : Buffer} (h : b.Wf) :
    b.retrieveAllAsString = some (b.readable, b.retrieve b.readableBytes) := by
  rw [retrieveAllAsString, retrieveAsString_eq (Nat.le_refl _),
    List.take_of_length_le (Nat.le_of_eq (readable_length h))]

/-! ## Writing -/

theorem makeSpace_spec {b : Buffer} (h : b.Wf) {len : Nat} (hfew : b.writableBytes < len) :
    (b.makeSpace len).Wf ∧ (b.makeSpace len).readable = b.readable ∧
      len ≤ (b.makeSpace len).writableBytes := by
  have hp := h.prepend
  have hr := h.reader
  have hw := h.writer
  unfold writableBytes at hfew
  unfold makeSpace
  split
  · -- The storage grows; no index moves.
    have hgrow : b.buffer.length ≤ b.writerIndex + len := by omega
    refine ⟨⟨hp, hr, by simp [resize_length]⟩, ?_, by simp [writableBytes, resize_length]⟩
    simp only [readable, readableBytes, resize_grow hgrow]
    rw [List.drop_append_of_le_length (by omega),
      List.take_append_of_le_length (by simp; omega)]
  · -- The readable bytes move down to `kCheapPrepend`; the two ranges may overlap.
    rename_i hroom
    simp only [prependableBytes, writableBytes] at hroom
    have hmove := copy_eq (v := b.buffer) (n := b.writerIndex - b.readerIndex) hp (by omega)
    have hdata : ((b.buffer.drop b.readerIndex).take (b.writerIndex - b.readerIndex)).length =
        b.writerIndex - b.readerIndex := by simp; omega
    have hlen := copy_length b.buffer b.readerIndex kCheapPrepend (b.writerIndex - b.readerIndex)
    refine ⟨⟨Nat.le_refl _, by simp, ?_⟩, ?_, ?_⟩
    · simp only [readableBytes, hlen]; omega
    · simp only [readable, readableBytes, hmove, Nat.add_sub_cancel_left]
      have hfront : (b.buffer.take kCheapPrepend).length = kCheapPrepend := by simp; omega
      rw [List.append_assoc, List.drop_append_of_le_length (by omega),
        List.drop_eq_nil_of_le (by omega), List.nil_append,
        List.take_append_of_le_length (by omega), List.take_of_length_le (by omega)]
    · simp only [writableBytes, readableBytes, hlen]; omega

theorem ensureWritableBytes_spec {b : Buffer} (h : b.Wf) (len : Nat) :
    (b.ensureWritableBytes len).Wf ∧ (b.ensureWritableBytes len).readable = b.readable ∧
      len ≤ (b.ensureWritableBytes len).writableBytes := by
  unfold ensureWritableBytes
  split
  · rename_i hfew
    exact makeSpace_spec h hfew
  · rename_i hroom
    exact ⟨h, rfl, by omega⟩

theorem write_spec {b : Buffer} (h : b.Wf) {data : List Byte}
    (hroom : data.length ≤ b.writableBytes) {v : List Byte} {w : Nat}
    (hv : v = memcpy b.buffer b.writerIndex data) (hw : w = b.writerIndex + data.length) :
    Wf ⟨v, b.readerIndex, w⟩ ∧ readable ⟨v, b.readerIndex, w⟩ = b.readable ++ data := by
  have hp := h.prepend
  have hr := h.reader
  have hwr := h.writer
  unfold writableBytes at hroom
  subst hv hw
  refine ⟨⟨hp, by simp only; omega, by simp only [memcpy_length]; omega⟩, ?_⟩
  have hfront : (b.buffer.take b.writerIndex).length = b.writerIndex := by simp; omega
  have hinside : memcpy b.buffer b.writerIndex data =
      b.buffer.take b.writerIndex ++ data ++ b.buffer.drop (b.writerIndex + data.length) :=
    memcpy_inside (by omega)
  simp only [readable, readableBytes, hinside]
  rw [List.drop_append_of_le_length (by simp; omega),
    List.drop_append_of_le_length (by omega), List.take_append_of_le_length (by simp; omega),
    List.drop_take, List.take_of_length_le (by simp; omega)]

theorem append_spec {b : Buffer} (h : b.Wf) (data : List Byte) :
    (b.append data).Wf ∧ (b.append data).readable = b.readable ++ data := by
  obtain ⟨hwf, hread, hroom⟩ := ensureWritableBytes_spec h data.length
  obtain ⟨hwf', hread'⟩ := write_spec hwf hroom rfl rfl
  exact ⟨hwf', by rw [append, hread', hread]⟩

theorem readFd_spec {b : Buffer} (h : b.Wf) (data : Option (List Byte)) :
    (b.readFd data).Wf ∧ (b.readFd data).readable = b.readable ++ data.getD [] := by
  cases data with
  | none => exact ⟨h, by simp [readFd]⟩
  | some data =>
    simp only [readFd]
    split
    · rename_i hfits
      exact write_spec h hfits (by rw [List.take_of_length_le hfits]) rfl
    · -- The writable part is full, and the rest comes from the stack buffer.
      rename_i hmore
      have hlen : (data.take b.writableBytes).length = b.writableBytes := by simp; omega
      obtain ⟨hwf, hread⟩ := write_spec (w := b.buffer.length) h (Nat.le_of_eq hlen) rfl (by
        have := h.writer
        rw [hlen, writableBytes]; omega)
      obtain ⟨hwf', hread'⟩ := append_spec hwf (data.drop b.writableBytes)
      refine ⟨hwf', ?_⟩
      rw [hread', hread, List.append_assoc, List.take_append_drop]
      rfl

/-! ## Searching -/

theorem getD_of_readable {b : Buffer} (h : b.Wf) {i : Nat} (hi : i < b.readableBytes) :
    b.readable[i]? = some (b.buffer.getD (b.readerIndex + i) 0) := by
  have hw := h.writer
  unfold readableBytes at hi
  have hlt : b.readerIndex + i < b.buffer.length := by omega
  simp [readable, readableBytes, hi, List.getElem?_drop, List.getD_eq_getElem?_getD,
    List.getElem?_eq_getElem hlt]

/-- The search looks at `n` candidates from offset `i` on, and all earlier ones have failed. -/
theorem searchCRLF_spec {b : Buffer} (h : b.Wf) (i n : Nat) (hin : i + n = b.readableBytes - 1)
    (hpast : ∀ j < i, ¬ crlfAt b.readable j) :
    searchCRLF b.buffer (b.peek + i) n = (firstCRLF b.readable).map (b.peek + ·) := by
  induction n generalizing i with
  | zero =>
    rw [searchCRLF]
    symm
    rw [Option.map_eq_none_iff, firstCRLF_none_iff]
    intro j hj
    have hlen := crlfAt_length hj
    rw [readable_length h] at hlen
    exact hpast j (by omega) hj
  | succ n ih =>
    have hat : crlfAt b.readable i ↔
        b.buffer.getD (b.peek + i) 0 = CR ∧ b.buffer.getD (b.peek + i + 1) 0 = LF := by
      rw [crlfAt, getD_of_readable h (by omega), getD_of_readable h (by omega)]
      simp [peek, Nat.add_assoc]
    rw [searchCRLF]
    split
    · rename_i hc
      rw [(firstCRLF_some_iff _ i).mpr ⟨hat.mpr hc, hpast⟩]
      rfl
    · rename_i hc
      refine ih (i + 1) (by omega) fun j hj => ?_
      rcases Nat.lt_succ_iff_lt_or_eq.mp hj with hlt | rfl
      · exact hpast j hlt
      · exact fun hcr => hc (hat.mp hcr)

theorem findCRLF_eq {b : Buffer} (h : b.Wf) :
    b.findCRLF = (firstCRLF b.readable).map (b.peek + ·) :=
  searchCRLF_spec h 0 _ (by omega) (by simp)

/-! ## Any sequence of operations -/

/-- What one operation returns, and the buffer after it. -/
def apply (b : Buffer) : BufferOp → Option (List Byte × Buffer)
  | .append data => some ([], b.append data)
  | .retrieve len => some ([], b.retrieve len)
  | .retrieveAll => some ([], b.retrieveAll)
  | .retrieveAsString len => b.retrieveAsString len
  | .retrieveAllAsString => b.retrieveAllAsString
  | .retrieveUntil offset => some ([], b.retrieveUntil (b.peek + offset))
  | .ensureWritableBytes len => some ([], b.ensureWritableBytes len)
  | .readFd data => some ([], b.readFd data)
  | .writeFd => some (b.writeFd, b)

/-- The callers' side: what they may pass, and how much `readv` can return. -/
def Allowed (b : Buffer) : BufferOp → Prop
  | .retrieveAsString len => len ≤ b.readableBytes
  | .retrieveUntil offset => offset ≤ b.readableBytes
  | .readFd (some data) => data.length ≤ b.readSpace
  | _ => True

/-- Operations on a new buffer, one after the other, and all that they returned. -/
inductive Run : List BufferOp → Buffer → List (List Byte) → Prop
  | new : Run [] new []
  | op {ops b out op r b'} : Run ops b out → b.Allowed op → b.apply op = some (r, b') →
      Run (ops ++ [op]) b' (out ++ [r])

theorem apply_spec {b : Buffer} (h : b.Wf) {op : BufferOp} (ha : b.Allowed op) :
    ∃ b', b.apply op = some ((queueStep b.readable op).2, b') ∧ b'.Wf ∧
      b'.readable = (queueStep b.readable op).1 := by
  have hlen := readable_length h
  cases op with
  | append data => exact ⟨_, rfl, append_spec h data⟩
  | retrieve len =>
    refine ⟨_, rfl, retrieve_wf h len, ?_⟩
    rw [retrieve_readable h, queueStep]
    rcases Nat.le_total len b.readable.length with hle | hle
    · rw [Nat.min_eq_left hle]
    · rw [Nat.min_eq_right hle, List.drop_length, List.drop_eq_nil_of_le hle]
  | retrieveAll => exact ⟨_, rfl, retrieveAll_wf h, retrieveAll_readable b⟩
  | retrieveAsString len =>
    exact ⟨_, retrieveAsString_eq ha, retrieve_wf h len, retrieve_readable h len⟩
  | retrieveAllAsString =>
    refine ⟨_, retrieveAllAsString_eq h, retrieve_wf h _, ?_⟩
    rw [retrieve_readable h, ← hlen, List.drop_length, queueStep]
  | retrieveUntil offset =>
    exact ⟨_, rfl, retrieve_wf h _, retrieveUntil_readable h offset⟩
  | ensureWritableBytes len =>
    obtain ⟨hwf, hread, _⟩ := ensureWritableBytes_spec h len
    exact ⟨_, rfl, hwf, hread⟩
  | readFd data => exact ⟨_, rfl, readFd_spec h data⟩
  | writeFd => exact ⟨_, rfl, h, rfl⟩

theorem run_spec {ops : List BufferOp} {b : Buffer} {out : List (List Byte)} (h : Run ops b out) :
    b.Wf ∧ (b.readable, out) = queueRun ops := by
  induction h with
  | new => exact ⟨new_wf, by simp [new_readable, queueRun]⟩
  | @op ops b out op r b' _ hallowed hop ih =>
    obtain ⟨hwf, hq⟩ := ih
    obtain ⟨b₁, hb₁, hwf₁, hread₁⟩ := apply_spec hwf hallowed
    rw [hop, Option.some.injEq, Prod.mk.injEq] at hb₁
    obtain ⟨rfl, rfl⟩ := hb₁
    exact ⟨hwf₁, by rw [queueRun_snoc, ← hq, hread₁]⟩

/-- **A buffer refines a queue.** -/
theorem buffer_refines_queue {ops : List BufferOp} {b : Buffer} {out : List (List Byte)}
    (h : Run ops b out) :
    (kCheapPrepend ≤ b.readerIndex ∧ b.readerIndex ≤ b.writerIndex ∧
      b.writerIndex ≤ b.buffer.length) ∧
    b.readable = (queueRun ops).1 ∧ out = (queueRun ops).2 ∧
    (∀ i, b.findCRLF = some (b.peek + i) ↔
      crlfAt (queueRun ops).1 i ∧ ∀ j < i, ¬ crlfAt (queueRun ops).1 j) ∧
    (b.findCRLF = none ↔ ∀ i, ¬ crlfAt (queueRun ops).1 i) ∧
    (∀ op, b.Allowed op → (b.apply op).isSome) ∧
    ∀ len, len ≤ (b.ensureWritableBytes len).writableBytes := by
  obtain ⟨hwf, hq⟩ := run_spec h
  have hread : b.readable = (queueRun ops).1 := congrArg Prod.fst hq
  have hfind := findCRLF_eq hwf
  rw [hread] at hfind
  refine ⟨⟨hwf.prepend, hwf.reader, hwf.writer⟩, hread, congrArg Prod.snd hq, fun i => ?_, ?_,
    fun op ha => ?_, fun len => (ensureWritableBytes_spec hwf len).2.2⟩
  · rw [hfind, ← firstCRLF_some_iff, Option.map_eq_some_iff]
    constructor
    · rintro ⟨j, hj, hji⟩
      rwa [← Nat.add_left_cancel hji]
    · exact fun hi => ⟨i, hi, rfl⟩
  · rw [hfind, Option.map_eq_none_iff, firstCRLF_none_iff]
  · obtain ⟨b', hb', _⟩ := apply_spec hwf ha
    simp [hb']

theorem buffer_refines_queue_line :
    ((new.append [71, CR, LF]).retrieve 1).readable = [CR, LF] ∧
      ((new.append [71, CR, LF]).retrieve 1).findCRLF =
        some (((new.append [71, CR, LF]).retrieve 1).peek + 0) := by
  have hrun : Run ([] ++ [.append [71, CR, LF]] ++ [.retrieve 1])
      ((new.append [71, CR, LF]).retrieve 1) ([] ++ [[]] ++ [[]]) :=
    .op (.op .new trivial rfl) trivial rfl
  obtain ⟨_, hread, _, hfind, _⟩ := buffer_refines_queue hrun
  exact ⟨hread, (hfind 0).mpr ⟨by decide, by simp⟩⟩

end Agora.Buffer

/-! ## Buffers that are well formed -/

namespace Agora

/-- A buffer as its functions leave it. -/
abbrev WfBuffer := { b : Buffer // b.Wf }

namespace WfBuffer

open Buffer

def new : WfBuffer := ⟨Buffer.new, new_wf⟩
def readable (b : WfBuffer) : List Byte := b.1.readable
def readableBytes (b : WfBuffer) : Nat := b.1.readableBytes
def peek (b : WfBuffer) : Nat := b.1.peek
def findCRLF (b : WfBuffer) : Option Nat := b.1.findCRLF
def writeFd (b : WfBuffer) : List Byte := b.1.writeFd
def bytesAtPeek (b : WfBuffer) (len : Nat) : List Byte := b.1.bytesAtPeek len
def readSpace (b : WfBuffer) : Nat := b.1.readSpace
def retrieve (b : WfBuffer) (len : Nat) : WfBuffer := ⟨b.1.retrieve len, retrieve_wf b.2 len⟩
def retrieveAll (b : WfBuffer) : WfBuffer := ⟨b.1.retrieveAll, retrieveAll_wf b.2⟩
def retrieveUntil (b : WfBuffer) (endp : Nat) : WfBuffer :=
  ⟨b.1.retrieveUntil endp, retrieve_wf b.2 _⟩
def append (b : WfBuffer) (data : List Byte) : WfBuffer :=
  ⟨b.1.append data, (append_spec b.2 data).1⟩
def readFd (b : WfBuffer) (data : Option (List Byte)) : WfBuffer :=
  ⟨b.1.readFd data, (readFd_spec b.2 data).1⟩

@[simp] theorem readable_new : new.readable = [] := new_readable

@[simp] theorem readableBytes_eq (b : WfBuffer) : b.readableBytes = b.readable.length :=
  (readable_length b.2).symm

@[simp] theorem writeFd_readable (b : WfBuffer) : b.writeFd = b.readable := rfl

@[simp] theorem readable_retrieve (b : WfBuffer) (len : Nat) :
    (b.retrieve len).readable = b.readable.drop len := retrieve_readable b.2 len

@[simp] theorem readable_retrieveAll (b : WfBuffer) : b.retrieveAll.readable = [] :=
  retrieveAll_readable b.1

@[simp] theorem readable_retrieveUntil (b : WfBuffer) (offset : Nat) :
    (b.retrieveUntil (b.peek + offset)).readable = b.readable.drop offset :=
  retrieveUntil_readable b.2 offset

@[simp] theorem readable_append (b : WfBuffer) (data : List Byte) :
    (b.append data).readable = b.readable ++ data := (append_spec b.2 data).2

@[simp] theorem readable_readFd (b : WfBuffer) (data : Option (List Byte)) :
    (b.readFd data).readable = b.readable ++ data.getD [] := (readFd_spec b.2 data).2

theorem findCRLF_readable (b : WfBuffer) :
    b.findCRLF = (firstCRLF b.readable).map (b.peek + ·) := findCRLF_eq b.2

theorem bytesAtPeek_readable (b : WfBuffer) {len : Nat} (h : len ≤ b.readable.length) :
    b.bytesAtPeek len = b.readable.take len :=
  bytesAtPeek_eq (Nat.le_trans h (Nat.le_of_eq (readable_length b.2)))

end WfBuffer

end Agora
