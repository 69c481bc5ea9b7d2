import Agora.Buffer
import Agora.Code.SizedBuffer

/-!
# `ensureWritableBytes` for every `size_t`

Where no sum wraps, the functions are those of the unbounded model. Where one does, the call returns
without the space.
-/

open Agora.Spec

namespace Agora.SizedBuffer

open Buffer SizeT

theorem add_eq {a b : Nat} (h : a + b < bound) : add a b = a + b := Nat.mod_eq_of_lt h

theorem add_wrap {a b : Nat} (ha : a < bound) (hb : b < bound) (h : bound ≤ a + b) :
    add a b = a + b - bound := by
  unfold add
  rw [Nat.mod_eq_sub_mod h, Nat.mod_eq_of_lt (by omega)]

theorem sub_eq {a b : Nat} (ha : a < bound) (h : b ≤ a) : sub a b = a - b := by
  unfold sub
  have hsum : a + (bound - b) = a - b + bound := by omega
  rw [hsum, Nat.add_mod_right, Nat.mod_eq_of_lt (by omega)]

/-- A buffer as its functions leave it, in a storage that the vector can have. -/
structure Valid (maxSize : Nat) (b : Buffer) : Prop where
  wf : b.Wf
  size : b.buffer.length ≤ maxSize

/-- `writerIndex_ + len` does not wrap, or moving the readable bytes down makes room enough. -/
def NoWrap (b : Buffer) (len : Nat) : Prop :=
  b.writerIndex + len < bound ∨ len + kCheapPrepend ≤ b.prependableBytes + b.writableBytes

instance (b : Buffer) (len : Nat) : Decidable (NoWrap b len) := inferInstanceAs (Decidable (_ ∨ _))

theorem noWrap_congr {b b' : Buffer} {len : Nat} (hsize : b'.buffer.length = b.buffer.length)
    (hreader : b'.readerIndex = b.readerIndex) (hwriter : b'.writerIndex = b.writerIndex) :
    NoWrap b' len ↔ NoWrap b len := by
  unfold NoWrap Buffer.prependableBytes Buffer.writableBytes
  rw [hsize, hreader, hwriter]

/-- What a caller of `ensureWritableBytes(len)` relies on. -/
structure Ensures (maxSize : Nat) (b : Buffer) (len : Nat) : Prop where
  error : ∀ b', ensureWritableBytes maxSize b len = .error b' → b' = b
  ok : ∀ b', ensureWritableBytes maxSize b len = .ok b' → len ≤ writableBytes b' ∧
    b'.readable = b.readable ∧ b'.readerIndex ≤ b'.writerIndex ∧ b'.writerIndex ≤ b'.buffer.length

/-- The `memcpy` of `append(data, len)` stays inside the storage. -/
def AppendInside (maxSize : Nat) (b : Buffer) (len : Nat) : Prop :=
  ∀ data : List Byte, data.length = len → append maxSize b data ≠ none

/-- The condition of the call of `ensureWritableBytes` in an operation, and what `readv` can
return. -/
def Fits (b : Buffer) : BufferOp → Prop
  | .append data => NoWrap b data.length
  | .ensureWritableBytes len => NoWrap b len
  | .readFd (some data) => data.length ≤ b.readSpace ∧
      (b.writableBytes < data.length →
        NoWrap { b with writerIndex := b.buffer.length } (data.length - b.writableBytes))
  | _ => True

/-- The buffers of the runs in which every call fits. A call that throws leaves one as well. -/
inductive Reachable (maxSize : Nat) : Buffer → Prop
  | new (h : Buffer.new.buffer.length ≤ maxSize) : Reachable maxSize Buffer.new
  | op {b : Buffer} {op : BufferOp} {o : Outcome} : Reachable maxSize b → Fits b op →
      step maxSize b op = some o → Reachable maxSize (left o)

section

variable {maxSize : Nat} (hmax : maxSize < bound) {b : Buffer}

include hmax

theorem readableBytes_eq (h : Valid maxSize b) : readableBytes b = b.readableBytes := by
  have hwriter := h.wf.writer
  have hsize := h.size
  exact sub_eq (by omega) h.wf.reader

theorem writableBytes_eq (h : Valid maxSize b) : writableBytes b = b.writableBytes := by
  have hsize := h.size
  exact sub_eq (by omega) h.wf.writer

theorem retrieve_eq (h : Valid maxSize b) (len : Nat) : retrieve b len = b.retrieve len := by
  unfold retrieve Buffer.retrieve
  rw [readableBytes_eq hmax h]
  split
  · rename_i hlen
    have hwriter := h.wf.writer
    have hsize := h.size
    unfold Buffer.readableBytes at hlen
    rw [add_eq (by omega)]
  · rfl

theorem retrieve_valid (h : Valid maxSize b) (len : Nat) : Valid maxSize (retrieve b len) := by
  rw [retrieve_eq hmax h]
  refine ⟨retrieve_wf h.wf len, ?_⟩
  unfold Buffer.retrieve
  split
  · exact h.size
  · exact h.size

/-! ## `ensureWritableBytes` -/

theorem makeSpace_room (h : Valid maxSize b) {len : Nat}
    (hroom : len + kCheapPrepend ≤ b.prependableBytes + b.writableBytes) :
    makeSpace maxSize b len = .ok (b.makeSpace len) ∧ (b.makeSpace len).buffer.length ≤ maxSize := by
  have hprepend := h.wf.prepend
  have hreader := h.wf.reader
  have hwriter := h.wf.writer
  have hsize := h.size
  have hfree : add b.readerIndex b.writableBytes = b.readerIndex + b.writableBytes :=
    add_eq (by unfold Buffer.writableBytes; omega)
  have hread : add kCheapPrepend b.readableBytes = kCheapPrepend + b.readableBytes :=
    add_eq (by unfold Buffer.readableBytes; omega)
  unfold Buffer.prependableBytes at hroom
  have hneed : add len kCheapPrepend = len + kCheapPrepend := by
    unfold Buffer.writableBytes at hroom
    exact add_eq (by omega)
  unfold makeSpace Buffer.makeSpace prependableBytes Buffer.prependableBytes
  rw [writableBytes_eq hmax h, readableBytes_eq hmax h, hfree, hneed, if_neg (by omega),
    if_neg (by omega)]
  dsimp only
  rw [hread, copy_length]
  exact ⟨rfl, hsize⟩

theorem makeSpace_grow (h : Valid maxSize b) {len : Nat} (hsum : b.writerIndex + len < bound)
    (hfew : b.prependableBytes + b.writableBytes < len + kCheapPrepend) :
    makeSpace maxSize b len = .error b ∨
      makeSpace maxSize b len = .ok (b.makeSpace len) ∧ (b.makeSpace len).buffer.length ≤ maxSize := by
  have hprepend := h.wf.prepend
  have hreader := h.wf.reader
  have hwriter := h.wf.writer
  have hsize := h.size
  have hfree : add b.readerIndex b.writableBytes = b.readerIndex + b.writableBytes :=
    add_eq (by unfold Buffer.writableBytes; omega)
  unfold Buffer.prependableBytes at hfew
  unfold makeSpace Buffer.makeSpace prependableBytes Buffer.prependableBytes
  rw [writableBytes_eq hmax h, hfree, add_eq hsum, @add_eq len kCheapPrepend (by omega), if_pos hfew,
    if_pos hfew]
  by_cases hfits : b.writerIndex + len ≤ maxSize
  · rw [if_pos hfits]
    exact .inr ⟨rfl, by rw [resize_length]; exact hfits⟩
  · rw [if_neg hfits]
    exact .inl rfl

theorem ensureWritableBytes_eq (h : Valid maxSize b) {len : Nat} (hlen : NoWrap b len) :
    ensureWritableBytes maxSize b len = .error b ∨
      ensureWritableBytes maxSize b len = .ok (b.ensureWritableBytes len) ∧
        (b.ensureWritableBytes len).buffer.length ≤ maxSize := by
  unfold ensureWritableBytes Buffer.ensureWritableBytes
  rw [writableBytes_eq hmax h]
  by_cases hfew : b.writableBytes < len
  · rw [if_pos hfew, if_pos hfew]
    by_cases hroom : len + kCheapPrepend ≤ b.prependableBytes + b.writableBytes
    · exact .inr (makeSpace_room hmax h hroom)
    · exact makeSpace_grow hmax h (hlen.resolve_right hroom) (by omega)
  · rw [if_neg hfew, if_neg hfew]
    exact .inr ⟨rfl, h.size⟩

/-- With a wrap the storage shrinks below `writerIndex_`, or the readable bytes move down to make room
that is not enough. -/
theorem ensureWritableBytes_wrap (h : Valid maxSize b) {len : Nat} (hlen : len < bound)
    (hwrap : ¬ NoWrap b len) :
    ∃ b', ensureWritableBytes maxSize b len = .ok b' ∧
      (b'.buffer.length < b'.writerIndex ∨ writableBytes b' < len) := by
  have hprepend := h.wf.prepend
  have hreader := h.wf.reader
  have hwriter := h.wf.writer
  have hsize := h.size
  obtain ⟨hsum, hfew⟩ := not_or.mp hwrap
  have hfree : add b.readerIndex b.writableBytes = b.readerIndex + b.writableBytes :=
    add_eq (by unfold Buffer.writableBytes; omega)
  unfold Buffer.prependableBytes Buffer.writableBytes at hfew
  unfold ensureWritableBytes makeSpace prependableBytes
  rw [writableBytes_eq hmax h, readableBytes_eq hmax h, hfree]
  unfold Buffer.writableBytes Buffer.readableBytes
  rw [if_pos (by omega)]
  by_cases hneed : len + kCheapPrepend < bound
  · -- `writerIndex_ + len` wraps, and the vector gets the rest.
    have hrest : add b.writerIndex len = b.writerIndex + len - bound :=
      add_wrap (by omega) hlen (by omega)
    rw [add_eq hneed, if_pos (by omega), hrest, if_pos (by omega)]
    refine ⟨_, rfl, .inl ?_⟩
    dsimp only
    rw [resize_length]
    omega
  · -- `len + kCheapPrepend` wraps, and seems to fit.
    have hrest : add len kCheapPrepend = len + kCheapPrepend - bound :=
      add_wrap hlen (by decide) (by omega)
    have hread : add kCheapPrepend (b.writerIndex - b.readerIndex) =
        kCheapPrepend + (b.writerIndex - b.readerIndex) := add_eq (by omega)
    rw [hrest, if_neg (by omega)]
    dsimp only
    rw [hread]
    refine ⟨_, rfl, .inr ?_⟩
    unfold writableBytes
    dsimp only
    rw [copy_length, sub_eq (by omega) (by omega)]
    omega

theorem ensures_iff (h : Valid maxSize b) {len : Nat} (hlen : len < bound) :
    Ensures maxSize b len ↔ NoWrap b len := by
  constructor
  · intro hensures
    by_contra hwrap
    obtain ⟨b', hb', hfails⟩ := ensureWritableBytes_wrap hmax h hlen hwrap
    obtain ⟨hspace, -, -, hwriter⟩ := hensures.ok b' hb'
    omega
  · intro hwrap
    rcases ensureWritableBytes_eq hmax h hwrap with herror | ⟨hok, hsize⟩
    · refine ⟨fun b' hb' => ?_, fun b' hb' => ?_⟩
      · rw [herror] at hb'
        exact (Except.error.inj hb').symm
      · rw [herror] at hb'
        cases hb'
    · refine ⟨fun b' hb' => ?_, fun b' hb' => ?_⟩
      · rw [hok] at hb'
        cases hb'
      · rw [hok] at hb'
        obtain rfl := Except.ok.inj hb'
        obtain ⟨hwf, hread, hspace⟩ := ensureWritableBytes_spec h.wf len
        rw [writableBytes_eq hmax ⟨hwf, hsize⟩]
        exact ⟨hspace, hread, hwf.reader, hwf.writer⟩

/-! ## Any operation -/

theorem append_spec (h : Valid maxSize b) {data : List Byte} (hlen : NoWrap b data.length) :
    ∃ o, append maxSize b data = some o ∧ Valid maxSize (left o) := by
  unfold append
  rcases ensureWritableBytes_eq hmax h hlen with herror | ⟨hok, hsize⟩
  · rw [herror]
    exact ⟨_, rfl, h⟩
  · obtain ⟨hwf, -, hspace⟩ := ensureWritableBytes_spec h.wf data.length
    have hwriter := hwf.writer
    have hroom : (b.ensureWritableBytes data.length).writerIndex + data.length ≤
        (b.ensureWritableBytes data.length).buffer.length := by
      unfold Buffer.writableBytes at hspace
      omega
    rw [hok]
    dsimp only
    rw [if_pos hroom, add_eq (by omega)]
    refine ⟨_, rfl, (write_spec hwf hspace rfl rfl).1, ?_⟩
    unfold left
    dsimp only
    rw [memcpy_length]
    exact hsize

theorem readFd_spec (h : Valid maxSize b) {data : Option (List Byte)} (hfits : Fits b (.readFd data)) :
    ∃ o, readFd maxSize b data = some o ∧ Valid maxSize (left o) := by
  have hwriter := h.wf.writer
  have hsize := h.size
  cases data with
  | none => exact ⟨_, rfl, h⟩
  | some data =>
    obtain ⟨-, hmore⟩ := hfits
    unfold readFd
    dsimp only
    rw [writableBytes_eq hmax h]
    have hfront := memcpy_length b.buffer b.writerIndex (data.take b.writableBytes)
    have hspace : (data.take b.writableBytes).length ≤ b.writableBytes := by
      rw [List.length_take]
      exact Nat.min_le_left _ _
    by_cases hall : data.length ≤ b.writableBytes
    · rw [if_pos hall, add_eq (by unfold Buffer.writableBytes at hall; omega)]
      have hwhole := List.take_of_length_le hall
      refine ⟨_, rfl, (write_spec h.wf hspace rfl (by rw [hwhole])).1, ?_⟩
      exact Nat.le_trans (Nat.le_of_eq hfront) hsize
    · rw [if_neg hall]
      have hlength : (data.take b.writableBytes).length = b.writableBytes := by
        rw [List.length_take]
        omega
      have hfull : b.buffer.length = b.writerIndex + (data.take b.writableBytes).length := by
        rw [hlength]
        unfold Buffer.writableBytes
        omega
      have hvalid : Valid maxSize
          { b with
            buffer := memcpy b.buffer b.writerIndex (data.take b.writableBytes)
            writerIndex := b.buffer.length } :=
        ⟨(write_spec h.wf hspace rfl hfull).1, Nat.le_trans (Nat.le_of_eq hfront) hsize⟩
      refine append_spec hmax hvalid ?_
      rw [List.length_drop]
      have hrest := hmore (by omega)
      refine (noWrap_congr ?_ ?_ ?_).mpr hrest
      · exact hfront
      · rfl
      · rfl

theorem step_valid (h : Valid maxSize b) {op : BufferOp} (hfits : Fits b op) {o : Outcome}
    (hstep : step maxSize b op = some o) : Valid maxSize (left o) := by
  cases op with
  | append data =>
    obtain ⟨o', ho', hvalid⟩ := append_spec hmax h hfits
    obtain rfl := Option.some.inj (ho'.symm.trans hstep)
    exact hvalid
  | retrieve len =>
    obtain rfl := Option.some.inj hstep
    exact retrieve_valid hmax h len
  | retrieveAll =>
    obtain rfl := Option.some.inj hstep
    exact ⟨retrieveAll_wf h.wf, h.size⟩
  | retrieveAsString len =>
    obtain ⟨b', hb', rfl⟩ := Option.map_eq_some_iff.mp hstep
    obtain ⟨-, hb'⟩ := Option.ite_none_right_eq_some.mp hb'
    obtain rfl := Option.some.inj hb'
    exact retrieve_valid hmax h len
  | retrieveAllAsString =>
    obtain ⟨b', hb', rfl⟩ := Option.map_eq_some_iff.mp hstep
    obtain ⟨-, hb'⟩ := Option.ite_none_right_eq_some.mp hb'
    obtain rfl := Option.some.inj hb'
    exact retrieve_valid hmax h _
  | retrieveUntil offset =>
    obtain rfl := Option.some.inj hstep
    exact retrieve_valid hmax h _
  | ensureWritableBytes len =>
    obtain rfl := Option.some.inj hstep
    rcases ensureWritableBytes_eq hmax h hfits with herror | ⟨hok, hsize⟩
    · rw [herror]
      exact h
    · rw [hok]
      exact ⟨(ensureWritableBytes_spec h.wf len).1, hsize⟩
  | readFd data =>
    obtain ⟨o', ho', hvalid⟩ := readFd_spec hmax h hfits
    obtain rfl := Option.some.inj (ho'.symm.trans hstep)
    exact hvalid
  | writeFd =>
    obtain rfl := Option.some.inj hstep
    exact h

theorem valid_of_reachable (h : Reachable maxSize b) : Valid maxSize b := by
  induction h with
  | new h => exact ⟨new_wf, h⟩
  | op _ hfits hstep ih => exact step_valid hmax ih hfits hstep

/-- **`ensureWritableBytes` keeps its promise** for every reachable buffer and every length, and the
`memcpy` behind it stays inside the storage, exactly if no sum wraps. -/
theorem ensures_iff_noWrap (h : Reachable maxSize b) {len : Nat} (hlen : len < bound) :
    Ensures maxSize b len ∧ AppendInside maxSize b len ↔ NoWrap b len := by
  have hvalid := valid_of_reachable hmax h
  rw [ensures_iff hmax hvalid hlen]
  refine ⟨fun h => h.1, fun hwrap => ⟨hwrap, ?_⟩⟩
  rintro data rfl
  obtain ⟨o, ho, -⟩ := append_spec hmax hvalid hwrap
  rw [ho]
  exact Option.some_ne_none o

end

theorem ensures_iff_noWrap_new :
    Reachable ptrdiffMax Buffer.new ∧ (2000 < bound ∧
      (Ensures ptrdiffMax Buffer.new 2000 ∧ AppendInside ptrdiffMax Buffer.new 2000 ↔
        NoWrap Buffer.new 2000)) ∧
      Ensures ptrdiffMax Buffer.new 2000 := by
  have hnew : Reachable ptrdiffMax Buffer.new := .new (by decide +kernel)
  have hlen : 2000 < bound := by decide +kernel
  have hmax : ptrdiffMax < bound := by decide +kernel
  have h := ensures_iff_noWrap hmax hnew hlen
  exact ⟨hnew, ⟨hlen, h⟩, (h.mpr (by decide +kernel)).1⟩

/-- A new buffer asked for all but eight of the bytes that there are has its 1024 bytes afterwards, and
`append` writes past them. -/
theorem ensureWritableBytes_wraps :
    Reachable ptrdiffMax Buffer.new ∧
      ensureWritableBytes ptrdiffMax Buffer.new (bound - 8) = .ok Buffer.new ∧
      writableBytes Buffer.new = 1024 ∧ ¬ Ensures ptrdiffMax Buffer.new (bound - 8) ∧
      ∀ data : List Byte, data.length = bound - 8 → append ptrdiffMax Buffer.new data = none := by
  have hwritable : writableBytes Buffer.new = 1024 := by decide +kernel
  have hcall : ensureWritableBytes ptrdiffMax Buffer.new (bound - 8) = .ok Buffer.new := by
    unfold ensureWritableBytes makeSpace
    rw [if_pos (by decide +kernel), if_neg (by decide +kernel)]
    exact congrArg Except.ok (by decide +kernel)
  refine ⟨.new (by decide +kernel), hcall, hwritable, fun h => ?_, fun data hdata => ?_⟩
  · have hspace := (h.ok _ hcall).1
    rw [hwritable] at hspace
    exact absurd hspace (by decide +kernel)
  · unfold append
    rw [hdata, hcall]
    dsimp only
    rw [if_neg (by decide +kernel)]

end Agora.SizedBuffer
