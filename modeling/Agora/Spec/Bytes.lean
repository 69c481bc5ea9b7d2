import Agora.Code.Buffer

/-!
# What byte streams mean

Pure definitions: the first line end of a byte string, and the FIFO queue that a `Buffer` is for.
-/

namespace Agora.Spec

/-- CR LF stands at offset `i`. -/
def crlfAt (l : List Byte) (i : Nat) : Prop := l[i]? = some CR ∧ l[i + 1]? = some LF

instance (l : List Byte) (i : Nat) : Decidable (crlfAt l i) := inferInstanceAs (Decidable (_ ∧ _))

/-- The least offset of CR LF. -/
def firstCRLF : List Byte → Option Nat
  | a :: b :: rest =>
    if a = CR ∧ b = LF then some 0 else (firstCRLF (b :: rest)).map (· + 1)
  | _ => none

theorem firstCRLF_some_iff (l : List Byte) (i : Nat) :
    firstCRLF l = some i ↔ crlfAt l i ∧ ∀ j < i, ¬ crlfAt l j := by
  induction l generalizing i with
  | nil => simp [firstCRLF, crlfAt]
  | cons a l ih =>
    match l with
    | [] => simp [firstCRLF, crlfAt]
    | b :: rest =>
      have hzero : crlfAt (a :: b :: rest) 0 ↔ a = CR ∧ b = LF := by simp [crlfAt]
      have hsucc : ∀ j, crlfAt (a :: b :: rest) (j + 1) ↔ crlfAt (b :: rest) j := fun j => Iff.rfl
      rw [firstCRLF]
      split
      · rename_i hab
        constructor
        · rintro ⟨⟩
          exact ⟨hzero.mpr hab, by simp⟩
        · rintro ⟨_, hmin⟩
          match i, hmin with
          | 0, _ => rfl
          | i + 1, hmin => exact absurd (hzero.mpr hab) (hmin 0 (by omega))
      · rename_i hab
        rw [Option.map_eq_some_iff]
        constructor
        · rintro ⟨j, hj, rfl⟩
          obtain ⟨hat, hmin⟩ := (ih j).mp hj
          refine ⟨(hsucc j).mpr hat, fun k hk => ?_⟩
          match k, hk with
          | 0, _ => exact fun h => hab (hzero.mp h)
          | k + 1, hk => exact fun h => hmin k (by omega) ((hsucc k).mp h)
        · rintro ⟨hat, hmin⟩
          match i, hat, hmin with
          | 0, hat, _ => exact absurd (hzero.mp hat) hab
          | i + 1, hat, hmin =>
            exact ⟨i, (ih i).mpr ⟨(hsucc i).mp hat,
              fun k hk h => hmin (k + 1) (by omega) ((hsucc k).mpr h)⟩, rfl⟩

theorem crlfAt_length {l : List Byte} {i : Nat} (h : crlfAt l i) : i + 2 ≤ l.length := by
  have := (List.getElem?_eq_some_iff.mp h.2).1
  omega

theorem firstCRLF_none_iff (l : List Byte) : firstCRLF l = none ↔ ∀ i, ¬ crlfAt l i := by
  constructor
  · intro h i hi
    -- The least one would have been found.
    induction i using Nat.strongRecOn with
    | ind i ih =>
      have : firstCRLF l = some i := (firstCRLF_some_iff l i).mpr ⟨hi, fun j hj hat => ih j hj hat⟩
      simp [h] at this
  · intro h
    cases hf : firstCRLF l with
    | none => rfl
    | some i => exact absurd ((firstCRLF_some_iff l i).mp hf).1 (h i)

theorem firstCRLF_length {l : List Byte} {i : Nat} (h : firstCRLF l = some i) : i + 2 ≤ l.length :=
  crlfAt_length ((firstCRLF_some_iff l i).mp h).1

theorem firstCRLF_append {l : List Byte} {i : Nat} (h : firstCRLF l = some i) (m : List Byte) :
    firstCRLF (l ++ m) = some i := by
  obtain ⟨⟨hcr, hlf⟩, hmin⟩ := (firstCRLF_some_iff l i).mp h
  have hlen := firstCRLF_length h
  have hold : ∀ j, j + 2 ≤ l.length → (crlfAt (l ++ m) j ↔ crlfAt l j) := by
    intro j hj
    unfold crlfAt
    rw [List.getElem?_append_left (by omega), List.getElem?_append_left (by omega)]
  refine (firstCRLF_some_iff _ i).mpr ⟨(hold i hlen).mpr ⟨hcr, hlf⟩, fun j hj hat => ?_⟩
  exact hmin j hj ((hold j (by omega)).mp hat)

/-! ## The queue -/

/-- One operation of a `Buffer`, with its arguments and what the system call in it returned.
A pointer is an offset from `peek()`. -/
inductive BufferOp
  | append (data : List Byte)
  | retrieve (len : Nat)
  | retrieveAll
  | retrieveAsString (len : Nat)
  | retrieveAllAsString
  | retrieveUntil (offset : Nat)
  | ensureWritableBytes (len : Nat)
  | readFd (data : Option (List Byte))
  | writeFd

/-- The queue after an operation, and the bytes that it returned. -/
def queueStep (q : List Byte) : BufferOp → List Byte × List Byte
  | .append data => (q ++ data, [])
  | .retrieve len => (q.drop (min len q.length), [])
  | .retrieveAll => ([], [])
  | .retrieveAsString len => (q.drop len, q.take len)
  | .retrieveAllAsString => ([], q)
  | .retrieveUntil offset => (q.drop offset, [])
  | .ensureWritableBytes _ => (q, [])
  | .readFd data => (q ++ data.getD [], [])
  | .writeFd => (q, q)

/-- The queue after a sequence of operations on the empty queue, and all that they returned. -/
def queueRun (ops : List BufferOp) : List Byte × List (List Byte) :=
  ops.foldl (fun r op => ((queueStep r.1 op).1, r.2 ++ [(queueStep r.1 op).2])) ([], [])

theorem queueRun_snoc (ops : List BufferOp) (op : BufferOp) :
    queueRun (ops ++ [op]) = ((queueStep (queueRun ops).1 op).1,
      (queueRun ops).2 ++ [(queueStep (queueRun ops).1 op).2]) := by
  simp [queueRun]

end Agora.Spec
