import Agora.Code.HttpResponse
import Agora.Spec.Lines

/-!
# What the bytes of a response mean

A reader of responses, from the format alone: the status line, header lines up to the first empty
line, and as many bytes of body as `Content-Length` says.
-/

namespace Agora.Spec

open HttpResponse

/-- A decimal number, of digits only. -/
def decimal (l : List Byte) : Option Nat :=
  if l ≠ [] ∧ l.all fun b => 48 ≤ b && b ≤ 57 then
    some (Nat.ofDigitChars 10 (l.map fun b => Char.ofNat b.toNat) 0)
  else none

/-- The status code and the message. -/
def statusLine (line : List Byte) : Option (Nat × List Byte) :=
  (cut HttpContext.SP line).bind fun version =>
    if version.1 = httpVersion then
      (cut HttpContext.SP version.2).bind fun status =>
        (decimal status.1).map fun code => (code, status.2)
    else none

/-- A name, a colon, a blank and the value. -/
def headerLine (line : List Byte) : Option (List Byte × List Byte) :=
  (cut HttpContext.COLON line).bind fun field =>
    if field.2.head? = some HttpContext.SP then some (field.1, field.2.tail) else none

/-- The header lines up to the first empty line, and what is behind that. -/
def headerLines (l : List Byte) : Option (HeaderMap × List Byte) :=
  match h : firstCRLF l with
  | none => none
  | some 0 => some ([], l.drop 2)
  | some (i + 1) =>
    have : (l.drop (i + 3)).length < l.length := by
      have := firstCRLF_length h
      rw [List.length_drop]
      omega
    (headerLine (l.take (i + 1))).bind fun field =>
      (headerLines (l.drop (i + 3))).map fun r => (field :: r.1, r.2)
termination_by l.length

def lookup (name : List Byte) (fields : HeaderMap) : Option (List Byte) :=
  (fields.find? fun field => field.1 = name).map Prod.snd

/-- Whether the `Connection` header asks to close. -/
def closes (value : List Byte) : Option Bool :=
  if value = close then some true else if value = keepAlive then some false else none

/-- The map after these assignments. -/
def assignAll (map fields : HeaderMap) : HeaderMap :=
  fields.foldl (fun map field => map.assign field.1 field.2) map

/-- The headers that do not say how the response is framed, as a map. -/
def ownHeaders (fields : HeaderMap) : HeaderMap :=
  assignAll [] (fields.filter fun field => field.1 ≠ contentLength ∧ field.1 ≠ connection)

structure Response where
  statusCode : Nat
  statusMessage : List Byte
  headers : HeaderMap
  closeConnection : Bool
  body : List Byte
deriving DecidableEq, Repr

/-- The first response of a stream, and the bytes behind it. -/
def readResponse (l : List Byte) : Option (Response × List Byte) :=
  (firstCRLF l).bind fun i =>
  (statusLine (l.take i)).bind fun status =>
  (headerLines (l.drop (i + 2))).bind fun fields =>
  ((lookup contentLength fields.1).bind decimal).bind fun length =>
  ((lookup connection fields.1).bind closes).bind fun closing =>
    if length ≤ fields.2.length then
      some (⟨status.1, status.2, ownHeaders fields.1, closing, fields.2.take length⟩,
        fields.2.drop length)
    else none

/-! ## Numbers -/

theorem toNat_of_isDigit {c : Char} (h : c.isDigit) : 48 ≤ c.toNat ∧ c.toNat ≤ 57 := by
  unfold Char.isDigit at h
  simp only [Bool.and_eq_true, decide_eq_true_eq, ge_iff_le, UInt32.le_iff_toNat_le] at h
  exact h

theorem ascii_digits {l : List Char} (h : ∀ c ∈ l, c.isDigit) :
    ((ascii l).all fun b => 48 ≤ b && b ≤ 57) = true ∧
      (ascii l).map (fun b => Char.ofNat b.toNat) = l := by
  unfold ascii
  induction l with
  | nil => exact ⟨rfl, rfl⟩
  | cons c l ih =>
    obtain ⟨hc, hl⟩ := List.forall_mem_cons.mp h
    obtain ⟨hall, hback⟩ := ih hl
    obtain ⟨hlow, hhigh⟩ := toNat_of_isDigit hc
    have hbyte : c.toNat.toUInt8.toNat = c.toNat := by
      rw [Nat.toUInt8_eq, UInt8.toNat_ofNat']
      omega
    refine ⟨?_, ?_⟩
    · rw [List.map_cons, List.all_cons, hall]
      simp only [Bool.and_true, Bool.and_eq_true, decide_eq_true_eq, UInt8.le_iff_toNat_le, hbyte]
      exact ⟨hlow, hhigh⟩
    · rw [List.map_cons, List.map_cons, hback, hbyte, Char.ofNat_toNat]

theorem stdToString_digits (n : Nat) :
    ((stdToString n).all fun b => 48 ≤ b && b ≤ 57) = true ∧
      (stdToString n).map (fun b => Char.ofNat b.toNat) = Nat.toDigits 10 n :=
  ascii_digits fun _ hc => Nat.isDigit_of_mem_toDigits (by decide) (by decide) hc

theorem decimal_stdToString (n : Nat) : decimal (stdToString n) = some n := by
  obtain ⟨hall, hback⟩ := stdToString_digits n
  have hne : stdToString n ≠ [] := by simp [stdToString, ascii, Nat.toDigits_ne_nil]
  unfold decimal
  rw [if_pos ⟨hne, hall⟩, hback, Nat.ofDigitChars_ten_toDigits]

theorem not_mem_stdToString {b : Byte} (h : (48 ≤ b && b ≤ 57) = false) (n : Nat) :
    b ∉ stdToString n := by
  intro hin
  exact nomatch h.symm.trans (List.all_eq_true.mp (stdToString_digits n).1 b hin)

/-! ## Header lines -/

/-- A header as it stands in a line. -/
def fieldLine (field : List Byte × List Byte) : List Byte := field.1 ++ colon ++ field.2

/-- A header that can be written as one line. -/
structure Writable (field : List Byte × List Byte) : Prop where
  name : field.1 ≠ []
  nameNoColon : HttpContext.COLON ∉ field.1
  nameNoCR : CR ∉ field.1
  nameNoLF : LF ∉ field.1
  valueNoCR : CR ∉ field.2
  valueNoLF : LF ∉ field.2

theorem Writable.line {field : List Byte × List Byte} (h : Writable field) :
    Line (fieldLine field) := by
  refine Line.of_noCR ?_
  unfold fieldLine
  rw [List.mem_append, List.mem_append, not_or, not_or]
  exact ⟨⟨h.nameNoCR, by decide⟩, h.valueNoCR⟩

theorem Writable.cut_line {field : List Byte × List Byte} (h : Writable field) :
    cut HttpContext.COLON (fieldLine field) = some (field.1, HttpContext.SP :: field.2) := by
  unfold fieldLine
  rw [List.append_assoc]
  exact cut_append h.nameNoColon _

theorem headerLine_fieldLine {field : List Byte × List Byte} (h : Writable field) :
    headerLine (fieldLine field) = some field := by
  unfold headerLine
  rw [h.cut_line]
  rfl

theorem headerLines_empty (rest : List Byte) :
    headerLines (ended [] ++ rest) = some ([], rest) := by
  have hfirst : firstCRLF (ended [] ++ rest) = some 0 := Line.firstCRLF_ended rfl rest
  unfold headerLines
  split
  · rename_i hnone
    exact nomatch hnone.symm.trans hfirst
  · rfl
  · rename_i i hsome
    exact nomatch hsome.symm.trans hfirst

theorem headerLines_field {field : List Byte × List Byte} (h : Writable field) (rest : List Byte) :
    headerLines (ended (fieldLine field) ++ rest) =
      (headerLines rest).map fun r => (field :: r.1, r.2) := by
  have hfirst := h.line.firstCRLF_ended rest
  have hpos : 0 < (fieldLine field).length := by
    unfold fieldLine
    rw [List.append_assoc, List.length_append]
    have := List.length_pos_iff.mpr h.name
    omega
  rw [headerLines]
  split
  · rename_i hnone
    exact nomatch hnone.symm.trans hfirst
  · rename_i hzero
    have := Option.some.inj (hzero.symm.trans hfirst)
    omega
  · rename_i i hsome
    have hi : i + 1 = (fieldLine field).length := Option.some.inj (hsome.symm.trans hfirst)
    have htake : (ended (fieldLine field) ++ rest).take (i + 1) = fieldLine field := by
      rw [hi, take_ended]
    have hdrop : (ended (fieldLine field) ++ rest).drop (i + 3) = rest := by
      rw [show i + 3 = (fieldLine field).length + 2 by omega, drop_ended]
    simp only [htake, hdrop, headerLine_fieldLine h, Option.bind_some]

theorem headerLines_fields {fields : HeaderMap} (h : ∀ field ∈ fields, Writable field)
    (rest : List Byte) :
    headerLines ((fields.flatMap fun field => ended (fieldLine field)) ++ (ended [] ++ rest)) =
      some (fields, rest) := by
  induction fields with
  | nil => exact headerLines_empty rest
  | cons field fields ih =>
    obtain ⟨hfield, hfields⟩ := List.forall_mem_cons.mp h
    rw [List.flatMap_cons, List.append_assoc, headerLines_field hfield, ih hfields]
    rfl

/-! ## Header maps -/

theorem assign_new {map : HeaderMap} {name : List Byte} (h : name ∉ map.map Prod.fst)
    (value : List Byte) : map.assign name value = map ++ [(name, value)] := by
  induction map with
  | nil => rfl
  | cons field map ih =>
    obtain ⟨hne, hnot⟩ := not_or.mp (mt List.mem_cons.mpr h)
    rw [HeaderMap.assign, if_neg (fun heq => hne heq.symm), ih hnot]
    rfl

theorem assign_names (map : HeaderMap) (name value : List Byte) :
    (map.assign name value).map Prod.fst =
      if name ∈ map.map Prod.fst then map.map Prod.fst else map.map Prod.fst ++ [name] := by
  induction map with
  | nil => rfl
  | cons field map ih =>
    unfold HeaderMap.assign
    by_cases heq : field.1 = name
    · rw [if_pos heq, if_pos (by simp [heq])]
      simp [heq]
    · have hne : ¬ name = field.1 := fun h => heq h.symm
      rw [if_neg heq, List.map_cons, ih, List.map_cons]
      simp only [List.mem_cons, hne, false_or]
      split
      · rfl
      · rfl

theorem assignAll_new {fields map : HeaderMap} (h : ((map ++ fields).map Prod.fst).Nodup) :
    assignAll map fields = map ++ fields := by
  unfold assignAll
  induction fields generalizing map with
  | nil => exact (List.append_nil map).symm
  | cons field fields ih =>
    have hnew : field.1 ∉ map.map Prod.fst := by
      rw [List.map_append, List.map_cons] at h
      intro hin
      exact (List.nodup_append.mp h).2.2 field.1 hin field.1 List.mem_cons_self rfl
    have happend : map ++ field :: fields = (map ++ [(field.1, field.2)]) ++ fields := by simp
    rw [List.foldl_cons, assign_new hnew, happend]
    exact ih (by rw [← happend]; exact h)

theorem lookup_append {name : List Byte} {front : HeaderMap} (h : name ∉ front.map Prod.fst)
    (back : HeaderMap) : lookup name (front ++ back) = lookup name back := by
  unfold lookup
  have hnone : front.find? (fun field => field.1 = name) = none := by
    refine List.find?_eq_none.mpr fun field hin heq => h ?_
    exact List.mem_map.mpr ⟨field, hin, by simpa using heq⟩
  rw [List.find?_append, hnone, Option.none_or]

end Agora.Spec
