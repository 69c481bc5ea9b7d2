import Agora.Code.StaticFileServer

/-! # Percent-encoding -/

namespace Agora.Spec

/-- The byte that two hexadecimal digits denote. -/
def escaped (a b : Byte) : Option Byte :=
  match hexDigit a, hexDigit b with
  | some high, some low => some (16 * high + low).toUInt8
  | _, _ => none

/-- What a byte outside of an escape stands for. -/
def plain (c : Byte) : Byte := if c = PLUS then HttpContext.SP else c

/-- The reference decoder: a percent sign that is not followed by two digits is copied. -/
def percentDecode : List Byte → List Byte
  | c :: a :: b :: rest =>
    match if c = PERCENT then escaped a b else none with
    | some byte => byte :: percentDecode rest
    | none => plain c :: percentDecode (a :: b :: rest)
  | c :: rest => plain c :: percentDecode rest
  | [] => []

example : percentDecode (ascii "a%2Fb+%zz%4".toList) = ascii "a/b %zz%4".toList := by decide

/-- `Encodes e s`: `e` is `s` with each byte written in one of its ways. -/
inductive Encodes : List Byte → List Byte → Prop
  | nil : Encodes [] []
  | literal {c : Byte} {e s : List Byte} (hpercent : c ≠ PERCENT) (hplus : c ≠ PLUS)
      (rest : Encodes e s) : Encodes (c :: e) (c :: s)
  | escape {a b c : Byte} {high low : Nat} {e s : List Byte} (ha : hexDigit a = some high)
      (hb : hexDigit b = some low) (hc : c.toNat = 16 * high + low) (rest : Encodes e s) :
      Encodes (PERCENT :: a :: b :: e) (c :: s)
  | plus {e s : List Byte} (rest : Encodes e s) : Encodes (PLUS :: e) (HttpContext.SP :: s)

/-- Two bytes behind a percent sign are hexadecimal digits. -/
def WellEscaped (l : List Byte) : Prop :=
  ∀ a b rest, PERCENT :: a :: b :: rest <:+ l → (hexDigit a).isSome ∧ (hexDigit b).isSome

theorem wellEscaped_cons {c : Byte} {l : List Byte} (hc : c ≠ PERCENT) :
    WellEscaped (c :: l) ↔ WellEscaped l := by
  constructor
  · intro h a b rest hsuffix
    exact h a b rest (hsuffix.trans (List.suffix_cons c l))
  · intro h a b rest hsuffix
    rcases List.suffix_cons_iff.mp hsuffix with heq | hsuffix
    · exact absurd (List.cons.inj heq).1.symm hc
    · exact h a b rest hsuffix

theorem wellEscaped_short {l : List Byte} (h : l.length < 3) : WellEscaped l := by
  intro a b rest hsuffix
  have hlength := hsuffix.length_le
  simp only [List.length_cons] at hlength
  omega

theorem not_percent_of_hexDigit {c : Byte} (h : (hexDigit c).isSome = true) : c ≠ PERCENT := by
  rintro rfl
  revert h
  decide

theorem wellEscaped_escape {a b : Byte} {rest : List Byte} :
    WellEscaped (PERCENT :: a :: b :: rest) ↔
      (hexDigit a).isSome ∧ (hexDigit b).isSome ∧ WellEscaped rest := by
  constructor
  · intro h
    obtain ⟨ha, hb⟩ := h a b rest List.suffix_rfl
    refine ⟨ha, hb, fun x y more hsuffix => h x y more ?_⟩
    exact hsuffix.trans (List.suffix_append [PERCENT, a, b] rest)
  · rintro ⟨ha, hb, h⟩ x y more hsuffix
    -- The digits of the escape are not percent signs themselves.
    have hrest : WellEscaped (a :: b :: rest) := by
      rw [wellEscaped_cons (not_percent_of_hexDigit ha), wellEscaped_cons (not_percent_of_hexDigit hb)]
      exact h
    rcases List.suffix_cons_iff.mp hsuffix with heq | hsuffix
    · obtain ⟨-, hdigits⟩ := List.cons.inj heq
      obtain ⟨rfl, hdigit⟩ := List.cons.inj hdigits
      obtain ⟨rfl, -⟩ := List.cons.inj hdigit
      exact ⟨ha, hb⟩
    · exact hrest x y more hsuffix

theorem escaped_isSome (a b : Byte) :
    (escaped a b).isSome ↔ (hexDigit a).isSome ∧ (hexDigit b).isSome := by
  unfold escaped
  cases hexDigit a <;> cases hexDigit b <;> simp

theorem percentDecode_cons {c : Byte} (hc : c ≠ PERCENT) (l : List Byte) :
    percentDecode (c :: l) = plain c :: percentDecode l := by
  rcases l with _ | ⟨a, _ | ⟨b, rest⟩⟩
  · rfl
  · rfl
  · rw [percentDecode, if_neg hc]

theorem percentDecode_escape {a b c : Byte} (h : escaped a b = some c) (l : List Byte) :
    percentDecode (PERCENT :: a :: b :: l) = c :: percentDecode l := by
  rw [percentDecode, if_pos rfl, h]

theorem percentDecode_percent {a b : Byte} (h : escaped a b = none) (l : List Byte) :
    percentDecode (PERCENT :: a :: b :: l) = PERCENT :: percentDecode (a :: b :: l) := by
  rw [percentDecode, if_pos rfl, h]
  rfl

theorem Encodes.wellEscaped {e s : List Byte} (h : Encodes e s) : WellEscaped e := by
  induction h with
  | nil => exact wellEscaped_short (by decide)
  | literal hpercent hplus rest ih => exact (wellEscaped_cons hpercent).mpr ih
  | escape ha hb hc rest ih =>
    refine wellEscaped_escape.mpr ⟨?_, ?_, ih⟩
    · rw [ha]; rfl
    · rw [hb]; rfl
  | plus rest ih => exact (wellEscaped_cons (by decide)).mpr ih

theorem Encodes.percentDecode {e s : List Byte} (h : Encodes e s) : percentDecode e = s := by
  induction h with
  | nil => rfl
  | literal hpercent hplus rest ih =>
    rw [percentDecode_cons hpercent, ih, plain, if_neg hplus]
  | @escape a b c high low e s ha hb hc rest ih =>
    have hbyte : escaped a b = some c := by
      unfold escaped
      rw [ha, hb]
      dsimp only
      rw [← hc]
      exact congrArg some UInt8.ofNat_toNat
    rw [percentDecode_escape hbyte, ih]
  | plus rest ih =>
    rw [percentDecode_cons (by decide), ih]
    rfl

end Agora.Spec
