import Agora.Spec.Percent
import Agora.Http.StaticFiles

/-! # The escapes of a request path -/

open Agora.Spec

namespace Agora

/-! ## `std::stoi` on two characters -/

theorem magnitude_digits {a b : Byte} {high low : Nat} (ha : hexDigit a = some high)
    (hb : hexDigit b = some low) : magnitude [a, b] = some (16 * high + low) := by
  unfold magnitude dropPrefix
  simp only [hexDigits, ha, hb, List.foldl_cons, List.foldl_nil, Nat.mul_comm]

theorem magnitude_low {a b : Byte} {n : Nat} (hdigits : ¬ ((hexDigit a).isSome ∧ (hexDigit b).isSome))
    (h : magnitude [a, b] = some n) : n < 16 := by
  unfold magnitude dropPrefix at h
  cases ha : hexDigit a with
  | none =>
    simp only [hexDigits, ha] at h
    cases h
  | some high =>
    cases hb : hexDigit b with
    | none =>
      simp only [hexDigits, ha, hb, List.foldl_nil] at h
      obtain rfl := Option.some.inj h
      exact (hexDigit_bounds ha).1
    | some low =>
      rw [ha, hb] at hdigits
      exact absurd ⟨rfl, rfl⟩ hdigits

theorem plain_of_hexDigit {c : Byte} (h : (hexDigit c).isSome = true) :
    isSpace c = false ∧ c ≠ MINUS ∧ c ≠ PLUS := by
  refine ⟨?_, ?_, ?_⟩
  · rw [Bool.eq_false_iff]
    intro hspace
    revert h
    unfold isSpace HttpContext.SP at hspace
    unfold hexDigit
    simp only [UInt8.le_iff_toNat_le, ← UInt8.toNat_inj, UInt8.reduceToNat, Bool.or_eq_true,
      Bool.and_eq_true, decide_eq_true_eq] at hspace ⊢
    rw [if_neg (by omega), if_neg (by omega), if_neg (by omega)]
    decide
  · rintro rfl
    revert h
    decide
  · rintro rfl
    revert h
    decide

theorem stoi16_digits {a b : Byte} {high low : Nat} (ha : hexDigit a = some high)
    (hb : hexDigit b = some low) : stoi16 [a, b] = some (16 * high + low : Nat) := by
  obtain ⟨hspace, hminus, hplus⟩ := plain_of_hexDigit (Option.isSome_of_eq_some ha)
  have hsigned : signOf ([a, b].dropWhile isSpace) = (false, [a, b]) := by
    rw [List.dropWhile_cons_of_neg (by rw [hspace]; decide)]
    unfold signOf
    dsimp only
    rw [if_neg hminus, if_neg hplus]
  unfold stoi16
  rw [hsigned]
  dsimp only
  rw [magnitude_digits ha hb]
  rfl

theorem toChar_percent (n : Int) : toChar n = PERCENT ↔ n % 256 = 37 := by
  unfold toChar PERCENT
  rw [← UInt8.toNat_inj]
  simp only [Nat.toUInt8_eq, UInt8.toNat_ofNat', UInt8.reduceToNat]
  omega

theorem stoi16_percent {a b : Byte} {n : Int} (hdigits : ¬ ((hexDigit a).isSome ∧ (hexDigit b).isSome))
    (h : stoi16 [a, b] = some n) : toChar n ≠ PERCENT := by
  unfold stoi16 at h
  obtain ⟨m, hm, hn⟩ := Option.map_eq_some_iff.mp h
  have hlow : m < 16 := by
    rcases signOf_pair a b with hsign | hsign
    · rw [hsign] at hm
      exact magnitude_low hdigits hm
    · exact magnitude_short hsign hm
  rw [Ne, toChar_percent]
  split at hn
  · omega
  · omega

namespace StaticFileServer

theorem urlDecode_cons {c : Byte} (hc : c ≠ PERCENT) (l : List Byte) :
    urlDecode (c :: l) = (urlDecode l).map (plain c :: ·) := by
  rcases l with _ | ⟨a, _ | ⟨b, rest⟩⟩
  · rfl
  · rfl
  · rw [urlDecode, if_neg hc]
    rfl

theorem urlDecode_escape (a b : Byte) (l : List Byte) :
    urlDecode (PERCENT :: a :: b :: l) =
      (stoi16 [a, b]).bind fun hex => (urlDecode l).map (toChar hex :: ·) := by
  rw [urlDecode, if_pos rfl]
  cases stoi16 [a, b] <;> rfl

/-- The code is the reference decoder exactly on the paths whose escapes are escapes. -/
theorem urlDecode_iff (l : List Byte) : urlDecode l = some (percentDecode l) ↔ WellEscaped l := by
  induction l using urlDecode.induct with
  | case1 a b rest hex hhex ih =>
    rw [urlDecode_escape, hhex, Option.bind_some]
    by_cases hdigits : (hexDigit a).isSome ∧ (hexDigit b).isSome
    · obtain ⟨high, ha⟩ := Option.isSome_iff_exists.mp hdigits.1
      obtain ⟨low, hb⟩ := Option.isSome_iff_exists.mp hdigits.2
      have hbyte : escaped a b = some (toChar hex) := by
        rw [stoi16_digits ha hb] at hhex
        obtain rfl := Option.some.inj hhex
        have hbounds := (hexDigit_bounds ha).1
        have hbounds' := (hexDigit_bounds hb).1
        unfold escaped toChar
        rw [ha, hb]
        dsimp only
        congr 2
        omega
      rw [percentDecode_escape hbyte, wellEscaped_escape, ← ih]
      simp [hdigits, Option.map_eq_some_iff]
    · have hnone : escaped a b = none := by
        rw [← Option.not_isSome_iff_eq_none, escaped_isSome]
        exact hdigits
      rw [percentDecode_percent hnone, wellEscaped_escape]
      constructor
      · intro h
        obtain ⟨decoded, -, hdecoded⟩ := Option.map_eq_some_iff.mp h
        exact absurd (List.cons.inj hdecoded).1 (stoi16_percent hdigits hhex)
      · rintro ⟨ha, hb, -⟩
        exact absurd ⟨ha, hb⟩ hdigits
  | case2 a b rest hhex =>
    rw [urlDecode_escape, hhex, wellEscaped_escape]
    constructor
    · intro h
      cases h
    · rintro ⟨ha, hb, -⟩
      obtain ⟨high, ha⟩ := Option.isSome_iff_exists.mp ha
      obtain ⟨low, hb⟩ := Option.isSome_iff_exists.mp hb
      rw [stoi16_digits ha hb] at hhex
      cases hhex
  | case3 c a b rest hc ih =>
    rw [urlDecode_cons hc, percentDecode_cons hc, wellEscaped_cons hc, ← ih]
    simp [Option.map_eq_some_iff]
  | case4 c rest hshort ih =>
    rcases rest with _ | ⟨a, _ | ⟨b, rest⟩⟩
    · exact ⟨fun _ => wellEscaped_short (by simp), fun _ => rfl⟩
    · exact ⟨fun _ => wellEscaped_short (by simp), fun _ => rfl⟩
    · exact (hshort a b rest rfl).elim
  | case5 => exact ⟨fun _ => wellEscaped_short (by decide), fun _ => rfl⟩

/-- **No check of a request raises, and its path is decoded as it is meant**, for every server and path,
exactly if each percent sign with two bytes behind it stands before two digits. -/
theorem request_decoded_iff (s : StaticFileServer) (path : List Byte) :
    (s.checkedPath path).isSome ∧ urlDecode path = some (percentDecode path) ↔ WellEscaped path := by
  rw [← urlDecode_iff]
  refine ⟨fun h => h.2, fun h => ⟨?_, h⟩⟩
  rw [checkedPath, h]
  rfl

/-- `GET /%zz HTTP/1.1` is accepted and ends the thread, and `/%4g` names another file. -/
theorem escape_not_checked :
    (∃ req, HttpContext.processRequestLine .new (ascii "GET /%zz HTTP/1.1".toList) = (true, req) ∧
      ∀ s, StaticFileServer.checkedPath s req.path = none) ∧
    ∃ req, HttpContext.processRequestLine .new (ascii "GET /%4g HTTP/1.1".toList) = (true, req) ∧
      urlDecode req.path = some [SLASH, 4] ∧ percentDecode req.path = ascii "/%4g".toList := by
  have hthrows : HttpContext.processRequestLine .new (ascii "GET /%zz HTTP/1.1".toList) =
      (true, ⟨.kGet, .kHttp11, ascii "/%zz".toList, [], []⟩) := by decide
  have hother : HttpContext.processRequestLine .new (ascii "GET /%4g HTTP/1.1".toList) =
      (true, ⟨.kGet, .kHttp11, ascii "/%4g".toList, [], []⟩) := by decide
  refine ⟨⟨_, hthrows, fun s => ?_⟩, _, hother, by decide, by decide⟩
  have hraise : urlDecode (ascii "/%zz".toList) = none := by decide
  unfold checkedPath
  rw [hraise]
  rfl

/-- Where a whole request raises: in its checks, or in `serveFile`, where the path names a directory. -/
theorem onRequest_raises_iff (s : StaticFileServer) (files : Files) (req : HttpRequest) (resp : HttpResponse) :
    (s.onRequest files req resp).response = none ↔
      s.checkedPath req.path = none ∨
        ∃ path, s.checkedPath req.path = some (some path) ∧ files path = some .oversized := by
  unfold onRequest serveFile
  rcases s.checkedPath req.path with _ | _ | path
  · simp
  · simp
  · simp only [Option.map_eq_none_iff, Option.some.injEq, exists_eq_left']
    rcases files path with _ | _ | _ <;> simp

/-- **Decoding inverts percent-encoding**, in whichever of its ways each byte is written. -/
theorem urlDecode_encoded {e s : List Byte} (h : Encodes e s) : urlDecode e = some s := by
  rw [(urlDecode_iff e).mpr h.wellEscaped, h.percentDecode]

theorem urlDecode_encoded_mixed :
    Encodes (ascii "a+%20%2b%fF%00".toList) [97, 32, 32, 43, 255, 0] ∧
      urlDecode (ascii "a+%20%2b%fF%00".toList) = some [97, 32, 32, 43, 255, 0] := by
  have h : Encodes (ascii "a+%20%2b%fF%00".toList) [97, 32, 32, 43, 255, 0] :=
    .literal (by decide) (by decide) <| .plus <|
      @Encodes.escape 50 48 32 2 0 _ _ (by decide) (by decide) (by decide) <|
      @Encodes.escape 50 98 43 2 11 _ _ (by decide) (by decide) (by decide) <|
      @Encodes.escape 102 70 255 15 15 _ _ (by decide) (by decide) (by decide) <|
      @Encodes.escape 48 48 0 0 0 _ _ (by decide) (by decide) (by decide) .nil
  exact ⟨h, urlDecode_encoded h⟩

end StaticFileServer

end Agora
