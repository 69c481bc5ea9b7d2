import Agora.Spec.Path

/-! # Which files a request can reach -/

open Agora.Spec

namespace Agora

/-! ## Escapes -/

theorem hexDigit_bounds {c : Byte} {d : Nat} (h : hexDigit c = some d) :
    d < 16 ∧ (d = 2 ↔ c = 50) ∧ (d = 15 ↔ c = 70 ∨ c = 102) := by
  unfold hexDigit at h
  simp only [UInt8.le_iff_toNat_le, ← UInt8.toNat_inj] at h ⊢
  simp only [UInt8.reduceToNat] at h ⊢
  split at h
  · cases h
    omega
  split at h
  · cases h
    omega
  split at h
  · cases h
    omega
  · cases h

theorem toChar_slash (n : Int) : toChar n = SLASH ↔ n % 256 = 47 := by
  unfold toChar SLASH
  rw [← UInt8.toNat_inj]
  simp only [Nat.toUInt8_eq, UInt8.toNat_ofNat', UInt8.reduceToNat]
  omega

theorem magnitude_short {s : List Byte} {n : Nat} (hs : s.length ≤ 1) (h : magnitude s = some n) :
    n < 16 := by
  unfold magnitude at h
  rcases s with _ | ⟨a, _ | ⟨b, s⟩⟩
  · cases h
  · unfold dropPrefix hexDigits at h
    cases hd : hexDigit a with
    | none =>
      rw [hd] at h
      cases h
    | some d =>
      rw [hd] at h
      obtain rfl := Option.some.inj h
      exact (hexDigit_bounds hd).1
  · simp at hs

theorem magnitude_pair {a b : Byte} {n : Nat} (h : magnitude [a, b] = some n) :
    n < 256 ∧ (n = 47 ↔ a = 50 ∧ (b = 70 ∨ b = 102)) := by
  unfold magnitude dropPrefix hexDigits at h
  cases ha : hexDigit a with
  | none =>
    rw [ha] at h
    cases h
  | some d =>
    obtain ⟨hd, htwo, -⟩ := hexDigit_bounds ha
    unfold hexDigits at h
    cases hb : hexDigit b with
    | none =>
      rw [ha, hb] at h
      have hn : d = n := Option.some.inj h
      refine ⟨by omega, fun h => absurd h (by omega), ?_⟩
      rintro ⟨-, rfl | rfl⟩
      · cases hb
      · cases hb
    | some e =>
      obtain ⟨he, -, hf⟩ := hexDigit_bounds hb
      rw [ha, hb] at h
      obtain rfl := Option.some.inj h
      rw [← htwo, ← hf]
      simp only [hexDigits, List.foldl_cons, List.foldl_nil]
      omega

theorem signOf_length (s : List Byte) : (signOf s).2.length ≤ s.length := by
  unfold signOf
  split
  · split
    · simp
    split
    · simp
    · exact Nat.le_refl _
  · exact Nat.le_refl _

theorem signOf_pair (a b : Byte) : signOf ([a, b].dropWhile isSpace) = (false, [a, b]) ∨
    (signOf ([a, b].dropWhile isSpace)).2.length ≤ 1 := by
  by_cases ha : isSpace a = true
  · right
    rw [List.dropWhile_cons_of_pos ha]
    exact Nat.le_trans (signOf_length _) (List.dropWhile_suffix _).length_le
  · have hsigned : signOf [a, b] =
        if a = MINUS then (true, [b]) else if a = PLUS then (false, [b]) else (false, [a, b]) := rfl
    rw [List.dropWhile_cons_of_neg ha, hsigned]
    by_cases hminus : a = MINUS
    · right
      rw [if_pos hminus]
      exact Nat.le_refl 1
    by_cases hplus : a = PLUS
    · right
      rw [if_neg hminus, if_pos hplus]
      exact Nat.le_refl 1
    · left
      rw [if_neg hminus, if_neg hplus]

theorem stoi16_slash {a b : Byte} {n : Int} (h : stoi16 [a, b] = some n) :
    toChar n = SLASH ↔ a = 50 ∧ (b = 70 ∨ b = 102) := by
  unfold stoi16 at h
  obtain ⟨m, hm, hn⟩ := Option.map_eq_some_iff.mp h
  rw [toChar_slash]
  rcases signOf_pair a b with hsign | hsign
  · rw [hsign] at hm hn
    obtain ⟨hlt, hvalue⟩ := magnitude_pair hm
    have hn : (m : Int) = n := hn
    rw [← hvalue]
    omega
  · have hlt := magnitude_short hsign hm
    have hnot : n % 256 ≠ 47 := by
      split at hn
      · omega
      · omega
    refine ⟨fun h => absurd h hnot, ?_⟩
    -- `2f` and `2F` have neither a space nor a sign.
    rintro ⟨rfl, rfl | rfl⟩
    · exact absurd hsign (by decide)
    · exact absurd hsign (by decide)

namespace StaticFileServer

theorem hasDotDot_iff (path : List Byte) : hasDotDot path = true ↔ [DOT, DOT] <:+: path := by
  induction path with
  | nil => simp [hasDotDot]
  | cons a path ih =>
    cases path with
    | nil => simp [hasDotDot, List.infix_cons_iff]
    | cons b path =>
      have hfirst : [DOT, DOT] <+: a :: b :: path ↔ a = DOT ∧ b = DOT := by
        rw [List.cons_prefix_cons, List.cons_prefix_cons]
        exact ⟨fun h => ⟨h.1.symm, h.2.1.symm⟩, fun h => ⟨h.1.symm, h.2.symm, List.nil_prefix⟩⟩
      have hinfix : [DOT, DOT] <:+: a :: b :: path ↔
          [DOT, DOT] <+: a :: b :: path ∨ [DOT, DOT] <:+: b :: path := List.infix_cons_iff
      unfold hasDotDot
      rw [Bool.or_eq_true, ih, hinfix, hfirst, Bool.and_eq_true, decide_eq_true_eq, decide_eq_true_eq]

theorem no_component_up {path rel : List Byte} (h : hasDotDot path = false) (hrel : rel <:+: path) :
    [DOT, DOT] ∉ components rel := by
  intro hmem
  have hinfix := (infix_of_mem_components hmem).trans hrel
  rw [(hasDotDot_iff path).mpr hinfix] at h
  cases h

/-- The path begins with a slash or with an escape of one. -/
def startsAtSlash : List Byte → Bool
  | c :: a :: b :: _ => c = SLASH || (c = PERCENT && a = 50 && (b = 70 || b = 102))
  | c :: _ => c = SLASH
  | [] => false

theorem plain_slash (c : Byte) : (if c = PLUS then HttpContext.SP else c) = SLASH ↔ c = SLASH := by
  by_cases hplus : c = PLUS
  · rw [if_pos hplus, hplus]
    decide
  · rw [if_neg hplus]

theorem urlDecode_slash {path decoded : List Byte} (h : urlDecode path = some decoded) :
    decoded.head? = some SLASH ↔ startsAtSlash path = true := by
  rcases path with _ | ⟨c, _ | ⟨a, _ | ⟨b, rest⟩⟩⟩
  · obtain rfl := Option.some.inj h
    simp [startsAtSlash]
  · obtain ⟨more, -, rfl⟩ := Option.map_eq_some_iff.mp h
    simp [startsAtSlash, plain_slash]
  · obtain ⟨more, -, rfl⟩ := Option.map_eq_some_iff.mp h
    simp [startsAtSlash, plain_slash]
  · unfold urlDecode at h
    by_cases hescape : c = PERCENT
    · rw [if_pos hescape] at h
      cases hhex : stoi16 [a, b] with
      | none =>
        rw [hhex] at h
        cases h
      | some hex =>
        rw [hhex] at h
        obtain ⟨more, -, rfl⟩ := Option.map_eq_some_iff.mp h
        have hslash := stoi16_slash hhex
        have hpercent : PERCENT ≠ SLASH := by decide
        simp [startsAtSlash, hslash, hescape, hpercent]
    · rw [if_neg hescape] at h
      obtain ⟨more, -, rfl⟩ := Option.map_eq_some_iff.mp h
      simp [startsAtSlash, plain_slash, hescape]

/-! ## Requests -/

/-- The request does not get as far as `serveFile`. -/
def refuses (path : List Byte) : Bool :=
  match urlDecode path with
  | none => true
  | some decoded => hasDotDot decoded

theorem filePath_under {decoded : List Byte} (s : StaticFileServer) (h : hasDotDot decoded = false) :
    Under s.rootDir (s.filePath decoded) ↔ decoded.head? = some SLASH := by
  unfold filePath
  by_cases hindex : decoded = [SLASH]
  · rw [if_pos hindex, hindex]
    exact ⟨fun _ => rfl, fun _ => @under_of_relative _ (ascii "index.html".toList) (by decide)⟩
  · rw [if_neg hindex]
    constructor
    · intro hunder
      obtain ⟨rel, hrel, -⟩ := hunder.relative
      rw [List.append_cancel_left hrel]
      rfl
    · intro hhead
      obtain ⟨rel, rfl⟩ := List.head?_eq_some_iff.mp hhead
      exact under_of_relative (no_component_up h (List.suffix_cons SLASH rel).isInfix)

theorem checkedPath_iff (s : StaticFileServer) (encoded path : List Byte) :
    s.checkedPath encoded = some (some path) ↔
      ∃ decoded, urlDecode encoded = some decoded ∧ hasDotDot decoded = false ∧ path = s.filePath decoded := by
  unfold checkedPath
  rw [Option.map_eq_some_iff]
  constructor
  · rintro ⟨decoded, hdecode, hpath⟩
    cases hup : hasDotDot decoded with
    | true => simp [hup] at hpath
    | false => exact ⟨decoded, hdecode, hup, by simpa [hup] using hpath.symm⟩
  · rintro ⟨decoded, hdecode, hup, rfl⟩
    exact ⟨decoded, hdecode, by simp [hup]⟩

/-- `onRequest` calls `serveFile` with `path`. -/
def Serves (s : StaticFileServer) (files : Files) (req : HttpRequest) (resp : HttpResponse)
    (path : List Byte) : Prop :=
  (s.onRequest files req resp).path = some path

theorem serves_iff (s : StaticFileServer) (files : Files) (req : HttpRequest) (resp : HttpResponse)
    (path : List Byte) :
    s.Serves files req resp path ↔
      ∃ decoded, urlDecode req.path = some decoded ∧ hasDotDot decoded = false ∧
        path = s.filePath decoded := by
  rw [← checkedPath_iff]
  unfold Serves onRequest
  rcases s.checkedPath req.path with _ | _ | filePath
  · simp
  · simp
  · simp

/-- **A served file is under the root** for every server, file system and request, exactly if the request
is refused or its path begins with a slash or with an escape of one. -/
theorem served_under_root (s : StaticFileServer) (files : Files) (req : HttpRequest) (resp : HttpResponse) :
    (∀ path, s.Serves files req resp path → Under s.rootDir path) ↔
      refuses req.path = true ∨ startsAtSlash req.path = true := by
  unfold refuses
  cases hdecode : urlDecode req.path with
  | none => simp [serves_iff, hdecode]
  | some decoded =>
    have hslash := urlDecode_slash hdecode
    cases hup : hasDotDot decoded with
    | true => simp [serves_iff, hdecode, hup]
    | false =>
      have hunder := filePath_under s hup
      rw [hslash] at hunder
      simp [serves_iff, hdecode, hup, hunder]

/-- `GET foo HTTP/1.1` is accepted, and reads `/srv/wwwfoo`. -/
theorem served_beside_root :
    ∃ req, HttpContext.processRequestLine .new (ascii "GET foo HTTP/1.1".toList) = (true, req) ∧
      ∀ files resp, ∃ path,
        (StaticFileServer.mk (ascii "/srv/www".toList)).Serves files req resp path ∧
          ¬ Under (ascii "/srv/www".toList) path := by
  have hline : HttpContext.processRequestLine .new (ascii "GET foo HTTP/1.1".toList) =
      (true, ⟨.kGet, .kHttp11, ascii "foo".toList, [], []⟩) := by decide
  refine ⟨_, hline, fun files resp => ⟨ascii "/srv/wwwfoo".toList, ?_, fun hunder => ?_⟩⟩
  · rw [serves_iff]
    exact ⟨ascii "foo".toList, by decide, by decide, by decide⟩
  · obtain ⟨rel, hrel, -⟩ := hunder.relative
    have hroot : ascii "/srv/wwwfoo".toList = ascii "/srv/www".toList ++ ascii "foo".toList := by decide
    rw [hroot] at hrel
    exact absurd (List.append_cancel_left hrel) (by simp [ascii, SLASH])

end StaticFileServer

end Agora
