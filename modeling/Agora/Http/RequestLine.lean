import Agora.Spec.Lines
import Mathlib.Data.List.TakeWhile

/-! # The grammar of a request line -/

namespace Agora

namespace Spec

open HttpContext

inductive MethodWord : List Byte → Method → Prop
  | get : MethodWord (ascii "GET".toList) .kGet
  | post : MethodWord (ascii "POST".toList) .kPost
  | head : MethodWord (ascii "HEAD".toList) .kHead
  | put : MethodWord (ascii "PUT".toList) .kPut
  | delete : MethodWord (ascii "DELETE".toList) .kDelete

inductive VersionWord : List Byte → Version → Prop
  | http10 : VersionWord (ascii "HTTP/1.0".toList) .kHttp10
  | http11 : VersionWord (ascii "HTTP/1.1".toList) .kHttp11

/-- A method, a target without blanks and a version, with one blank between them. -/
inductive RequestLine : List Byte → Method → List Byte → Version → Prop
  | mk {method target version : List Byte} {m : Method} {v : Version} (hmethod : MethodWord method m)
      (htarget : SP ∉ target) (hversion : VersionWord version v) :
      RequestLine (method ++ SP :: (target ++ SP :: version)) m target v

def pathOf (target : List Byte) : List Byte := target.takeWhile fun c => c ≠ QUESTION

def queryOf (target : List Byte) : List Byte := (target.dropWhile fun c => c ≠ QUESTION).tail

theorem MethodWord.no_blank {method : List Byte} {m : Method} (h : MethodWord method m) :
    SP ∉ method := by
  cases h <;> decide

theorem methodWord_iff {method : List Byte} {m : Method} :
    methodOf method = some m ↔ MethodWord method m := by
  constructor
  · intro h
    unfold methodOf at h
    split at h
    · rename_i heq
      cases h
      exact heq ▸ .get
    split at h
    · rename_i heq
      cases h
      exact heq ▸ .post
    split at h
    · rename_i heq
      cases h
      exact heq ▸ .head
    split at h
    · rename_i heq
      cases h
      exact heq ▸ .put
    split at h
    · rename_i heq
      cases h
      exact heq ▸ .delete
    · cases h
  · rintro (_ | _) <;> decide

end Spec

open Spec

namespace HttpContext

theorem pathOf_all {target : List Byte} (h : QUESTION ∉ target) :
    pathOf target = target ∧ queryOf target = [] := by
  have hall : ∀ c ∈ target, decide (c ≠ QUESTION) = true := by
    intro c hc
    simpa using fun heq : c = QUESTION => h (heq ▸ hc)
  unfold pathOf queryOf
  rw [List.takeWhile_eq_self_iff.mpr hall, List.dropWhile_eq_nil_iff.mpr hall]
  exact ⟨rfl, rfl⟩

/-- The fields of an accepted line. A target without a question mark leaves the query as it was. -/
theorem setTarget_eq (r : HttpRequest) (target : List Byte) :
    setTarget r target =
      { r with
        path := pathOf target
        query := if QUESTION ∈ target then queryOf target else r.query } := by
  unfold setTarget
  cases hcut : cut QUESTION target with
  | none =>
    have hnone := cut_eq_none_iff.mp hcut
    rw [if_neg hnone, (pathOf_all hnone).1]
  | some parts =>
    obtain ⟨path, query⟩ := parts
    obtain ⟨rfl, hpath⟩ := cut_eq_some_iff.mp hcut
    have hall : ∀ c ∈ path, decide (c ≠ QUESTION) = true := by
      intro c hc
      simpa using fun heq : c = QUESTION => hpath (heq ▸ hc)
    unfold pathOf queryOf
    rw [List.takeWhile_append_of_pos hall, List.dropWhile_append_of_pos hall]
    simp

theorem processRequestLine_of_requestLine {line target : List Byte} {m : Method} {v : Version}
    (h : RequestLine line m target v) (r : HttpRequest) :
    processRequestLine r line =
      (true, { setTarget { r with method := m } target with version := v }) := by
  obtain ⟨hmethod, htarget, hversion⟩ := h
  unfold processRequestLine
  rw [cut_append hmethod.no_blank]
  dsimp only
  rw [methodWord_iff.mpr hmethod]
  dsimp only
  rw [cut_append htarget]
  dsimp only
  cases hversion with
  | http10 => rw [if_neg (by decide), if_pos (by decide)]
  | http11 => rw [if_pos (by decide)]

theorem requestLine_of_accepted {line : List Byte} {r : HttpRequest}
    (h : (processRequestLine r line).1 = true) : ∃ m target v, RequestLine line m target v := by
  unfold processRequestLine at h
  cases hmethod : cut SP line with
  | none =>
    rw [hmethod] at h
    cases h
  | some parts =>
    obtain ⟨method, rest⟩ := parts
    obtain ⟨rfl, -⟩ := cut_eq_some_iff.mp hmethod
    rw [hmethod] at h
    dsimp only at h
    cases hm : methodOf method with
    | none =>
      rw [hm] at h
      cases h
    | some m =>
      rw [hm] at h
      dsimp only at h
      cases hrest : cut SP rest with
      | none =>
        rw [hrest] at h
        cases h
      | some parts =>
        obtain ⟨target, version⟩ := parts
        obtain ⟨rfl, htarget⟩ := cut_eq_some_iff.mp hrest
        rw [hrest] at h
        dsimp only at h
        have hword := methodWord_iff.mp hm
        by_cases h11 : version = http11
        · subst h11
          exact ⟨m, target, _, .mk hword htarget .http11⟩
        by_cases h10 : version = http10
        · subst h10
          exact ⟨m, target, _, .mk hword htarget .http10⟩
        · rw [if_neg h11, if_neg h10] at h
          cases h

/-- **A request line is accepted exactly by its grammar**, whatever the request has been before, and
a fresh request has the fields as they are written. -/
theorem processRequestLine_grammar (line : List Byte) :
    (∀ r, (processRequestLine r line).1 = true ↔ ∃ m target v, RequestLine line m target v) ∧
      ∀ r, processRequestLine .new line = (true, r) ↔
        ∃ m target v, RequestLine line m target v ∧ r = ⟨m, v, pathOf target, queryOf target, []⟩ := by
  have hfields : ∀ {m target v}, RequestLine line m target v →
      processRequestLine .new line = (true, ⟨m, v, pathOf target, queryOf target, []⟩) := by
    intro m target v hline
    rw [processRequestLine_of_requestLine hline, setTarget_eq]
    by_cases hquery : QUESTION ∈ target
    · rw [if_pos hquery]
      rfl
    · rw [if_neg hquery, (pathOf_all hquery).2]
      rfl
  refine ⟨fun r => ⟨requestLine_of_accepted, ?_⟩, fun r => ⟨fun h => ?_, ?_⟩⟩
  · rintro ⟨m, target, v, hline⟩
    rw [processRequestLine_of_requestLine hline]
  · obtain ⟨m, target, v, hline⟩ := requestLine_of_accepted (congrArg Prod.fst h)
    rw [hfields hline] at h
    exact ⟨m, target, v, hline, (Prod.mk.inj h).2.symm⟩
  · rintro ⟨m, target, v, hline, rfl⟩
    exact hfields hline

end HttpContext

end Agora
