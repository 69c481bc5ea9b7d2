import Agora.Http.Response
import Agora.Spec.HttpTalk
import Mathlib.Data.List.Forall2

/-!
# What a client makes of the bytes it gets

A client reads one response after the other, from the format alone, as far as they are complete.
-/

namespace Agora.Spec

open HttpResponse

theorem headerLines_out {l : List Byte} (h : firstCRLF l = some 0) : headerLines l = some ([], l.drop 2) := by
  rw [headerLines]
  split
  · rename_i hnone
    cases hnone.symm.trans h
  · rfl
  · rename_i hsome
    cases hsome.symm.trans h

theorem headerLines_again {l : List Byte} {i : Nat} (h : firstCRLF l = some (i + 1)) :
    headerLines l = (headerLine (l.take (i + 1))).bind fun field =>
      (headerLines (l.drop (i + 3))).map fun r => (field :: r.1, r.2) := by
  rw [headerLines]
  split
  · rename_i hnone
    cases hnone.symm.trans h
  · rename_i hzero
    cases hzero.symm.trans h
  · rename_i j hsome
    cases hsome.symm.trans h
    rfl

theorem headerLines_append {l rest : List Byte} {fields : HeaderMap} (h : headerLines l = some (fields, rest))
    (m : List Byte) : headerLines (l ++ m) = some (fields, rest ++ m) ∧ rest.length < l.length := by
  induction hn : l.length using Nat.strongRecOn generalizing l fields with
  | ind n ih =>
    rcases hfirst : firstCRLF l with _ | i | i
    · rw [headerLines] at h
      split at h
      · cases h
      · rename_i hsome
        cases hsome.symm.trans hfirst
      · rename_i hsome
        cases hsome.symm.trans hfirst
    · have hlen := firstCRLF_length hfirst
      rw [headerLines_out hfirst] at h
      cases h
      rw [headerLines_out (firstCRLF_append hfirst m), List.drop_append_of_le_length hlen, List.length_drop]
      exact ⟨rfl, by omega⟩
    · have hlen := firstCRLF_length hfirst
      rw [headerLines_again hfirst] at h
      obtain ⟨field, hfield, h⟩ := Option.bind_eq_some_iff.mp h
      obtain ⟨r, hr, heq⟩ := Option.map_eq_some_iff.mp h
      cases heq
      obtain ⟨hmore, hless⟩ := ih (l.drop (i + 3)).length (by rw [List.length_drop]; omega) hr rfl
      rw [List.length_drop] at hless
      rw [headerLines_again (firstCRLF_append hfirst m), List.take_append_of_le_length (by omega),
        List.drop_append_of_le_length (by omega), hfield, hmore]
      exact ⟨rfl, by omega⟩

theorem readResponse_append {l rest : List Byte} {r : Response} (h : readResponse l = some (r, rest))
    (m : List Byte) : readResponse (l ++ m) = some (r, rest ++ m) ∧ rest.length < l.length := by
  unfold readResponse at h ⊢
  obtain ⟨i, hfirst, h⟩ := Option.bind_eq_some_iff.mp h
  obtain ⟨status, hstatus, h⟩ := Option.bind_eq_some_iff.mp h
  obtain ⟨fields, hfields, h⟩ := Option.bind_eq_some_iff.mp h
  obtain ⟨length, hlength, h⟩ := Option.bind_eq_some_iff.mp h
  obtain ⟨closing, hclosing, h⟩ := Option.bind_eq_some_iff.mp h
  obtain ⟨hle, h⟩ := Option.ite_none_right_eq_some.mp h
  obtain ⟨rfl, rfl⟩ := Prod.mk.injEq .. ▸ Option.some.inj h
  have hlen := firstCRLF_length hfirst
  obtain ⟨hmore, hless⟩ := headerLines_append hfields m
  rw [List.length_drop] at hless
  refine ⟨?_, by rw [List.length_drop]; omega⟩
  rw [firstCRLF_append hfirst, Option.bind_some, List.take_append_of_le_length (by omega), hstatus, Option.bind_some,
    List.drop_append_of_le_length (by omega), hmore, Option.bind_some, hlength, Option.bind_some,
    hclosing, Option.bind_some, if_pos (by rw [List.length_append]; omega)]
  rw [List.take_append_of_le_length hle, List.drop_append_of_le_length hle]

/-- The complete responses of a stream. -/
def readAll (l : List Byte) : List Response :=
  match h : readResponse l with
  | none => []
  | some (r, rest) =>
    have : rest.length < l.length := (readResponse_append h []).2
    r :: readAll rest
termination_by l.length

theorem readAll_none {l : List Byte} (h : readResponse l = none) : readAll l = [] := by
  rw [readAll]
  split
  · rfl
  · rename_i hsome
    cases h.symm.trans hsome

theorem readAll_some {l rest : List Byte} {r : Response} (h : readResponse l = some (r, rest)) :
    readAll l = r :: readAll rest := by
  rw [readAll]
  split
  · rename_i hnone
    cases h.symm.trans hnone
  · rename_i hsome
    cases h.symm.trans hsome
    rfl

/-! ## Responses that the server has written -/

/-- The response as a client should see it. -/
def contents (r : HttpResponse) : Response :=
  ⟨r.statusCode.toInt, r.statusMessage, r.headers, r.closeConnection, r.body⟩

/-- A response that the reader gets back. -/
def Readable (r : HttpResponse) : Prop := Sendable r ∧ (r.headers.map Prod.fst).Nodup

theorem Readable.read {r : HttpResponse} (h : Readable r) (rest : List Byte) :
    readResponse (r.bytes ++ rest) = some (contents r, rest) := readResponse_bytes h.1 h.2 rest

theorem Readable.waits {r : HttpResponse} (h : Readable r) {p : List Byte} (hp : p <+: r.bytes)
    (hne : p ≠ r.bytes) : readResponse p = none := by
  by_contra hsome
  obtain ⟨⟨r', rest⟩, hread⟩ := Option.ne_none_iff_exists'.mp hsome
  obtain ⟨q, hq⟩ := hp
  have hall := (readResponse_append hread q).1
  have hwhole := h.read []
  rw [List.append_nil, ← hq, hall] at hwhole
  have hnil := congrArg Prod.snd (Option.some.inj hwhole)
  obtain ⟨-, rfl⟩ := List.append_eq_nil_iff.mp hnil
  exact hne (by rw [← hq, List.append_nil])

/-- The short answer to a refused request line has no length. -/
theorem readResponse_badRequest {p : List Byte} (hp : p <+: HttpSession.badRequest) : readResponse p = none := by
  by_contra hsome
  obtain ⟨⟨r, rest⟩, hread⟩ := Option.ne_none_iff_exists'.mp hsome
  obtain ⟨q, hq⟩ := hp
  have hall := (readResponse_append hread q).1
  rw [hq] at hall
  have hfirst : firstCRLF HttpSession.badRequest = some 24 := by decide
  have hdrop : HttpSession.badRequest.drop 26 = ended [] ++ [] := by decide
  unfold readResponse at hall
  rw [hfirst, Option.bind_some] at hall
  obtain ⟨status, -, hall⟩ := Option.bind_eq_some_iff.mp hall
  rw [hdrop, headerLines_empty] at hall
  cases hall

theorem readAll_prefix {rs : List HttpResponse} (hrs : ∀ r ∈ rs, Readable r) {last p : List Byte}
    (hlast : ∀ q, q <+: last → readResponse q = none) (hp : p <+: (rs.map bytes).flatten ++ last) :
    ∃ k, readAll p = (rs.take k).map contents := by
  induction rs generalizing p with
  | nil => exact ⟨0, readAll_none (hlast p hp)⟩
  | cons r rs ih =>
    obtain ⟨hr, hrs⟩ := List.forall_mem_cons.mp hrs
    rw [List.map_cons, List.flatten_cons, List.append_assoc] at hp
    rcases List.prefix_or_prefix_of_prefix hp (List.prefix_append r.bytes _) with hfront | ⟨q, rfl⟩
    · rcases eq_or_ne p r.bytes with rfl | hne
      · have hread := hr.read []
        rw [List.append_nil] at hread
        refine ⟨1, ?_⟩
        rw [readAll_some hread, readAll_none (hlast [] List.nil_prefix)]
        rfl
      · exact ⟨0, readAll_none (hr.waits hfront hne)⟩
    · obtain ⟨k, hk⟩ := ih hrs ((List.prefix_append_right_inj _).mp hp)
      refine ⟨k + 1, ?_⟩
      rw [readAll_some (hr.read q), hk]
      rfl

theorem readAll_flatten {rs : List HttpResponse} (hrs : ∀ r ∈ rs, Readable r) :
    readAll (rs.map bytes).flatten = rs.map contents := by
  induction rs with
  | nil => exact readAll_none (readResponse_badRequest List.nil_prefix)
  | cons r rs ih =>
    obtain ⟨hr, hrs⟩ := List.forall_mem_cons.mp hrs
    rw [List.map_cons, List.flatten_cons, readAll_some (hr.read _), ih hrs]
    rfl

/-! ## What a client reads of a transcript -/

theorem Transcript.responses {F : HttpCallback} {l : List Byte} {said : List (List Byte)} (h : Transcript F l said) :
    ∃ rs : List HttpResponse, List.Forall₂ F ((requests l).take rs.length) rs ∧
      (said = rs.map bytes ∨ said = rs.map bytes ++ [HttpSession.badRequest]) := by
  induction h with
  | silent l => exact ⟨[], .nil, .inl rfl⟩
  | refused hbad => exact ⟨[], .nil, .inr rfl⟩
  | @closing _ response hgot hF _ =>
    refine ⟨[response], ?_, .inl rfl⟩
    rw [requests, parseStream_again hgot]
    exact .cons hF .nil
  | @keepAlive _ response _ hgot hF _ _ ih =>
    obtain ⟨rs, hrs, hsaid⟩ := ih
    refine ⟨response :: rs, ?_, ?_⟩
    · rw [requests, parseStream_again hgot]
      exact .cons hF hrs
    · rcases hsaid with rfl | rfl
      · exact .inl rfl
      · exact .inr rfl

theorem Kept.responses {F : HttpCallback} {l rest : List Byte} {said : List (List Byte)} (h : Kept F l said rest) :
    ∃ rs : List HttpResponse, said = rs.map bytes ∧ (∀ r ∈ rs, r.closeConnection = false) ∧
      List.Forall₂ F ((requests l).take rs.length) rs := by
  induction h with
  | nil l => exact ⟨[], rfl, by simp, .nil⟩
  | @cons _ _ response _ hgot hF hopen _ ih =>
    obtain ⟨rs, rfl, hopens, hrs⟩ := ih
    refine ⟨response :: rs, rfl, List.forall_mem_cons.mpr ⟨hopen, hopens⟩, ?_⟩
    rw [requests, parseStream_again hgot]
    exact .cons hF hrs

theorem readable_of_answers {F : HttpCallback} (hF : ∀ request response, F request response → Readable response)
    {requests : List HttpRequest} {rs : List HttpResponse} (h : List.Forall₂ F requests rs) :
    ∀ r ∈ rs, Readable r := by
  induction h with
  | nil => simp
  | cons hreply _ ih => exact List.forall_mem_cons.mpr ⟨hF _ _ hreply, ih⟩

theorem Transcript.read {F : HttpCallback} {l p : List Byte} {said : List (List Byte)} (h : Transcript F l said)
    (hF : ∀ request response, F request response → Readable response) (hp : p <+: said.flatten) :
    ∃ rs : List HttpResponse, List.Forall₂ F ((requests l).take rs.length) rs ∧ readAll p = rs.map contents := by
  obtain ⟨rs, hrs, hsaid⟩ := h.responses
  have hlast : ∃ last, (∀ q, q <+: last → readResponse q = none) ∧ p <+: (rs.map bytes).flatten ++ last := by
    rcases hsaid with rfl | rfl
    · refine ⟨[], fun q hq => ?_, by rwa [List.append_nil]⟩
      rw [List.prefix_nil.mp hq]
      exact readResponse_badRequest List.nil_prefix
    · exact ⟨_, fun q => readResponse_badRequest, by rwa [List.flatten_append, List.flatten_singleton] at hp⟩
  obtain ⟨last, hlast, hp⟩ := hlast
  obtain ⟨k, hk⟩ := readAll_prefix (readable_of_answers hF hrs) hlast hp
  refine ⟨rs.take k, ?_, hk⟩
  rw [List.length_take, ← List.take_take]
  exact List.forall₂_take k hrs

end Agora.Spec
