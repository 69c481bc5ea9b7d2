import Agora.Http.Headers
import Agora.Http.Hosted
import Agora.Http.RequestLine

/-!
# What a client gets for the requests that it writes

A client may write its requests one behind the other, without waiting for the answers.
-/

open Agora.Lib Agora.Spec

namespace Agora

namespace Spec

open HttpContext

/-- A request as a client writes it. The value of a header is all that stands behind its colon. -/
structure ClientRequest where
  line : List Byte
  method : Method
  target : List Byte
  version : Version
  headers : HeaderMap
  grammar : RequestLine line method target version
  ends : Line line
  named : ∀ header ∈ headers, COLON ∉ header.1
  headersEnd : ∀ header ∈ headers, Line (header.1 ++ COLON :: header.2)

namespace ClientRequest

def headerLines (q : ClientRequest) : List (List Byte) := q.headers.map fun header => header.1 ++ COLON :: header.2

def bytes (q : ClientRequest) : List Byte := ended q.line ++ (q.headerLines.flatMap ended ++ ended [])

/-- What the server should take it for. -/
def request (q : ClientRequest) : HttpRequest :=
  ⟨q.method, q.version, pathOf q.target, queryOf q.target, assignAll [] q.headers⟩

/-! ## One request -/

theorem headerLines_fieldLine (q : ClientRequest) : ∀ line ∈ q.headerLines, FieldLine line := by
  intro line hin
  obtain ⟨header, hheader, rfl⟩ := List.mem_map.mp hin
  exact ⟨q.headersEnd header hheader, by simp⟩

theorem addLines_headers {headers : HeaderMap} (h : ∀ header ∈ headers, COLON ∉ header.1) (r : HttpRequest) :
    addLines r (headers.map fun header => header.1 ++ COLON :: header.2) =
      { r with headers := assignAll r.headers headers } := by
  unfold addLines assignAll
  induction headers generalizing r with
  | nil => rfl
  | cons header headers ih =>
    obtain ⟨hname, hnames⟩ := List.forall_mem_cons.mp h
    rw [List.map_cons, List.foldl_cons, ih hnames, List.foldl_cons]
    unfold processHeaderLine
    rw [cut_append hname]
    rfl

theorem processRequestLine_new (q : ClientRequest) :
    processRequestLine .new q.line = (true, ⟨q.method, q.version, pathOf q.target, queryOf q.target, []⟩) := by
  rw [processRequestLine_of_requestLine q.grammar, setTarget_eq]
  by_cases hquery : QUESTION ∈ q.target
  · simp [hquery, HttpRequest.new]
  · simp [hquery, HttpRequest.new, (pathOf_all hquery).2]

theorem parseBytes_bytes (q : ClientRequest) (rest : List Byte) :
    parseBytes .new (q.bytes ++ rest) = (⟨.kGotAll, q.request⟩, rest, true) := by
  have hnew : HttpContext.new.state = .kExpectRequestLine := rfl
  unfold bytes
  rw [List.append_assoc, parseBytes_requestLine hnew q.ends q.processRequestLine_new, List.append_assoc,
    parseBytes_fieldLines q.headerLines_fieldLine, parseBytes_lastLine rfl (by simp), headerLines,
    addLines_headers q.named]
  rfl

end ClientRequest

/-! ## A pipeline -/

/-- A transcript of a pipeline has no refusal in it, and only its last response closes the connection. -/
theorem Transcript.pipeline {F : HttpCallback} {qs : List ClientRequest} {said : List (List Byte)}
    (h : Transcript F (qs.flatMap ClientRequest.bytes) said) :
    ∃ rs : List HttpResponse, said = rs.map HttpResponse.bytes ∧
      List.Forall₂ F ((qs.map ClientRequest.request).take rs.length) rs ∧
        ∀ r ∈ rs.dropLast, r.closeConnection = false := by
  induction qs generalizing said with
  | nil =>
    have hnothing : (parseBytes .new []).1.gotAll = false ∧ (parseBytes .new []).2.2 = true := by decide
    cases h with
    | silent => exact ⟨[], rfl, .nil, by simp⟩
    | refused hbad => cases hbad.symm.trans hnothing.2
    | closing hgot _ _ => cases hgot.symm.trans hnothing.1
    | keepAlive hgot _ _ _ => cases hgot.symm.trans hnothing.1
  | cons q qs ih =>
    rw [List.flatMap_cons] at h
    have hparse := q.parseBytes_bytes (qs.flatMap ClientRequest.bytes)
    cases h with
    | silent => exact ⟨[], rfl, .nil, by simp⟩
    | refused hbad =>
      rw [hparse] at hbad
      cases hbad
    | @closing _ response _ hF _ =>
      rw [hparse] at hF
      exact ⟨[response], rfl, .cons hF .nil, by simp⟩
    | @keepAlive _ response said' _ hF hopen hrest =>
      rw [hparse] at hF hrest
      obtain ⟨rs, rfl, hanswers, hopens⟩ := ih hrest
      refine ⟨response :: rs, rfl, .cons hF hanswers, ?_⟩
      cases rs with
      | nil => simp
      | cons r rs => simpa [hopen] using hopens

end Spec

/-! ## Result -/

namespace HttpServer

open HttpSession (Replies Answers)

variable {τ : Type} [DecidableEq τ] {F : HttpCallback} {b : Bool}
  {c : Config Unit (Service (application b) τ) (Nat × HttpCall) HttpAnswer Empty Fault}

/-- **Pipelined requests are answered in order.** A client that has sent a part of a pipeline, in whatever
pieces, gets responses to its requests as it has written them, and nothing else. -/
theorem pipeline_answered {qs : List ClientRequest} {i : Nat}
    (h : (Service.machine (application b) τ).Reach (Service.each (Answers F)) c)
    (hc : c.crashed = none) (hi : c.st.server.Created i)
    (hstream : (c.st.sessions i).stream <+: qs.flatMap ClientRequest.bytes) :
    ∃ rs : List HttpResponse,
      List.Forall₂ (Replies F b) ((qs.map ClientRequest.request).take rs.length) rs ∧
      (∀ r ∈ rs.dropLast, r.closeConnection = false) ∧
      written (c.st.sessions i).conn.trace ++ (c.st.sessions i).conn.outputBuffer.readable =
        (rs.map HttpResponse.bytes).flatten ∧
      ((∀ request response, F request response → Readable response) →
        ∀ p, p <+: written (c.st.sessions i).conn.trace → ∃ k, readAll p = (rs.take k).map contents) := by
  obtain ⟨hsaid, hbytes⟩ := session_said h hc hi
  obtain ⟨later, hlater⟩ := hstream
  have hall := hsaid.append later
  rw [hlater] at hall
  obtain ⟨rs, hrs, hanswers, hopens⟩ := hall.pipeline
  rw [hrs] at hbytes
  refine ⟨rs, hanswers, hopens, hbytes, fun hF p hp => ?_⟩
  have hnothing : ∀ q : List Byte, q <+: [] → readResponse q = none := by
    intro q hq
    rw [List.prefix_nil.mp hq]
    exact readResponse_badRequest List.nil_prefix
  refine readAll_prefix (readable_of_answers (Replies.readable hF) hanswers) hnothing ?_
  rw [List.append_nil, ← hbytes]
  exact hp.trans (List.prefix_append _ _)

/-- `GET /` without headers. -/
def getRootRequest : ClientRequest where
  line := ascii "GET".toList ++ HttpContext.SP :: ([SLASH] ++ HttpContext.SP :: ascii "HTTP/1.0".toList)
  method := .kGet
  target := [SLASH]
  version := .kHttp10
  headers := []
  grammar := .mk .get (by decide) .http10
  ends := by decide
  named := by simp
  headersEnd := by simp

/-- Two requests and the first byte of the third, of which the server answers two. -/
theorem pipeline_answered_two :
    ∃ c, (Service.machine (application true) Bool).system.run
        ((Service.machine (application true) Bool).Meets (Service.each (Answers (EmptyPage false))))
        (.initial (Service.new _ false [true])) twoRequests = some c ∧
      (c.st.sessions 1).conn.payloads.length = 2 ∧
      ∃ rs : List HttpResponse,
        List.Forall₂ (Replies (EmptyPage false) true)
          (([getRootRequest, getRootRequest, getRootRequest].map ClientRequest.request).take rs.length) rs ∧
        (∀ r ∈ rs.dropLast, r.closeConnection = false) ∧
        written (c.st.sessions 1).conn.trace ++ (c.st.sessions 1).conn.outputBuffer.readable =
          (rs.map HttpResponse.bytes).flatten ∧
        ((∀ request response, EmptyPage false request response → Readable response) →
          ∀ p, p <+: written (c.st.sessions 1).conn.trace → ∃ k, readAll p = (rs.take k).map contents) := by
  have hrun : ((Service.machine (application true) Bool).system.run
      ((Service.machine (application true) Bool).Meets (Service.each (Answers (EmptyPage false))))
      (.initial (Service.new _ false [true])) twoRequests).map
      (fun c => (c.crashed, c.st.server.nextConnId, (c.st.sessions 1).conn.payloads.length,
        (c.st.sessions 1).stream)) =
        some (none, 2, 2, HttpSession.getRoot ++ HttpSession.getRoot ++ [71]) := by decide +kernel
  obtain ⟨c, hc, heq⟩ := Option.map_eq_some_iff.mp hrun
  obtain ⟨hcrashed, hmade, hsaid, hstream⟩ : _ ∧ _ ∧ _ ∧ _ := by simpa only [Prod.mk.injEq] using heq
  refine ⟨c, hc, hsaid, pipeline_answered (Machine.reach_of_run _ ⟨false, [true], rfl⟩ hc) hcrashed
    ⟨Nat.le_refl 1, by rw [hmade]; decide⟩ ?_⟩
  rw [hstream]
  decide

end HttpServer

end Agora
