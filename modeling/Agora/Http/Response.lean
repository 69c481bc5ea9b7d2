import Agora.Spec.Response
import Mathlib.Data.List.Nodup

/-! # Responses as a reader gets them -/

open Agora.Spec

namespace Agora.HttpResponse

/-- The responses that users have: their fields are private, and set one by one. -/
inductive Built : HttpResponse → Prop
  | new (close : Bool) : Built (.new close)
  | setStatusCode {r : HttpResponse} (code : HttpStatusCode) : Built r → Built (r.setStatusCode code)
  | setStatusMessage {r : HttpResponse} (message : List Byte) :
      Built r → Built (r.setStatusMessage message)
  | setCloseConnection {r : HttpResponse} (on : Bool) : Built r → Built (r.setCloseConnection on)
  | setContentType {r : HttpResponse} (type : List Byte) : Built r → Built (r.setContentType type)
  | addHeader {r : HttpResponse} (key value : List Byte) : Built r → Built (r.addHeader key value)
  | setBody {r : HttpResponse} (body : List Byte) : Built r → Built (r.setBody body)

/-- The message and the headers fit in their lines, and no header is one that `appendToBuffer` writes
itself. -/
structure Sendable (r : HttpResponse) : Prop where
  messageNoCR : CR ∉ r.statusMessage
  messageNoLF : LF ∉ r.statusMessage
  headers : ∀ field ∈ r.headers, Writable field
  ownLength : ∀ field ∈ r.headers, field.1 ≠ contentLength
  ownConnection : ∀ field ∈ r.headers, field.1 ≠ connection

/-! ## The header map -/

theorem addHeader_nodup {r : HttpResponse} (h : (r.headers.map Prod.fst).Nodup)
    (key value : List Byte) : ((r.addHeader key value).headers.map Prod.fst).Nodup := by
  unfold addHeader
  rw [assign_names]
  split
  · exact h
  · rename_i hnew
    exact List.nodup_append.mpr ⟨h, List.nodup_singleton key, by
      rintro name hin other hother rfl
      obtain rfl := List.mem_singleton.mp hother
      exact hnew hin⟩

theorem Built.nodup {r : HttpResponse} (h : Built r) : (r.headers.map Prod.fst).Nodup := by
  induction h with
  | new close => exact List.nodup_nil
  | setStatusCode code _ ih => exact ih
  | setStatusMessage message _ ih => exact ih
  | setCloseConnection on _ ih => exact ih
  | setContentType type _ ih => exact addHeader_nodup ih (ascii "Content-Type".toList) type
  | addHeader key value _ ih => exact addHeader_nodup ih key value
  | setBody body _ ih => exact ih

/-! ## The lines -/

/-- The two headers that `appendToBuffer` writes behind those of the map. -/
def framing (r : HttpResponse) : HeaderMap :=
  [(contentLength, stdToString r.body.length),
    (connection, if r.closeConnection then close else keepAlive)]

def firstLine (r : HttpResponse) : List Byte :=
  httpVersion ++ HttpContext.SP :: (stdToString r.statusCode.toInt ++ HttpContext.SP :: r.statusMessage)

theorem bytes_lines (r : HttpResponse) :
    r.bytes = ended r.firstLine ++ (((r.headers ++ r.framing).flatMap fun field =>
      ended (fieldLine field)) ++ (ended [] ++ r.body)) := by
  have hblank : ascii [' '] = [HttpContext.SP] := rfl
  unfold bytes firstLine framing
  simp [List.flatMap_append, fieldLine, ended, crlf, hblank]

theorem statusLine_firstLine (r : HttpResponse) :
    statusLine r.firstLine = some (r.statusCode.toInt, r.statusMessage) := by
  unfold statusLine firstLine
  rw [cut_append (by decide)]
  simp only [Option.bind_some, if_true]
  rw [cut_append (not_mem_stdToString (by decide) _)]
  simp only [Option.bind_some]
  rw [decimal_stdToString]
  rfl

theorem Sendable.firstLine {r : HttpResponse} (h : Sendable r) : Line r.firstLine := by
  refine Line.of_noCR ?_
  have hcode : CR ∉ stdToString r.statusCode.toInt := not_mem_stdToString (by decide) _
  unfold HttpResponse.firstLine
  simp only [List.mem_append, List.mem_cons, not_or]
  exact ⟨by decide, by decide, hcode, by decide, h.messageNoCR⟩

theorem contentLength_writable {value : List Byte} (hcr : CR ∉ value) (hlf : LF ∉ value) :
    Writable (contentLength, value) :=
  ⟨(by decide : contentLength ≠ []), (by decide : HttpContext.COLON ∉ contentLength),
    (by decide : CR ∉ contentLength), (by decide : LF ∉ contentLength), hcr, hlf⟩

theorem connection_writable (on : Bool) :
    Writable (connection, if on then close else keepAlive) := by
  refine ⟨(by decide : connection ≠ []), (by decide : HttpContext.COLON ∉ connection),
    (by decide : CR ∉ connection), (by decide : LF ∉ connection), ?_, ?_⟩
  · cases on <;> decide
  · cases on <;> decide

theorem framing_writable (r : HttpResponse) : ∀ field ∈ r.framing, Writable field := by
  unfold framing
  refine List.forall_mem_cons.mpr ⟨?_, List.forall_mem_cons.mpr ⟨?_, nofun⟩⟩
  · exact contentLength_writable (not_mem_stdToString (by decide) _) (not_mem_stdToString (by decide) _)
  · exact connection_writable r.closeConnection

/-! ## What the reader finds -/

theorem closes_framing (on : Bool) : closes (if on then close else keepAlive) = some on := by
  cases on <;> rfl

theorem Sendable.ownHeaders {r : HttpResponse} (h : Sendable r)
    (hnodup : (r.headers.map Prod.fst).Nodup) : ownHeaders (r.headers ++ r.framing) = r.headers := by
  have hown : r.headers.filter (fun field => field.1 ≠ contentLength ∧ field.1 ≠ connection) =
      r.headers := by
    refine List.filter_eq_self.mpr fun field hin => ?_
    simpa using ⟨h.ownLength field hin, h.ownConnection field hin⟩
  have hframing : r.framing.filter (fun field => field.1 ≠ contentLength ∧ field.1 ≠ connection) =
      [] := by
    unfold framing
    simp
  unfold Spec.ownHeaders
  rw [List.filter_append, hown, hframing, List.append_nil]
  exact assignAll_new hnodup

theorem Sendable.lookups {r : HttpResponse} (h : Sendable r) :
    lookup contentLength (r.headers ++ r.framing) = some (stdToString r.body.length) ∧
      lookup connection (r.headers ++ r.framing) =
        some (if r.closeConnection then close else keepAlive) := by
  have hlength : contentLength ∉ r.headers.map Prod.fst := by
    intro hin
    obtain ⟨field, hfield, heq⟩ := List.mem_map.mp hin
    exact h.ownLength field hfield heq
  have hconnection : connection ∉ r.headers.map Prod.fst := by
    intro hin
    obtain ⟨field, hfield, heq⟩ := List.mem_map.mp hin
    exact h.ownConnection field hfield heq
  have hne : contentLength ≠ connection := by decide
  rw [lookup_append hlength, lookup_append hconnection]
  unfold lookup framing
  simp [hne]

theorem readResponse_bytes {r : HttpResponse} (h : Sendable r)
    (hnodup : (r.headers.map Prod.fst).Nodup) (rest : List Byte) :
    readResponse (r.bytes ++ rest) =
      some (⟨r.statusCode.toInt, r.statusMessage, r.headers, r.closeConnection, r.body⟩, rest) := by
  have hfields : ∀ field ∈ r.headers ++ r.framing, Writable field := by
    intro field hin
    rcases List.mem_append.mp hin with hin | hin
    · exact h.headers field hin
    · exact r.framing_writable field hin
  obtain ⟨hlength, hconnection⟩ := h.lookups
  unfold readResponse
  rw [bytes_lines, List.append_assoc, h.firstLine.firstCRLF_ended]
  simp only [Option.bind_some, take_ended, drop_ended, statusLine_firstLine]
  rw [List.append_assoc, List.append_assoc, headerLines_fields hfields]
  simp only [Option.bind_some, hlength, hconnection, decimal_stdToString, closes_framing,
    h.ownHeaders hnodup]
  rw [if_pos (by simp), List.take_left, List.drop_left]

/-! ## Results -/

/-- **Responses are framed so that they can be read back**, whatever the order in which the header
map is iterated, the buffer and the bytes that follow. -/
theorem response_round_trip {r : HttpResponse} (hbuilt : Built r) (h : Sendable r)
    {order : HeaderMap} (horder : order.Perm r.headers) (output : WfBuffer) :
    ∃ bytes, ({ r with headers := order }.appendToBuffer output).readable = output.readable ++ bytes ∧
      ∀ rest, readResponse (bytes ++ rest) = some
        (⟨r.statusCode.toInt, r.statusMessage, order, r.closeConnection, r.body⟩, rest) := by
  have hsendable : Sendable { r with headers := order } :=
    ⟨h.messageNoCR, h.messageNoLF, fun field hin => h.headers field (horder.mem_iff.mp hin),
      fun field hin => h.ownLength field (horder.mem_iff.mp hin),
      fun field hin => h.ownConnection field (horder.mem_iff.mp hin)⟩
  have hnodup : (order.map Prod.fst).Nodup := (horder.map Prod.fst).nodup_iff.mpr hbuilt.nodup
  exact ⟨_, readable_appendToBuffer _ output, readResponse_bytes hsendable hnodup⟩

/-- Two headers, one with an empty value, written in the other order, and a body that looks like the
end of the headers. -/
theorem response_round_trip_body :
    ∃ bytes, (appendToBuffer ⟨.k200Ok, ascii ['O', 'K'], false,
        [(ascii ['b'], []), (ascii "Content-Type".toList, ascii ['t', ':'])], [CR, LF, CR, LF, 0]⟩
        (WfBuffer.new.append (ascii ['x']))).readable =
          (WfBuffer.new.append (ascii ['x'])).readable ++ bytes ∧
      ∀ rest, readResponse (bytes ++ rest) = some (⟨200, ascii ['O', 'K'],
        [(ascii ['b'], []), (ascii "Content-Type".toList, ascii ['t', ':'])], false, [CR, LF, CR, LF, 0]⟩, rest) := by
  have hbuilt : Built ((((((new true).setStatusCode .k200Ok).setStatusMessage (ascii ['O', 'K'])
      ).setContentType (ascii ['t', ':'])).addHeader (ascii ['b']) []).setBody
      [CR, LF, CR, LF, 0] |>.setCloseConnection false) :=
    .setCloseConnection _ (.setBody _ (.addHeader _ _ (.setContentType _ (.setStatusMessage _
      (.setStatusCode _ (.new true))))))
  have hwritable : ∀ field ∈ [(ascii "Content-Type".toList, ascii ['t', ':']), (ascii ['b'], [])], Writable field :=
    List.forall_mem_cons.mpr
      ⟨⟨by decide, by decide, by decide, by decide, by decide, by decide⟩, List.forall_mem_cons.mpr
      ⟨⟨by decide, by decide, by decide, by decide, by decide, by decide⟩, nofun⟩⟩
  exact response_round_trip hbuilt ⟨by decide, by decide, hwritable, by decide, by decide⟩
    (.swap _ _ []) _

end Agora.HttpResponse
