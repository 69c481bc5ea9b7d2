import Agora.Http.Delimit
import Agora.Spec.Response

/-!
# Header maps, as `HttpResponse` writes them and as `HttpContext` reads them

The writer puts a blank behind the colon, and the reader takes it as the first byte of the value.
-/

open Agora.Spec

namespace Agora.HttpContext

/-- A header map that can be written line by line, with no value that begins with a blank. -/
structure WritableMap (headers : HeaderMap) : Prop where
  names : (headers.map Prod.fst).Nodup
  fields : ∀ field ∈ headers, Writable field
  values : ∀ field ∈ headers, field.2.head? ≠ some SP

/-- The header block as `appendToBuffer` writes it. -/
def headerBlock (headers : HeaderMap) : List Byte :=
  (headers.flatMap fun h => h.1 ++ HttpResponse.colon ++ h.2 ++ HttpResponse.crlf) ++
    HttpResponse.crlf

/-- The parse is complete, and the request has the headers that were written. -/
structure ReadsBack (headers : HeaderMap) (ctx : HttpContext) : Prop where
  complete : ctx.gotAll = true
  map : ctx.request.headers.Perm headers
  values : ∀ field ∈ headers, ctx.request.getHeader field.1 = field.2

/-- The header as the parser takes it from its line. -/
def withBlank (field : List Byte × List Byte) : List Byte × List Byte := (field.1, SP :: field.2)

/-! ## The parse of a header block -/

theorem headerBlock_lines (headers : HeaderMap) :
    headerBlock headers = (headers.map fieldLine).flatMap ended ++ ended [] := by
  unfold headerBlock
  rw [List.flatMap_map]
  rfl

theorem addLines_fieldLines {fields : HeaderMap} (h : ∀ field ∈ fields, Writable field)
    (r : HttpRequest) :
    addLines r (fields.map fieldLine) =
      { r with headers := assignAll r.headers (fields.map withBlank) } := by
  unfold addLines assignAll
  induction fields generalizing r with
  | nil => rfl
  | cons field fields ih =>
    obtain ⟨hfield, hfields⟩ := List.forall_mem_cons.mp h
    rw [List.map_cons, List.foldl_cons, ih hfields, List.map_cons, List.foldl_cons]
    unfold processHeaderLine
    rw [hfield.cut_line]
    rfl

theorem parseBytes_headerBlock {headers : HeaderMap} (h : ∀ field ∈ headers, Writable field)
    (hnodup : (headers.map Prod.fst).Nodup) {r : HttpRequest} (hr : r.headers = [])
    (rest : List Byte) :
    parseBytes ⟨.kExpectHeaders, r⟩ (headerBlock headers ++ rest) =
      (⟨.kGotAll, { r with headers := headers.map withBlank }⟩, rest, true) := by
  have hlines : ∀ line ∈ headers.map fieldLine, FieldLine line := by
    intro line hin
    obtain ⟨field, hfield, rfl⟩ := List.mem_map.mp hin
    refine ⟨(h field hfield).line, ?_⟩
    unfold fieldLine
    simp [HttpResponse.colon, ascii, COLON]
  have hnames : (([] ++ headers.map withBlank).map Prod.fst).Nodup := by
    rw [List.nil_append, List.map_map]
    exact hnodup
  rw [headerBlock_lines, List.append_assoc, parseBytes_fieldLines hlines,
    parseBytes_lastLine rfl (by simp), addLines_fieldLines h, hr, assignAll_new hnames,
    List.nil_append]

theorem setTarget_headers (r : HttpRequest) (target : List Byte) :
    (setTarget r target).headers = r.headers := by
  unfold setTarget
  split
  · rfl
  · rfl

theorem processRequestLine_headers (r : HttpRequest) (line : List Byte) :
    (processRequestLine r line).2.headers = r.headers := by
  unfold processRequestLine
  split
  · rfl
  split
  · rfl
  split
  · rfl
  simp only
  split
  · exact setTarget_headers _ _
  split
  · exact setTarget_headers _ _
  · exact setTarget_headers _ _

theorem getHeader_withBlank {headers : HeaderMap} (hnodup : (headers.map Prod.fst).Nodup)
    {field : List Byte × List Byte} (hin : field ∈ headers) {r : HttpRequest}
    (hr : r.headers = headers.map withBlank) : r.getHeader field.1 = SP :: field.2 := by
  have hfind : (headers.map withBlank).find? (fun h => h.1 = field.1) = some (withBlank field) := by
    clear hr
    induction headers with
    | nil => cases hin
    | cons other headers ih =>
      rw [List.map_cons, List.nodup_cons] at hnodup
      rw [List.map_cons, List.find?_cons]
      rcases List.mem_cons.mp hin with rfl | hin
      · simp [withBlank]
      · have hne : other.1 ≠ field.1 := fun heq =>
          hnodup.1 (heq ▸ List.mem_map.mpr ⟨field, hin, rfl⟩)
        simp only [withBlank, hne, decide_false]
        exact ih hnodup.2 hin
  unfold HttpRequest.getHeader
  rw [hr, hfind]
  rfl

/-! ## Results -/

/-- **Headers are read back as they were written if and only if there are none**: each value comes
back with the blank in front of it. -/
theorem headers_read_back {headers written : HeaderMap} (h : WritableMap headers)
    (horder : written.Perm headers) {line : List Byte} (hline : Line line)
    (hgood : (processRequestLine HttpRequest.new line).1 = true) {buf : WfBuffer}
    {rest : List Byte} (hread : buf.readable = ended line ++ (headerBlock written ++ rest)) :
    ReadsBack headers (parseRequest .new buf).1 ↔ headers = [] := by
  have hfields : ∀ field ∈ written, Writable field := fun field hin =>
    h.fields field (horder.mem_iff.mp hin)
  have hnodup : (written.map Prod.fst).Nodup := (horder.map Prod.fst).nodup_iff.mpr h.names
  have hnone : (processRequestLine HttpRequest.new line).2.headers = [] :=
    processRequestLine_headers _ _
  have hparse : (parseRequest .new buf).1 = ⟨.kGotAll,
      { (processRequestLine HttpRequest.new line).2 with headers := written.map withBlank }⟩ := by
    have hbytes := parseRequest_bytes .new buf
    have hrequest : processRequestLine HttpRequest.new line =
        (true, (processRequestLine HttpRequest.new line).2) := Prod.ext hgood rfl
    rw [hread, parseBytes_requestLine rfl hline hrequest,
      parseBytes_headerBlock hfields hnodup hnone] at hbytes
    exact congrArg Prod.fst hbytes
  rw [hparse]
  constructor
  · intro hback
    rcases headers with _ | ⟨field, headers⟩
    · rfl
    · have hvalue := hback.values field List.mem_cons_self
      rw [getHeader_withBlank hnodup (horder.mem_iff.mpr List.mem_cons_self) rfl] at hvalue
      exact absurd (congrArg List.length hvalue) (by simp)
  · rintro rfl
    obtain rfl := horder.eq_nil
    exact ⟨rfl, .nil, nofun⟩

theorem headers_read_back_two :
    ReadsBack [(ascii ['a'], ascii ['b', ':', ' ', 'c']), (ascii ['H'], [])]
        (parseRequest .new (WfBuffer.new.append (ended getLine ++
          (headerBlock [(ascii ['H'], []), (ascii ['a'], ascii ['b', ':', ' ', 'c'])] ++
            ascii ['r'])))).1 ↔
      [(ascii ['a'], ascii ['b', ':', ' ', 'c']), (ascii ['H'], [])] = [] := by
  have hwritable : ∀ field ∈ [(ascii ['a'], ascii ['b', ':', ' ', 'c']), (ascii ['H'], [])],
      Writable field :=
    List.forall_mem_cons.mpr
      ⟨⟨by decide, by decide, by decide, by decide, by decide, by decide⟩, List.forall_mem_cons.mpr
      ⟨⟨by decide, by decide, by decide, by decide, by decide, by decide⟩, nofun⟩⟩
  have hline : Line getLine := by decide
  have hread : (WfBuffer.new.append (ended getLine ++
      (headerBlock [(ascii ['H'], []), (ascii ['a'], ascii ['b', ':', ' ', 'c'])] ++
        ascii ['r']))).readable = ended getLine ++
      (headerBlock [(ascii ['H'], []), (ascii ['a'], ascii ['b', ':', ' ', 'c'])] ++
        ascii ['r']) := by simp
  exact headers_read_back ⟨by decide, hwritable, by decide⟩ (.swap _ _ []) hline (by decide) hread

/-- `Host: h` is written, and `getHeader` returns the value with a blank in front. -/
theorem headers_read_back_blank :
    ¬ ∀ (headers : HeaderMap) (buf : WfBuffer), WritableMap headers →
      buf.readable = ended getLine ++ headerBlock headers →
      ReadsBack headers (parseRequest .new buf).1 := by
  intro hall
  have hwritable : ∀ field ∈ [(ascii ['H', 'o', 's', 't'], ascii ['h'])], Writable field :=
    List.forall_mem_cons.mpr
      ⟨⟨by decide, by decide, by decide, by decide, by decide, by decide⟩, nofun⟩
  have hback := hall [(ascii ['H', 'o', 's', 't'], ascii ['h'])]
    (WfBuffer.new.append (ended getLine ++ headerBlock [(ascii ['H', 'o', 's', 't'], ascii ['h'])]))
    ⟨by decide, hwritable, by decide⟩ (by simp)
  have hvalue := hback.values _ (List.mem_singleton_self _)
  have hgot : (parseRequest .new (WfBuffer.new.append
      (ended getLine ++ headerBlock [(ascii ['H', 'o', 's', 't'], ascii ['h'])]))).1.request.getHeader
      (ascii ['H', 'o', 's', 't']) = ascii [' ', 'h'] := by decide +kernel
  rw [hgot] at hvalue
  exact absurd hvalue (by decide)

end Agora.HttpContext
