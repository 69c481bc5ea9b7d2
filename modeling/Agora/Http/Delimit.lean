import Agora.Http.Context
import Agora.Spec.HttpStream
import Agora.Spec.Lines

/-!
# Where a request ends

In the stream a request ends at the first header line without a colon, and what is behind it is left
for the next one.
-/

open Agora.Lib Agora.Spec

namespace Agora.HttpContext

/-! ## One request after the other -/

theorem parseBytes_delimited {p : List Byte} (hgot : (parseBytes .new p).1.gotAll = true)
    (hread : (parseBytes .new p).2.1 = []) (s : List Byte) :
    parseBytes .new (p ++ s) = ((parseBytes .new p).1, s, true) := by
  rw [parseBytes_append, hread, List.nil_append, parseBytes_done hgot]

theorem parseRequest_of_readable (ctx : HttpContext) {buf buf' : WfBuffer}
    (h : buf.readable = buf'.readable) :
    bytesOf (parseRequest ctx buf) = bytesOf (parseRequest ctx buf') := by
  rw [parseRequest_bytes, parseRequest_bytes, h]

/-- **Requests are delimited independently.** What a fresh context takes as one request is taken as
the same request in front of any further bytes, which are left unread. Behind `reset` these are
parsed as by a fresh context, whatever was parsed before. -/
theorem requests_delimited {buf : WfBuffer} (hgot : (parseRequest .new buf).1.gotAll = true)
    (hread : (parseRequest .new buf).2.1.readable = []) {s : List Byte} {more : WfBuffer}
    (hmore : more.readable = buf.readable ++ s) :
    bytesOf (parseRequest .new more) = ((parseRequest .new buf).1, s, true) ∧
      ∀ (ctx : HttpContext) (next fresh : WfBuffer), next.readable = fresh.readable →
        bytesOf (parseRequest ctx.reset next) = bytesOf (parseRequest .new fresh) := by
  refine ⟨?_, fun ctx next fresh h => ?_⟩
  · have hbytes := parseRequest_bytes .new buf
    have hctx : (parseRequest .new buf).1 = (parseBytes .new buf.readable).1 :=
      congrArg Prod.fst hbytes
    have hrest : (parseRequest .new buf).2.1.readable = (parseBytes .new buf.readable).2.1 :=
      congrArg (fun r => r.2.1) hbytes
    rw [hctx] at hgot
    rw [hrest] at hread
    rw [parseRequest_bytes, hmore, parseBytes_delimited hgot hread s, hctx]
  · rw [reset_eq]
    exact parseRequest_of_readable .new h

def getLine : List Byte :=
  ascii ['G', 'E', 'T', ' ', '/', ' ', 'H', 'T', 'T', 'P', '/', '1', '.', '1']

/-- The beginning of a second request stands behind a first one with a header. -/
theorem requests_delimited_get :
    bytesOf (parseRequest .new (WfBuffer.new.append
        ((ended getLine ++ ended (ascii ['a', ':', 'b']) ++ ended []) ++ ascii ['P', 'O']))) =
      ((parseRequest .new (WfBuffer.new.append
        (ended getLine ++ ended (ascii ['a', ':', 'b']) ++ ended []))).1, ascii ['P', 'O'], true) := by
  have hgot : (parseRequest .new (WfBuffer.new.append
      (ended getLine ++ ended (ascii ['a', ':', 'b']) ++ ended []))).1.gotAll = true := by
    decide +kernel
  have hread : (parseRequest .new (WfBuffer.new.append
      (ended getLine ++ ended (ascii ['a', ':', 'b']) ++ ended []))).2.1.readable = [] := by
    decide +kernel
  exact (requests_delimited hgot hread (by simp)).1

/-! ## The header lines -/

def FieldLine (line : List Byte) : Prop := Line line ∧ COLON ∈ line

/-- What the header lines make of a request. -/
def addLines (r : HttpRequest) (lines : List (List Byte)) : HttpRequest :=
  lines.foldl (fun r line => (processHeaderLine ⟨.kExpectHeaders, r⟩ line).request) r

theorem parseBytes_fieldLine {line : List Byte} (h : FieldLine line) (r : HttpRequest)
    (rest : List Byte) :
    parseBytes ⟨.kExpectHeaders, r⟩ (ended line ++ rest) =
      parseBytes ⟨.kExpectHeaders, addLines r [line]⟩ rest := by
  refine lineLoop_again ?_
  unfold lineTurn
  rw [h.1.firstCRLF_ended rest]
  simp only
  unfold addLines processHeaderLine
  simp only [List.foldl_cons, List.foldl_nil]
  rcases hcut : cut COLON line with _ | ⟨key, value⟩
  · exact absurd h.2 (cut_eq_none_iff.mp hcut)
  · simp [hcut]

theorem parseBytes_fieldLines {lines : List (List Byte)} (h : ∀ line ∈ lines, FieldLine line)
    (r : HttpRequest) (rest : List Byte) :
    parseBytes ⟨.kExpectHeaders, r⟩ (lines.flatMap ended ++ rest) =
      parseBytes ⟨.kExpectHeaders, addLines r lines⟩ rest := by
  induction lines generalizing r with
  | nil => rfl
  | cons line lines ih =>
    rw [List.flatMap_cons, List.append_assoc, parseBytes_fieldLine (h line List.mem_cons_self),
      ih (fun l hl => h l (List.mem_cons_of_mem line hl))]
    rfl

/-- A line without a colon ends the headers, empty or not. -/
theorem parseBytes_lastLine {line : List Byte} (h : Line line) (hcolon : COLON ∉ line)
    (r : HttpRequest) (rest : List Byte) :
    parseBytes ⟨.kExpectHeaders, r⟩ (ended line ++ rest) = (⟨.kGotAll, r⟩, rest, true) := by
  refine (lineLoop_again (s := (⟨.kGotAll, r⟩, rest, true)) ?_).trans (parseBytes_done rfl rest)
  unfold lineTurn
  rw [h.firstCRLF_ended rest]
  simp only
  unfold processHeaderLine
  simp [cut_eq_none_iff.mpr hcolon]

theorem parseBytes_waits {l : List Byte} (h : firstCRLF l = none) (r : HttpRequest) :
    parseBytes ⟨.kExpectHeaders, r⟩ l = (⟨.kExpectHeaders, r⟩, l, true) := by
  refine lineLoop_out ?_
  unfold lineTurn
  rw [h]

theorem exists_fieldLines (l : List Byte) :
    ∃ lines : List (List Byte), (∀ line ∈ lines, FieldLine line) ∧ ∃ tail,
      l = lines.flatMap ended ++ tail ∧ (firstCRLF tail = none ∨
        ∃ line rest, Line line ∧ COLON ∉ line ∧ tail = ended line ++ rest) := by
  induction hn : l.length using Nat.strongRecOn generalizing l with
  | ind n ih =>
    rcases hfirst : firstCRLF l with _ | i
    · exact ⟨[], nofun, l, rfl, .inl hfirst⟩
    obtain ⟨line, rest, hline, hl⟩ := exists_line hfirst
    by_cases hcolon : COLON ∈ line
    · have hless : rest.length < n := by
        rw [← hn, hl, ended]
        simp
        omega
      obtain ⟨lines, hlines, tail, hrest, htail⟩ := ih rest.length hless rest rfl
      refine ⟨line :: lines, List.forall_mem_cons.mpr ⟨⟨hline, hcolon⟩, hlines⟩, tail, ?_, htail⟩
      rw [hl, hrest, List.flatMap_cons, List.append_assoc]
    · exact ⟨[], nofun, l, rfl, .inr ⟨line, rest, hline, hcolon, hl⟩⟩

/-! ## The end of the header section -/

/-- Field lines and the empty line behind them. -/
def HeaderSection (head : List Byte) : Prop :=
  ∃ lines : List (List Byte), (∀ line ∈ lines, FieldLine line) ∧
    head = lines.flatMap ended ++ ended []

/-- `l` has a malformed line: behind field lines one that has no colon and is not empty. -/
def Malformed (l : List Byte) : Prop :=
  ∃ lines : List (List Byte), (∀ line ∈ lines, FieldLine line) ∧
    ∃ line rest, Line line ∧ COLON ∉ line ∧ line ≠ [] ∧
      l = lines.flatMap ended ++ (ended line ++ rest)

/-- The header section ends only at an empty line: a parse that got `l` behind the request line is
complete if and only if `l` begins with a header section, it has then taken exactly that, and a
malformed line makes it return false. -/
structure EndsAtEmptyLine (l : List Byte) (r : HttpContext × List Byte × Bool) : Prop where
  complete : r.1.gotAll = true ↔ ∃ head rest, HeaderSection head ∧ l = head ++ rest
  taken : ∀ head rest, HeaderSection head → l = head ++ rest → r.2.1 = rest
  malformed : Malformed l → r.2.2 = false ∧ r.1.gotAll = false

theorem parseBytes_section {head : List Byte} (h : HeaderSection head) (r : HttpRequest)
    (rest : List Byte) :
    ∃ r', parseBytes ⟨.kExpectHeaders, r⟩ (head ++ rest) = (⟨.kGotAll, r'⟩, rest, true) := by
  obtain ⟨lines, hlines, rfl⟩ := h
  refine ⟨addLines r lines, ?_⟩
  rw [List.append_assoc, parseBytes_fieldLines hlines, parseBytes_lastLine rfl (by simp)]

theorem endsAtEmptyLine_iff (r : HttpRequest) (l : List Byte) :
    EndsAtEmptyLine l (parseBytes ⟨.kExpectHeaders, r⟩ l) ↔ ¬ Malformed l := by
  constructor
  · rintro h hbad
    have hfalse := (h.malformed hbad).2
    obtain ⟨lines, hlines, line, rest, hline, hcolon, -, rfl⟩ := hbad
    rw [parseBytes_fieldLines hlines, parseBytes_lastLine hline hcolon] at hfalse
    cases hfalse
  · intro hgood
    refine ⟨⟨fun hgot => ?_, ?_⟩, ?_, fun hbad => absurd hbad hgood⟩
    · obtain ⟨lines, hlines, tail, rfl, hnone | ⟨line, rest, hline, hcolon, rfl⟩⟩ :=
        exists_fieldLines l
      · rw [parseBytes_fieldLines hlines, parseBytes_waits hnone] at hgot
        cases hgot
      · by_cases hempty : line = []
        · subst hempty
          exact ⟨_, rest, ⟨lines, hlines, rfl⟩, (List.append_assoc _ _ _).symm⟩
        · exact absurd ⟨lines, hlines, line, rest, hline, hcolon, hempty, rfl⟩ hgood
    · rintro ⟨head, rest, hsection, rfl⟩
      obtain ⟨r', hparse⟩ := parseBytes_section hsection r rest
      rw [hparse]
      rfl
    · rintro head rest hsection rfl
      obtain ⟨r', hparse⟩ := parseBytes_section hsection r rest
      rw [hparse]

theorem parseBytes_requestLine {ctx : HttpContext} {line : List Byte} {r : HttpRequest}
    (hs : ctx.state = .kExpectRequestLine) (hline : Line line)
    (hgood : processRequestLine ctx.request line = (true, r)) (l : List Byte) :
    parseBytes ctx (ended line ++ l) = parseBytes ⟨.kExpectHeaders, r⟩ l := by
  refine lineLoop_again ?_
  unfold lineTurn
  rw [hs, hline.firstCRLF_ended l]
  simp [hgood]

/-! ## Results -/

/-- **The header section ends only at an empty line if and only if no line is malformed**: a line
without a colon always ends it. -/
theorem headers_end_at_empty_line {ctx : HttpContext} {line : List Byte} {buf : WfBuffer}
    (hs : ctx.state = .kExpectRequestLine) (hline : Line line)
    (hgood : (processRequestLine ctx.request line).1 = true) (l : List Byte)
    (hread : buf.readable = ended line ++ l) :
    EndsAtEmptyLine l (bytesOf (parseRequest ctx buf)) ↔ ¬ Malformed l := by
  rw [parseRequest_bytes, hread, parseBytes_requestLine hs hline (Prod.ext hgood rfl)]
  exact endsAtEmptyLine_iff _ l

theorem headers_end_at_empty_line_get :
    EndsAtEmptyLine (ascii ['a', ':', '\r', '\n', '\r', '\n'])
        (bytesOf (parseRequest .new (WfBuffer.new.append
          (ended getLine ++ ascii ['a', ':', '\r', '\n', '\r', '\n'])))) ↔
      ¬ Malformed (ascii ['a', ':', '\r', '\n', '\r', '\n']) := by
  have hline : Line getLine := by decide
  exact headers_end_at_empty_line rfl hline (by decide) _ (by simp)

/-- A header line `foo` completes the request, and the header behind it is left for the next one. -/
theorem headers_end_at_malformed_line :
    ¬ ∀ (buf : WfBuffer) (l : List Byte), buf.readable = ended getLine ++ l →
      EndsAtEmptyLine l (bytesOf (parseRequest .new buf)) := by
  intro hall
  have hends := hall (WfBuffer.new.append (ended getLine ++
    (ended (ascii ['f', 'o', 'o']) ++ ended (ascii ['a', ':', 'b']))))
    (ended (ascii ['f', 'o', 'o']) ++ ended (ascii ['a', ':', 'b'])) (by simp)
  have hfalse := (hends.malformed ⟨[], nofun, ascii ['f', 'o', 'o'], ended (ascii ['a', ':', 'b']),
    by decide, by decide, by decide, rfl⟩).2
  have hgot : (parseRequest .new (WfBuffer.new.append (ended getLine ++
      (ended (ascii ['f', 'o', 'o']) ++ ended (ascii ['a', ':', 'b']))))).1.gotAll = true := by
    decide +kernel
  simp only [bytesOf] at hfalse
  rw [hgot] at hfalse
  cases hfalse

end Agora.HttpContext
