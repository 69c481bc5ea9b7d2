import Agora.Buffer
import Agora.Lib.Loop

/-! # The code of `HttpRequest` and `HttpContext` -/

open Agora.Lib

namespace Agora

/-- The bytes of a string literal. -/
def ascii (s : List Char) : List Byte := s.map fun c => c.toNat.toUInt8

/-- The range before the first `c` and the range after it (`std::find`), if there is one. -/
def cut (c : Byte) : List Byte → Option (List Byte × List Byte)
  | [] => none
  | a :: l => if a = c then some ([], l) else (cut c l).map fun p => (a :: p.1, p.2)

/-! ## `HttpRequest` -/

inductive Method
  | kInvalid | kGet | kPost | kHead | kPut | kDelete
deriving DecidableEq, Repr

inductive Version
  | kUnknown | kHttp10 | kHttp11
deriving DecidableEq, Repr

/-- An `unordered_map`, with each key once. -/
abbrev HeaderMap := List (List Byte × List Byte)

/-- What `headers_[key] = value` does. -/
def HeaderMap.assign (key value : List Byte) : HeaderMap → HeaderMap
  | [] => [(key, value)]
  | h :: rest => if h.1 = key then (key, value) :: rest else h :: assign key value rest

structure HttpRequest where
  method : Method
  version : Version
  path : List Byte
  query : List Byte
  headers : HeaderMap
deriving DecidableEq, Repr

namespace HttpRequest

def new : HttpRequest := ⟨.kInvalid, .kUnknown, [], [], []⟩

def addHeader (r : HttpRequest) (key value : List Byte) : HttpRequest :=
  { r with headers := r.headers.assign key value }

def getHeader (r : HttpRequest) (key : List Byte) : List Byte :=
  match r.headers.find? fun h => h.1 = key with
  | some h => h.2
  | none => []

/-- Both requests afterwards. -/
def swap (r that : HttpRequest) : HttpRequest × HttpRequest :=
  (⟨that.method, that.version, that.path, that.query, that.headers⟩,
    ⟨r.method, r.version, r.path, r.query, r.headers⟩)

end HttpRequest

/-! ## `HttpContext` -/

inductive ParseState
  | kExpectRequestLine | kExpectHeaders | kExpectBody | kGotAll
deriving DecidableEq, Repr

structure HttpContext where
  state : ParseState
  request : HttpRequest
deriving DecidableEq, Repr

namespace HttpContext

def new : HttpContext := ⟨.kExpectRequestLine, HttpRequest.new⟩

def gotAll (ctx : HttpContext) : Bool := ctx.state = .kGotAll

def reset (ctx : HttpContext) : HttpContext :=
  let dummy := HttpRequest.new
  ⟨.kExpectRequestLine, (ctx.request.swap dummy).1⟩

@[simp] theorem reset_eq (ctx : HttpContext) : ctx.reset = .new := rfl

/-- The method that `processRequestLine` recognises. -/
def methodOf (method : List Byte) : Option Method :=
  if method = ascii ['G', 'E', 'T'] then some .kGet
  else if method = ascii ['P', 'O', 'S', 'T'] then some .kPost
  else if method = ascii ['H', 'E', 'A', 'D'] then some .kHead
  else if method = ascii ['P', 'U', 'T'] then some .kPut
  else if method = ascii ['D', 'E', 'L', 'E', 'T', 'E'] then some .kDelete
  else none

def http11 : List Byte := ascii ['H', 'T', 'T', 'P', '/', '1', '.', '1']
def http10 : List Byte := ascii ['H', 'T', 'T', 'P', '/', '1', '.', '0']

def SP : Byte := 32
def QUESTION : Byte := 63
def COLON : Byte := 58

/-- The part of `processRequestLine` for the target: what stands before and after the first `?`. -/
def setTarget (r : HttpRequest) (pathAndQuery : List Byte) : HttpRequest :=
  match cut QUESTION pathAndQuery with
  | some (path, query) => { r with path := path, query := query }
  | none => { r with path := pathAndQuery }

/-- Whether the line is a request line, and the request as far as its fields were set. A line that
is refused late has set the fields in front. -/
def processRequestLine (r : HttpRequest) (line : List Byte) : Bool × HttpRequest :=
  match cut SP line with
  | none => (false, r)
  | some (method, rest) =>
    match methodOf method with
    | none => (false, r)
    | some m =>
      match cut SP rest with
      | none => (false, { r with method := m })
      | some (pathAndQuery, version) =>
        let r := setTarget { r with method := m } pathAndQuery
        if version = http11 then (true, { r with version := .kHttp11 })
        else if version = http10 then (true, { r with version := .kHttp10 })
        else (false, r)

/-- A header line: a field with a colon, or else the end of the headers. -/
def processHeaderLine (ctx : HttpContext) (line : List Byte) : HttpContext :=
  match cut COLON line with
  | some (key, value) => { ctx with request := ctx.request.addHeader key value }
  | none => { ctx with state := .kGotAll }

/-- One turn of the loop in `parseRequest`. The state has the local `ok`. -/
def parseTurn (ctx : HttpContext) (buf : WfBuffer) (ok : Bool) :
    Turn (HttpContext × WfBuffer × Bool) (HttpContext × WfBuffer × Bool) :=
  match ctx.state with
  | .kExpectRequestLine =>
    match buf.findCRLF with
    | some crlf =>
      match processRequestLine ctx.request (buf.bytesAtPeek (crlf - buf.peek)) with
      | (true, request) => .again (⟨.kExpectHeaders, request⟩, buf.retrieveUntil (crlf + 2), true)
      | (false, request) => .out (⟨ctx.state, request⟩, buf, false)
    | none => .out (ctx, buf, ok)
  | .kExpectHeaders =>
    match buf.findCRLF with
    | some crlf =>
      .again (processHeaderLine ctx (buf.bytesAtPeek (crlf - buf.peek)),
        buf.retrieveUntil (crlf + 2), ok)
    | none => .out (ctx, buf, ok)
  | .kExpectBody => .out (ctx, buf, ok)
  | .kGotAll => .out (ctx, buf, ok)

theorem line_of_findCRLF {buf : WfBuffer} {crlf : Nat} (h : buf.findCRLF = some crlf) :
    ∃ i, Spec.firstCRLF buf.readable = some i ∧
      buf.bytesAtPeek (crlf - buf.peek) = buf.readable.take i ∧
      (buf.retrieveUntil (crlf + 2)).readable = buf.readable.drop (i + 2) := by
  rw [WfBuffer.findCRLF_readable, Option.map_eq_some_iff] at h
  obtain ⟨i, hi, rfl⟩ := h
  have hlen := Spec.firstCRLF_length hi
  refine ⟨i, hi, ?_, ?_⟩
  · rw [Nat.add_sub_cancel_left, WfBuffer.bytesAtPeek_readable _ (by omega)]
  · rw [Nat.add_assoc, WfBuffer.readable_retrieveUntil]

theorem parseTurn_decreases {ctx : HttpContext} {buf : WfBuffer} {ok : Bool}
    {s' : HttpContext × WfBuffer × Bool} (h : parseTurn ctx buf ok = .again s') :
    s'.2.1.readable.length < buf.readable.length := by
  have hline : ∀ crlf, buf.findCRLF = some crlf →
      (buf.retrieveUntil (crlf + 2)).readable.length < buf.readable.length := by
    intro crlf hc
    obtain ⟨i, hi, -, hrest⟩ := line_of_findCRLF hc
    have := Spec.firstCRLF_length hi
    rw [hrest, List.length_drop]
    omega
  unfold parseTurn at h
  split at h
  · split at h
    · rename_i crlf hc
      split at h
      · cases h
        exact hline crlf hc
      · cases h
    · cases h
  · split at h
    · rename_i crlf hc
      cases h
      exact hline crlf hc
    · cases h
  · cases h
  · cases h

/-- The loop of `parseRequest`: each further turn takes a line off the buffer. -/
def parseLoop : Loop (HttpContext × WfBuffer × Bool) (HttpContext × WfBuffer × Bool) :=
  ⟨fun s => parseTurn s.1 s.2.1 s.2.2, fun s => s.2.1.readable.length,
    fun _ _ h => parseTurn_decreases h⟩

/-- The context, the buffer and the return value after `parseRequest`. -/
def parseRequest (ctx : HttpContext) (buf : WfBuffer) : HttpContext × WfBuffer × Bool :=
  parseLoop.eval (ctx, buf, true)

end HttpContext

end Agora
