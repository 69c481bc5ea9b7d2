import Agora.Code.HttpContext

/-! # The code of `HttpResponse` -/

namespace Agora

inductive HttpStatusCode
  | kUnknown | k200Ok | k301MovedPermanently | k400BadRequest | k404NotFound
  | k500InternalServerError
deriving DecidableEq, Repr

def HttpStatusCode.toInt : HttpStatusCode → Nat
  | .kUnknown => 0
  | .k200Ok => 200
  | .k301MovedPermanently => 301
  | .k400BadRequest => 400
  | .k404NotFound => 404
  | .k500InternalServerError => 500

structure HttpResponse where
  statusCode : HttpStatusCode
  statusMessage : List Byte
  closeConnection : Bool
  headers : HeaderMap
  body : List Byte
deriving DecidableEq, Repr

/-- `std::to_string`. -/
def stdToString (n : Nat) : List Byte := ascii (Nat.toDigits 10 n)

namespace HttpResponse

def new (close : Bool) : HttpResponse := ⟨.kUnknown, [], close, [], []⟩

/-! ## The setters -/

def setStatusCode (r : HttpResponse) (code : HttpStatusCode) : HttpResponse :=
  { r with statusCode := code }

def setStatusMessage (r : HttpResponse) (message : List Byte) : HttpResponse :=
  { r with statusMessage := message }

def setCloseConnection (r : HttpResponse) (on : Bool) : HttpResponse := { r with closeConnection := on }

def addHeader (r : HttpResponse) (key value : List Byte) : HttpResponse :=
  { r with headers := r.headers.assign key value }

def setContentType (r : HttpResponse) (contentType : List Byte) : HttpResponse :=
  { r with headers := r.headers.assign (ascii "Content-Type".toList) contentType }

def setBody (r : HttpResponse) (body : List Byte) : HttpResponse := { r with body := body }

/-! ## `appendToBuffer` -/

def crlf : List Byte := [CR, LF]
def httpVersion : List Byte := ascii ['H', 'T', 'T', 'P', '/', '1', '.', '1']
def contentLength : List Byte :=
  ascii ['C', 'o', 'n', 't', 'e', 'n', 't', '-', 'L', 'e', 'n', 'g', 't', 'h']
def connection : List Byte := ascii ['C', 'o', 'n', 'n', 'e', 'c', 't', 'i', 'o', 'n']
def close : List Byte := ascii ['c', 'l', 'o', 's', 'e']
def keepAlive : List Byte := ascii ['K', 'e', 'e', 'p', '-', 'A', 'l', 'i', 'v', 'e']
def colon : List Byte := ascii [':', ' ']

/-- What `appendToBuffer` appends, with the headers in the order of the map's iteration. -/
def bytes (r : HttpResponse) : List Byte :=
  httpVersion ++ ascii [' '] ++ stdToString r.statusCode.toInt ++ ascii [' '] ++
    r.statusMessage ++ crlf ++
  (r.headers.flatMap fun h => h.1 ++ colon ++ h.2 ++ crlf) ++
  contentLength ++ colon ++ stdToString r.body.length ++ crlf ++
  connection ++ colon ++ (if r.closeConnection then close else keepAlive) ++ crlf ++
  crlf ++ r.body

/-- One turn of the loop over the headers. -/
def appendHeader (output : WfBuffer) (header : List Byte × List Byte) : WfBuffer :=
  (((output.append header.1).append colon).append header.2).append crlf

def appendToBuffer (r : HttpResponse) (output : WfBuffer) : WfBuffer :=
  let output := output.append (httpVersion ++ ascii [' '])
  let output := output.append (stdToString r.statusCode.toInt)
  let output := output.append (ascii [' '])
  let output := output.append r.statusMessage
  let output := output.append crlf
  let output := r.headers.foldl appendHeader output
  let output := output.append (contentLength ++ colon)
  let output := output.append (stdToString r.body.length)
  let output := output.append crlf
  let output :=
    if r.closeConnection then output.append (connection ++ colon ++ close ++ crlf)
    else output.append (connection ++ colon ++ keepAlive ++ crlf)
  let output := output.append crlf
  output.append r.body

/-! Whatever the appends do to the storage, the readable bytes are extended by `bytes`. -/

theorem readable_appendHeaders (headers : HeaderMap) (output : WfBuffer) :
    (headers.foldl appendHeader output).readable =
      output.readable ++ headers.flatMap fun h => h.1 ++ colon ++ h.2 ++ crlf := by
  induction headers generalizing output with
  | nil => simp
  | cons h headers ih =>
    rw [List.foldl_cons, ih, List.flatMap_cons]
    simp [appendHeader]

theorem readable_appendToBuffer (r : HttpResponse) (output : WfBuffer) :
    (r.appendToBuffer output).readable = output.readable ++ r.bytes := by
  unfold appendToBuffer bytes
  cases r.closeConnection with
  | true => simp [readable_appendHeaders]
  | false => simp [readable_appendHeaders]

end HttpResponse

end Agora
