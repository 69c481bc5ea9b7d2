import Agora.Code.HttpResponse

/-! # The code of `StaticFileServer` and `MimeType` -/

namespace Agora

def DOT : Byte := 46
def SLASH : Byte := 47

/-- The part after the last `c` (`rfind`), if there is one. -/
def afterLast (c : Byte) : List Byte → Option (List Byte)
  | [] => none
  | a :: l => (afterLast c l).or (if a = c then some l else none)

namespace MimeType

def octetStream : List Byte := ascii "application/octet-stream".toList

def types : List (List (List Char) × List Char) :=
  [(["html".toList, "htm".toList], "text/html".toList),
    (["css".toList], "text/css".toList),
    (["js".toList], "application/javascript".toList),
    (["json".toList], "application/json".toList),
    (["png".toList], "image/png".toList),
    (["jpg".toList, "jpeg".toList], "image/jpeg".toList),
    (["gif".toList], "image/gif".toList),
    (["ico".toList], "image/x-icon".toList),
    (["svg".toList], "image/svg+xml".toList),
    (["txt".toList], "text/plain".toList),
    (["pdf".toList], "application/pdf".toList),
    (["zip".toList], "application/zip".toList),
    (["mp4".toList], "video/mp4".toList)]

def getType (path : List Byte) : List Byte :=
  match afterLast DOT path with
  | none => octetStream
  | some ext =>
    match types.find? fun row => row.1.any fun name => ext = ascii name with
    | some row => ascii row.2
    | none => octetStream

end MimeType

/-! ## `std::stoi` with base 16 -/

/-- `isspace` in the C locale. -/
def isSpace (c : Byte) : Bool := c = HttpContext.SP || (9 ≤ c && c ≤ 13)

def hexDigit (c : Byte) : Option Nat :=
  if 48 ≤ c ∧ c ≤ 57 then some (c.toNat - 48)
  else if 65 ≤ c ∧ c ≤ 70 then some (c.toNat - 55)
  else if 97 ≤ c ∧ c ≤ 102 then some (c.toNat - 87)
  else none

def MINUS : Byte := 45
def PLUS : Byte := 43

/-- The sign in front, whether it is a minus, and the rest. -/
def signOf : List Byte → Bool × List Byte
  | c :: l => if c = MINUS then (true, l) else if c = PLUS then (false, l) else (false, c :: l)
  | [] => (false, [])

/-- Takes `0x` off, if a digit follows. -/
def dropPrefix : List Byte → List Byte
  | zero :: x :: c :: l =>
    if zero = 48 ∧ (x = 120 ∨ x = 88) ∧ (hexDigit c).isSome then c :: l else zero :: x :: c :: l
  | l => l

/-- The digits in front. -/
def hexDigits : List Byte → List Nat
  | [] => []
  | c :: l => match hexDigit c with
    | some d => d :: hexDigits l
    | none => []

def magnitude (s : List Byte) : Option Nat :=
  match hexDigits (dropPrefix s) with
  | [] => none
  | d :: digits => some (digits.foldl (fun n d => n * 16 + d) d)

/-- `none` is `invalid_argument`. The two characters of an escape do not overflow an `int`. -/
def stoi16 (s : List Byte) : Option Int :=
  let signed := signOf (s.dropWhile isSpace)
  (magnitude signed.2).map fun n : Nat => if signed.1 then -(n : Int) else (n : Int)

/-- `static_cast<char>`. -/
def toChar (n : Int) : Byte := (n % 256).toNat.toUInt8

/-! ## `StaticFileServer` -/

def PERCENT : Byte := 37

structure StaticFileServer where
  rootDir : List Byte

/-- What `std::ifstream` opens. -/
inductive OpenFile
  /-- A file, with what is read from it. -/
  | content (bytes : List Byte)
  /-- `tellg` gives a size that no string has, as it does for a directory. -/
  | oversized
deriving DecidableEq, Repr

/-- What can be opened, by its path. -/
abbrev Files := List Byte → Option OpenFile

/-- What a request leaves: the response, `none` behind an exception, and the path that `serveFile` was called
with. -/
structure Served where
  response : Option HttpResponse
  path : Option (List Byte)

namespace StaticFileServer

/-- `none` is an exception. -/
def urlDecode : List Byte → Option (List Byte)
  | c :: a :: b :: rest =>
    if c = PERCENT then
      match stoi16 [a, b] with
      | some hex => (urlDecode rest).map (toChar hex :: ·)
      | none => none
    else (urlDecode (a :: b :: rest)).map ((if c = PLUS then HttpContext.SP else c) :: ·)
  | c :: rest => (urlDecode rest).map ((if c = PLUS then HttpContext.SP else c) :: ·)
  | [] => some []

/-- `path.find("..") != npos`. -/
def hasDotDot : List Byte → Bool
  | a :: b :: rest => (a = DOT && b = DOT) || hasDotDot (b :: rest)
  | _ => false

def badRequest (resp : HttpResponse) : HttpResponse :=
  { resp with
    statusCode := .k400BadRequest
    statusMessage := ascii "Bad Request".toList
    body := ascii "400 Bad Request".toList }

def notFound (resp : HttpResponse) : HttpResponse :=
  let resp := { resp with
    statusCode := .k404NotFound
    statusMessage := ascii "Not Found".toList }
  { resp.setContentType (ascii "text/html".toList) with
    body := ascii "<h1>404 Not Found</h1>".toList }

/-- `none` is an exception, and `some none` that the file cannot be opened. -/
def serveFile (files : Files) (path : List Byte) (resp : HttpResponse) : Option (Option HttpResponse) :=
  match files path with
  | none => some none
  | some .oversized => none
  | some (.content bytes) =>
    let resp := { resp with statusCode := .k200Ok, statusMessage := ascii "OK".toList }
    some (some { resp.setContentType (MimeType.getType path) with body := bytes })

/-- The file that stands for a decoded path. -/
def filePath (s : StaticFileServer) (path : List Byte) : List Byte :=
  s.rootDir ++ if path = [SLASH] then ascii "/index.html".toList else path

/-- `onRequest` up to `serveFile`: `none` is an exception, and `some none` the refusal of "..". -/
def checkedPath (s : StaticFileServer) (path : List Byte) : Option (Option (List Byte)) :=
  (urlDecode path).map fun path => if hasDotDot path then none else some (s.filePath path)

def onRequest (s : StaticFileServer) (files : Files) (req : HttpRequest) (resp : HttpResponse) : Served :=
  match s.checkedPath req.path with
  | none => ⟨none, none⟩
  | some none => ⟨some (badRequest resp), none⟩
  | some (some filePath) =>
    ⟨(serveFile files filePath resp).map fun found => found.getD (notFound resp), some filePath⟩

end StaticFileServer

end Agora
