import Mathlib.Data.List.Basic

/-!
# The code of `Buffer`

`std::vector<char>` is a list of bytes and a `size_t` is a `Nat`: no sum wraps for lengths that fit
in memory. A `const char*` into the storage is its index.
-/

namespace Agora

abbrev Byte := UInt8

def CR : Byte := 13
def LF : Byte := 10

structure Buffer where
  buffer : List Byte
  readerIndex : Nat
  writerIndex : Nat
deriving DecidableEq, Repr

namespace Buffer

def kCheapPrepend : Nat := 8
def kInitialSize : Nat := 1024

/-- The bytes of the stack buffer in `readFd`. -/
def extrabufSize : Nat := 65536

/-! ## The vector -/

/-- The storage after a `memcpy` of `data` to index `i`. What lands behind the storage is not in it. -/
def memcpy (v : List Byte) (i : Nat) (data : List Byte) : List Byte :=
  v.take i ++ data.take (v.length - i) ++ v.drop (i + data.length)

/-- The storage after `vector::resize(n)`: new bytes are zero. -/
def resize (v : List Byte) (n : Nat) : List Byte :=
  v.take n ++ List.replicate (n - v.length) 0

/-- The storage after `std::copy` of `n` bytes from index `src` to index `dst`, one byte after the
other from the front. The two ranges may overlap. -/
def copy (v : List Byte) (src dst : Nat) : Nat → List Byte
  | 0 => v
  | n + 1 => copy (v.set dst (v.getD src 0)) (src + 1) (dst + 1) n

/-! ## Capacity -/

def new : Buffer := ⟨List.replicate (kCheapPrepend + kInitialSize) 0, kCheapPrepend, kCheapPrepend⟩

def readableBytes (b : Buffer) : Nat := b.writerIndex - b.readerIndex

def writableBytes (b : Buffer) : Nat := b.buffer.length - b.writerIndex

def prependableBytes (b : Buffer) : Nat := b.readerIndex

def peek (b : Buffer) : Nat := b.readerIndex

/-- The `len` bytes at `peek()`. -/
def bytesAtPeek (b : Buffer) (len : Nat) : List Byte := (b.buffer.drop b.peek).take len

/-! ## Reading -/

def retrieveAll (b : Buffer) : Buffer :=
  { b with readerIndex := kCheapPrepend, writerIndex := kCheapPrepend }

def retrieve (b : Buffer) (len : Nat) : Buffer :=
  if len < b.readableBytes then { b with readerIndex := b.readerIndex + len } else b.retrieveAll

/-- Fails where the assertion does. -/
def retrieveAsString (b : Buffer) (len : Nat) : Option (List Byte × Buffer) :=
  if len ≤ b.readableBytes then some (b.bytesAtPeek len, b.retrieve len) else none

def retrieveAllAsString (b : Buffer) : Option (List Byte × Buffer) :=
  b.retrieveAsString b.readableBytes

def retrieveUntil (b : Buffer) (endp : Nat) : Buffer := b.retrieve (endp - b.peek)

/-! ## Writing -/

def makeSpace (b : Buffer) (len : Nat) : Buffer :=
  if b.prependableBytes + b.writableBytes < len + kCheapPrepend then
    { b with buffer := resize b.buffer (b.writerIndex + len) }
  else
    let readable := b.readableBytes
    { buffer := copy b.buffer b.readerIndex kCheapPrepend (b.writerIndex - b.readerIndex)
      readerIndex := kCheapPrepend
      writerIndex := kCheapPrepend + readable }

def ensureWritableBytes (b : Buffer) (len : Nat) : Buffer :=
  if b.writableBytes < len then b.makeSpace len else b

def append (b : Buffer) (data : List Byte) : Buffer :=
  let b := b.ensureWritableBytes data.length
  { b with
    buffer := memcpy b.buffer b.writerIndex data
    writerIndex := b.writerIndex + data.length }

/-! ## The network -/

/-- What `readFd` offers to `readv`: the writable part, and the stack buffer when that is small. -/
def readSpace (b : Buffer) : Nat :=
  if b.writableBytes < extrabufSize then b.writableBytes + extrabufSize else b.writableBytes

/-- The buffer after a `readv` that returned `data` (`none` is an error, and changes nothing).
`readv` fills the writable part first, then the stack buffer. -/
def readFd (b : Buffer) : Option (List Byte) → Buffer
  | none => b
  | some data =>
    let writable := b.writableBytes
    let inBuffer := memcpy b.buffer b.writerIndex (data.take writable)
    if data.length ≤ writable then
      { b with buffer := inBuffer, writerIndex := b.writerIndex + data.length }
    else
      append { b with buffer := inBuffer, writerIndex := b.buffer.length } (data.drop writable)

/-- What `writeFd` offers to `write`. It moves no index. -/
def writeFd (b : Buffer) : List Byte := b.bytesAtPeek b.readableBytes

/-- The first index from `i` on, among `n`, where the storage holds CR LF (`std::search`). -/
def searchCRLF (v : List Byte) (i : Nat) : Nat → Option Nat
  | 0 => none
  | n + 1 => if v.getD i 0 = CR ∧ v.getD (i + 1) 0 = LF then some i else searchCRLF v (i + 1) n

/-- Where the readable bytes first hold CR LF, or null. -/
def findCRLF (b : Buffer) : Option Nat := searchCRLF b.buffer b.peek (b.readableBytes - 1)

end Buffer

end Agora
