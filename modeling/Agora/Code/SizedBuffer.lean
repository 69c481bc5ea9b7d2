import Agora.Spec.Bytes
import Mathlib.Algebra.Group.Nat.Defs

/-!
# The code of `Buffer`, with the arithmetic of `size_t`

The functions that compute a length or an index, once more with sums and differences modulo 2^64.
`maxSize` is `vector::max_size()`.
-/

open Agora.Spec

namespace Agora

namespace SizeT

def bound : Nat := 2 ^ 64

/-- `PTRDIFF_MAX`, which is `max_size()` of a vector of `char`. -/
def ptrdiffMax : Nat := 2 ^ 63 - 1

def add (a b : Nat) : Nat := (a + b) % bound

def sub (a b : Nat) : Nat := (a + (bound - b)) % bound

end SizeT

namespace SizedBuffer

open Buffer SizeT

/-! ## Capacity -/

def readableBytes (b : Buffer) : Nat := sub b.writerIndex b.readerIndex

def writableBytes (b : Buffer) : Nat := sub b.buffer.length b.writerIndex

def prependableBytes (b : Buffer) : Nat := b.readerIndex

/-! ## Reading -/

def retrieve (b : Buffer) (len : Nat) : Buffer :=
  if len < readableBytes b then { b with readerIndex := add b.readerIndex len } else b.retrieveAll

/-- Fails where the assertion does. -/
def retrieveAsString (b : Buffer) (len : Nat) : Option Buffer :=
  if len ≤ readableBytes b then some (retrieve b len) else none

def retrieveAllAsString (b : Buffer) : Option Buffer := retrieveAsString b (readableBytes b)

def retrieveUntil (b : Buffer) (endp : Nat) : Buffer := retrieve b (sub endp b.peek)

/-! ## Writing -/

/-- The buffer after the call. An error is `length_error`, with the buffer that it leaves. -/
abbrev Outcome := Except Buffer Buffer

def left : Outcome → Buffer
  | .ok b => b
  | .error b => b

def makeSpace (maxSize : Nat) (b : Buffer) (len : Nat) : Outcome :=
  if add (prependableBytes b) (writableBytes b) < add len kCheapPrepend then
    if add b.writerIndex len ≤ maxSize then
      .ok { b with buffer := resize b.buffer (add b.writerIndex len) }
    else .error b
  else
    let readable := readableBytes b
    .ok
      { buffer := copy b.buffer b.readerIndex kCheapPrepend (b.writerIndex - b.readerIndex)
        readerIndex := kCheapPrepend
        writerIndex := add kCheapPrepend readable }

def ensureWritableBytes (maxSize : Nat) (b : Buffer) (len : Nat) : Outcome :=
  if writableBytes b < len then makeSpace maxSize b len else .ok b

/-- `none` is a `memcpy` past the end of the storage. -/
def append (maxSize : Nat) (b : Buffer) (data : List Byte) : Option Outcome :=
  match ensureWritableBytes maxSize b data.length with
  | .error b => some (.error b)
  | .ok b =>
    if b.writerIndex + data.length ≤ b.buffer.length then
      some <| .ok
        { b with
          buffer := memcpy b.buffer b.writerIndex data
          writerIndex := add b.writerIndex data.length }
    else none

/-! ## The network -/

def readFd (maxSize : Nat) (b : Buffer) : Option (List Byte) → Option Outcome
  | none => some (.ok b)
  | some data =>
    let writable := writableBytes b
    let inBuffer := memcpy b.buffer b.writerIndex (data.take writable)
    if data.length ≤ writable then
      some (.ok { b with buffer := inBuffer, writerIndex := add b.writerIndex data.length })
    else
      append maxSize { b with buffer := inBuffer, writerIndex := b.buffer.length }
        (data.drop writable)

/-! ## Any operation -/

def step (maxSize : Nat) (b : Buffer) : BufferOp → Option Outcome
  | .append data => append maxSize b data
  | .retrieve len => some (.ok (retrieve b len))
  | .retrieveAll => some (.ok b.retrieveAll)
  | .retrieveAsString len => (retrieveAsString b len).map .ok
  | .retrieveAllAsString => (retrieveAllAsString b).map .ok
  | .retrieveUntil offset => some (.ok (retrieveUntil b (b.peek + offset)))
  | .ensureWritableBytes len => some (ensureWritableBytes maxSize b len)
  | .readFd data => readFd maxSize b data
  | .writeFd => some (.ok b)

end SizedBuffer

end Agora
