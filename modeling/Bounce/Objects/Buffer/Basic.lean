import Bounce.Library.Overwrite
import Mathlib.Algebra.GroupWithZero.Nat

namespace Bounce

abbrev Byte := BitVec 8

-- The difference of two `size_t` values, which wraps below zero.
def sizeSub (a b : Nat) : Nat :=
  if b ≤ a then a - b else 2 ^ 64 + a - b

@[simp]
theorem sizeSub_of_le {a b : Nat} (h : b ≤ a) : sizeSub a b = a - b :=
  if_pos h

inductive Readv
  | error (errno : Int)
  | received (bytes : List Byte)
  deriving DecidableEq

namespace Readv

def ret : Readv → Int
  | error _        => -1
  | received bytes => bytes.length

end Readv

def stackBufferSize : Nat := 65536

-- The indices count from the front of `buffer`. Their order is not part of the type, as a buffer
-- that has been moved from keeps its indices but not its bytes.
structure Buffer where
  initSize   : Nat
  buffer     : List Byte
  readIndex  : Nat
  writeIndex : Nat
  deriving DecidableEq

namespace Buffer

def kInt8Size  : Nat := 1
def kInt16Size : Nat := 2
def kInt32Size : Nat := 4

-- `BUFFER_INIT_SIZE` is a variable of the program, here the parameter `initSize`.
def new (initSize : Nat) : Buffer where
  initSize   := initSize
  buffer     := List.replicate initSize 0
  readIndex  := 0
  writeIndex := 0

def readableBytes (b : Buffer) : Nat :=
  sizeSub b.writeIndex b.readIndex

def writeableBytes (b : Buffer) : Nat :=
  sizeSub b.buffer.length b.writeIndex

def peek (b : Buffer) : List Byte :=
  b.buffer.drop b.readIndex

def compact (b : Buffer) : Buffer :=
  { b with
    buffer     := b.buffer.copyWithin b.readIndex 0 (b.writeIndex - b.readIndex)
    writeIndex := sizeSub b.writeIndex b.readIndex
    readIndex  := 0 }

def resize (b : Buffer) (len : Nat) : Buffer :=
  { b with buffer := b.buffer ++ List.replicate len 0 }

def makeSpace (b : Buffer) (len : Nat) : Buffer :=
  let b := if b.readIndex > b.initSize / 2 then b.compact else b
  if b.writeableBytes < len then b.resize len else b

def write (b : Buffer) (src : List Byte) : Buffer :=
  { b with
    buffer     := b.buffer.overwrite b.writeIndex src
    writeIndex := b.writeIndex + src.length }

def append (b : Buffer) (src : List Byte) : Buffer :=
  (if b.writeableBytes < src.length then b.makeSpace src.length else b).write src

-- `::readv` fills the writeable part of `buffer` before the stack buffer. The comparison with the
-- return value is on `ssize_t`, which holds every size that a vector can have.
def readFd (b : Buffer) : Readv → Buffer
  | .error _ => b
  | .received bytes =>
    let buf := bytes.drop b.writeableBytes
    let b := { b with buffer := b.buffer.overwrite b.writeIndex (bytes.take b.writeableBytes) }
    if b.writeableBytes > bytes.length then
      { b with writeIndex := b.writeIndex + bytes.length }
    else
      let writeAble := b.writeableBytes
      { b with writeIndex := b.buffer.length }.append (buf.take (sizeSub bytes.length writeAble))

def reset (b : Buffer) : Buffer :=
  { b with readIndex := 0, writeIndex := 0 }

def advance (b : Buffer) (len : Nat) : Buffer :=
  { b with readIndex := b.readIndex + len }

def readAsString (b : Buffer) (size : Nat) : Buffer × List Byte :=
  let readBytes := if size > b.readableBytes then b.readableBytes else size
  let str := b.peek.take readBytes
  if readBytes = b.readableBytes then (b.reset, str) else (b.advance readBytes, str)

def readAllAsString (b : Buffer) : Buffer × List Byte :=
  b.readAsString b.readableBytes

def retrieve (b : Buffer) (len : Nat) : Buffer :=
  if len < b.readableBytes then b.advance len else b.reset

def bytesOf : (size : Nat) → Nat → List Byte
  | 0,        _ => []
  | size + 1, n => BitVec.ofNat 8 n :: bytesOf size (n / 256)

def ofBytes : List Byte → Nat
  | []         => 0
  | b :: bytes => b.toNat + 256 * ofBytes bytes

def load (size : Nat) (bytes : List Byte) : BitVec (8 * size) :=
  BitVec.ofNat _ (ofBytes (bytes.take size))

def writeInt (b : Buffer) {size : Nat} (num : BitVec (8 * size)) : Buffer :=
  b.append (bytesOf size num.toNat)

def writeInt8 (b : Buffer) (num : BitVec (8 * kInt8Size)) : Buffer :=
  b.writeInt num

def writeInt16 (b : Buffer) (num : BitVec (8 * kInt16Size)) : Buffer :=
  b.writeInt num

def writeInt32 (b : Buffer) (num : BitVec (8 * kInt32Size)) : Buffer :=
  b.writeInt num

def peekInt (b : Buffer) (size : Nat) : BitVec (8 * size) :=
  if b.readIndex + size > b.writeIndex then 0 else load size b.peek

def peekInt8 (b : Buffer) : BitVec (8 * kInt8Size) :=
  b.peekInt kInt8Size

def peekInt16 (b : Buffer) : BitVec (8 * kInt16Size) :=
  b.peekInt kInt16Size

def peekInt32 (b : Buffer) : BitVec (8 * kInt32Size) :=
  b.peekInt kInt32Size

-- The three `readInt` functions move the read index by `advance` before they peek.
def readInt (b : Buffer) (size advance : Nat) : Buffer × BitVec (8 * size) :=
  if size > b.readableBytes then
    (b, 0)
  else
    (b.advance advance, (b.advance advance).peekInt size)

def readInt8 (b : Buffer) : Buffer × BitVec (8 * kInt8Size) :=
  b.readInt kInt8Size kInt8Size

def readInt16 (b : Buffer) : Buffer × BitVec (8 * kInt16Size) :=
  b.readInt kInt16Size kInt16Size

-- The source moves the read index by `kInt16Size` here.
def readInt32 (b : Buffer) : Buffer × BitVec (8 * kInt32Size) :=
  b.readInt kInt32Size kInt16Size

end Buffer
end Bounce
