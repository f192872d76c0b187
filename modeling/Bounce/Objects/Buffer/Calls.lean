import Bounce.Objects.Buffer.Theorems.Queue

open List

namespace Bounce.Buffer

-- The loop over the bytes of another buffer in the copy constructor and in `operator=`.
def pushAll (buffer src : List Byte) : List Byte :=
  src.foldl (fun buffer it => buffer ++ [it]) buffer

theorem pushAll_eq (buffer src : List Byte) : pushAll buffer src = buffer ++ src := by
  induction src generalizing buffer
  case nil => simp [pushAll]
  case cons it src hi =>
    rw [pushAll, foldl_cons]
    exact (hi (buffer ++ [it])).trans (append_assoc ..)

def copy (buf : Buffer) : Buffer where
  initSize   := buf.initSize
  buffer     := pushAll [] buf.buffer
  readIndex  := buf.readIndex
  writeIndex := buf.writeIndex

-- The new buffer of the move constructor, and what it leaves of the other one: the move of the
-- vector leaves an empty vector, and the indices stay.
def move (buf : Buffer) : Buffer × Buffer :=
  (buf, { buf with buffer := [] })

-- `operator=` for another buffer than `b` itself.
def assign (b buffer : Buffer) : Buffer :=
  { b with
    initSize   := buffer.initSize
    buffer     := pushAll [] buffer.buffer
    readIndex  := buffer.readIndex
    writeIndex := buffer.writeIndex }

theorem copy_eq (buf : Buffer) : buf.copy = buf := by
  simp [copy, pushAll_eq]

theorem assign_eq (b buffer : Buffer) : b.assign buffer = buffer := by
  simp [assign, pushAll_eq]

inductive Call
  | op (op : Op)
  | readInt8
  | readInt16
  | readInt32

namespace Call

def Allowed (b : Buffer) : Call → Prop
  | op o                             => o.Allowed b
  | readInt8 | readInt16 | readInt32 => True

def exec (b : Buffer) : Call → Buffer
  | op o      => (o.exec b).1
  | readInt8  => b.readInt8.1
  | readInt16 => b.readInt16.1
  | readInt32 => b.readInt32.1

def Step (b₁ : Buffer) (call : Call) (b₂ : Buffer) : Prop :=
  call.Allowed b₁ ∧ b₂ = call.exec b₁

end Call

variable {b b₁ b₂ : Buffer} {call : Call} {calls : List Call}

theorem readInt_valid (size advance : Nat) (h : b.Valid) (ha : advance ≤ size) :
    (b.readInt size advance).1.Valid := by
  rw [readInt]
  split
  case isTrue     => exact h
  case isFalse hs => exact advance_valid h (Nat.le_trans ha (Nat.not_lt.mp hs))

theorem Call.exec_valid (h : b.Valid) : (call : Call) → (call.exec b).Valid
  | op o      => o.exec_valid h
  | readInt8  => readInt_valid kInt8Size kInt8Size h (Nat.le_refl _)
  | readInt16 => readInt_valid kInt16Size kInt16Size h (Nat.le_refl _)
  | readInt32 => readInt_valid kInt32Size kInt16Size h (by decide)

theorem Call.Step.valid (h : b₁.Valid) (e : Call.Step b₁ call b₂) : b₂.Valid :=
  e.right ▸ call.exec_valid h

theorem Call.run_valid (e : Steps Call.Step b₁ calls b₂) (h : b₁.Valid) : b₂.Valid :=
  e.invariant (fun h e => e.valid h) h

end Bounce.Buffer
