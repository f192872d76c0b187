import Bounce.Objects.Buffer.Calls

open List

namespace Bounce.Buffer

-- An evaluation of `buffer_[index]`, with the size that the vector has then.
structure Subscript where
  index : Nat
  size  : Nat
  deriving DecidableEq

def subscript (b : Buffer) (index : Nat) : Subscript where
  index := index
  size  := b.buffer.length

-- The subscripts that the functions of a buffer evaluate, in their order.
namespace Subscripts

def makeSpace (b : Buffer) : List Subscript :=
  if b.readIndex > b.initSize / 2 then
    [b.subscript b.readIndex, b.subscript b.writeIndex, b.subscript 0]
  else
    []

def append (b : Buffer) (src : List Byte) : List Subscript :=
  if b.writeableBytes < src.length then
    let b' := b.makeSpace src.length
    makeSpace b ++ [b'.subscript b'.writeIndex]
  else
    [b.subscript b.writeIndex]

-- The address for `::readv` comes first, whatever its answer is.
def readFd (b : Buffer) : Readv → List Subscript
  | .error _ => [b.subscript b.writeIndex]
  | .received bytes =>
    let buf := bytes.drop b.writeableBytes
    let b' := { b with buffer := b.buffer.overwrite b.writeIndex (bytes.take b.writeableBytes) }
    b.subscript b.writeIndex ::
      if b'.writeableBytes > bytes.length then
        []
      else
        append { b' with writeIndex := b'.buffer.length }
          (buf.take (sizeSub bytes.length b'.writeableBytes))

def readAsString (b : Buffer) : List Subscript :=
  [b.subscript b.readIndex]

end Subscripts

-- The reads of integers use `data()`, and `retrieve` does not look at the bytes.
def Call.subscripts (b : Buffer) : Call → List Subscript
  | op (.append src)                       => Subscripts.append b src
  | op (.writeInt8 num)                    => Subscripts.append b (bytesOf kInt8Size num.toNat)
  | op (.writeInt16 num)                   => Subscripts.append b (bytesOf kInt16Size num.toNat)
  | op (.writeInt32 num)                   => Subscripts.append b (bytesOf kInt32Size num.toNat)
  | op (.readFd answer)                    => Subscripts.readFd b answer
  | op (.readAsString _)                   => Subscripts.readAsString b
  | op .readAllAsString                    => Subscripts.readAsString b
  | op (.retrieve _)                       => []
  | readInt8 | readInt16 | readInt32       => []

def InRange (l : List Subscript) : Prop :=
  ∀ i ∈ l, i.index < i.size

def Call.InRange (b : Buffer) (call : Call) : Prop :=
  Buffer.InRange (call.subscripts b)

def Spacious (b : Buffer) (len : Nat) : Prop :=
  0 < b.writeableBytes ∨ (0 < len ∧ b.readIndex ≤ b.initSize / 2)

namespace Call

def Inside (b : Buffer) : Call → Prop
  | op (.append src)                       => b.Spacious src.length
  | op (.writeInt8 _)                      => b.Spacious kInt8Size
  | op (.writeInt16 _)                     => b.Spacious kInt16Size
  | op (.writeInt32 _)                     => b.Spacious kInt32Size
  | op (.readFd (.error _))                => 0 < b.writeableBytes
  | op (.readFd (.received bytes)) =>
    0 < b.writeableBytes ∧ (bytes.length < b.writeableBytes ∨
    (b.writeableBytes < bytes.length ∧ b.readIndex ≤ b.initSize / 2))
  | op (.readAsString _)                   => b.readIndex < b.buffer.length
  | op .readAllAsString                    => b.readIndex < b.buffer.length
  | op (.retrieve _)                       => True
  | readInt8 | readInt16 | readInt32       => True

instance {b : Buffer} {len : Nat} : Decidable (b.Spacious len) :=
  inferInstanceAs (Decidable (_ ∨ _))

instance {b : Buffer} : ∀ call, Decidable (Inside b call)
  | op (.append _) | op (.writeInt8 _) | op (.writeInt16 _) | op (.writeInt32 _) =>
    inferInstanceAs (Decidable (b.Spacious _))
  | op (.readFd (.error _))          => inferInstanceAs (Decidable (_ < _))
  | op (.readFd (.received _))       => inferInstanceAs (Decidable (_ ∧ _))
  | op (.readAsString _)             => inferInstanceAs (Decidable (_ < _))
  | op .readAllAsString              => inferInstanceAs (Decidable (_ < _))
  | op (.retrieve _)                 => .isTrue trivial
  | readInt8 | readInt16 | readInt32 => .isTrue trivial

end Call

variable {b : Buffer}

theorem inRange_nil : InRange [] := by
  simp [InRange]

theorem inRange_cons {i : Subscript} {l : List Subscript} :
    InRange (i :: l) ↔ i.index < i.size ∧ InRange l :=
  forall_mem_cons

theorem inRange_append {l l' : List Subscript} : InRange (l ++ l') ↔ InRange l ∧ InRange l' :=
  forall_mem_append

theorem subscript_writeIndex_iff (h : b.Valid) :
    (b.subscript b.writeIndex).index < (b.subscript b.writeIndex).size ↔ 0 < b.writeableBytes := by
  rw [h.writeableBytes_eq, subscript]
  exact Nat.sub_pos_iff_lt.symm

theorem makeSpace_inRange_iff (h : b.Valid) :
    InRange (Subscripts.makeSpace b) ↔ b.readIndex ≤ b.initSize / 2 ∨ 0 < b.writeableBytes := by
  have hr := h.read_le_write
  rw [Subscripts.makeSpace]
  split
  case isFalse hi => exact ⟨fun _ => .inl (Nat.not_lt.mp hi), fun _ => inRange_nil⟩
  case isTrue hi =>
    rw [inRange_cons, inRange_cons, subscript_writeIndex_iff h, h.writeableBytes_eq]
    simp only [inRange_cons, inRange_nil, subscript, and_true]
    omega

theorem makeSpace_room_pos (h : b.Valid) {len : Nat} (hl : b.writeableBytes < len) :
    0 < (b.makeSpace len).writeableBytes :=
  Nat.lt_of_lt_of_le (Nat.zero_lt_of_lt hl) (makeSpace_room h len)

theorem append_inRange_iff (h : b.Valid) (src : List Byte) :
    InRange (Subscripts.append b src) ↔ b.Spacious src.length := by
  rw [Subscripts.append, Spacious]
  split
  case isTrue hl =>
    have hv := (makeSpace_extends h src.length).valid
    have hp := makeSpace_room_pos h hl
    have hw := (subscript_writeIndex_iff hv).mpr hp
    have hlen : 0 < src.length := Nat.zero_lt_of_lt hl
    rw [inRange_append, makeSpace_inRange_iff h, inRange_cons]
    simp only [hw, hlen, inRange_nil, and_true, true_and]
    exact or_comm
  case isFalse hl =>
    rw [inRange_cons, subscript_writeIndex_iff h]
    simp only [inRange_nil, and_true]
    omega

theorem readFd_subscripts (h : b.Valid) (bytes : List Byte) :
    Subscripts.readFd b (.received bytes) = b.subscript b.writeIndex ::
      if bytes.length < b.writeableBytes then
        []
      else
        Subscripts.append (b.write (bytes.take b.writeableBytes))
          (bytes.drop b.writeableBytes) := by
  have h₂ := h.write_le_size
  have hw := h.writeableBytes_eq
  simp only [Subscripts.readFd, writeableBytes, length_overwrite, sizeSub_of_le h₂]
  by_cases hl : bytes.length < b.buffer.length - b.writeIndex
  case pos => rw [if_pos hl, if_pos hl]
  case neg =>
    have hi : b.writeIndex + (bytes.take (b.buffer.length - b.writeIndex)).length =
        b.buffer.length := by
      simp; omega
    have ht : (bytes.drop (b.buffer.length - b.writeIndex)).take
        (bytes.length - (b.buffer.length - b.writeIndex)) =
          bytes.drop (b.buffer.length - b.writeIndex) := by
      rw [← length_drop, take_length]
    rw [if_neg hl, if_neg hl, sizeSub_of_le (Nat.not_lt.mp hl), ht, write, hi]

theorem readFd_inRange_iff (h : b.Valid) (bytes : List Byte) :
    InRange (Subscripts.readFd b (.received bytes)) ↔ 0 < b.writeableBytes ∧
      (bytes.length < b.writeableBytes ∨
        (b.writeableBytes < bytes.length ∧ b.readIndex ≤ b.initSize / 2)) := by
  rw [readFd_subscripts h, inRange_cons, subscript_writeIndex_iff h]
  refine and_congr_right fun _ => ?_
  split
  case isTrue hl  => exact ⟨fun _ => .inl hl, fun _ => inRange_nil⟩
  case isFalse hl =>
    have ht : (bytes.take b.writeableBytes).length = b.writeableBytes := by
      rw [length_take, Nat.min_eq_left (Nat.not_lt.mp hl)]
    have hv := write_valid h (Nat.le_of_eq ht)
    have hz : (b.write (bytes.take b.writeableBytes)).writeableBytes = 0 := by
      have h₂ := h.write_le_size
      have hw := h.writeableBytes_eq
      rw [hv.writeableBytes_eq]
      simp only [write, length_overwrite, ht]
      omega
    rw [append_inRange_iff hv, Spacious, hz, length_drop]
    have hr : (b.write (bytes.take b.writeableBytes)).readIndex = b.readIndex := rfl
    have hi : (b.write (bytes.take b.writeableBytes)).initSize = b.initSize := rfl
    rw [hr, hi]
    omega

theorem readAsString_inRange_iff (b : Buffer) :
    InRange (Subscripts.readAsString b) ↔ b.readIndex < b.buffer.length := by
  simp [Subscripts.readAsString, InRange, subscript]

theorem Call.inRange_iff (h : b.Valid) : (call : Call) → (call.InRange b ↔ call.Inside b)
  | op (.append _)                   => append_inRange_iff h _
  | op (.writeInt8 _)                => append_inRange_iff h _
  | op (.writeInt16 _)               => append_inRange_iff h _
  | op (.writeInt32 _)               => append_inRange_iff h _
  | op (.readFd (.error _))          => by
    rw [Call.InRange, subscripts, Subscripts.readFd, inRange_cons, subscript_writeIndex_iff h]
    exact and_iff_left inRange_nil
  | op (.readFd (.received _))       => readFd_inRange_iff h _
  | op (.readAsString _)             => readAsString_inRange_iff b
  | op .readAllAsString              => readAsString_inRange_iff b
  | op (.retrieve _)                 => iff_true_intro inRange_nil
  | readInt8 | readInt16 | readInt32 => iff_true_intro inRange_nil

theorem inRange_iff_inside (initSize : Nat) :
    (∀ calls b, Steps Call.Step (new initSize) calls b → ∀ call : Call, call.InRange b ↔
      call.Inside b) ∧
    (∀ calls b, Steps (Steps.When Call.InRange Call.Step) (new initSize) calls b ↔
      Steps (Steps.When Call.Inside Call.Step) (new initSize) calls b) := by
  have hnew := new_valid initSize
  refine ⟨fun calls b e => Call.inRange_iff (Call.run_valid e hnew),
    fun calls b => ⟨fun e => ?_, fun e => ?_⟩⟩
  · exact e.simulate id (fun h e => e.right.valid h)
      (fun h e => e.imp (Call.inRange_iff h _).mp id) hnew
  · exact e.simulate id (fun h e => e.right.valid h)
      (fun h e => e.imp (Call.inRange_iff h _).mpr id) hnew

theorem inRange_of_short_message :
    ∃ b, Steps (Steps.When Call.InRange Call.Step) (new 8)
      [.op (.readFd (.received [1, 2])), .readInt8, .op (.readAsString 1), .op (.append [])] b := by
  refine ⟨_, ((inRange_iff_inside 8).right _ _).mpr (.step ⟨?_, ?_, rfl⟩ (.step ⟨?_, trivial, rfl⟩
    (.step ⟨?_, trivial, rfl⟩ (.single ⟨?_, trivial, rfl⟩))))⟩
  case refine_2 => exact Nat.le_add_left ..
  all_goals decide

-- A `::readv` that fills the vector exactly: the append of no bytes takes the address of the
-- element behind its end.
theorem not_inRange_of_exact_fill :
    ∃ call : Call, call.Allowed (new 8) ∧ ¬call.InRange (new 8) ∧
      call.subscripts (new 8) = [⟨0, 8⟩, ⟨8, 8⟩] := by
  refine ⟨.op (.readFd (.received (List.replicate 8 0))), Nat.le_add_right 8 _, ?_, rfl⟩
  rw [Call.inRange_iff (new_valid _)]
  decide

end Bounce.Buffer
