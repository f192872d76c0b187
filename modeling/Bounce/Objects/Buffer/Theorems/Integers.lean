import Bounce.Objects.Buffer.Theorems.Content
import Mathlib.Algebra.Order.BigOperators.Group.List
import Mathlib.Algebra.Order.Group.Nat

open List

namespace Bounce.Buffer

theorem ofBytes_bytesOf (size n : Nat) : ofBytes (bytesOf size n) = n % 256 ^ size := by
  induction size generalizing n
  case zero => simp [bytesOf, ofBytes, Nat.mod_one]
  case succ size hi => simp [bytesOf, ofBytes, hi, Nat.pow_succ', Nat.mod_mul]

@[simp]
theorem length_bytesOf (size n : Nat) : (bytesOf size n).length = size := by
  induction size generalizing n
  case zero => rfl
  case succ hi => simp [bytesOf, hi]

theorem bytesOf_zero (size : Nat) : bytesOf size 0 = replicate size 0#8 := by
  induction size
  case zero => rfl
  case succ hi => simp [bytesOf, hi, replicate_succ]

theorem load_bytesOf {size : Nat} (num : BitVec (8 * size)) (bytes : List Byte) :
    load size (bytesOf size num.toNat ++ bytes) = num := by
  have hl : (bytesOf size num.toNat).length = size := length_bytesOf ..
  have ht : (bytesOf size num.toNat ++ bytes).take size = bytesOf size num.toNat := by
    simp [hl]
  have hn : num.toNat % 256 ^ size = num.toNat := by
    refine Nat.mod_eq_of_lt ?_
    have := num.isLt
    rwa [Nat.pow_mul] at this
  rw [load, ht, ofBytes_bytesOf, hn, BitVec.ofNat_toNat, BitVec.setWidth_eq]

theorem ofBytes_zeros (n : Nat) : ofBytes (replicate n 0#8) = 0 := by
  induction n
  case zero => rfl
  case succ hi => simp [replicate_succ, ofBytes, hi]

theorem load_zeros (size n : Nat) : load size (replicate n 0#8) = 0 := by
  simp [load, take_replicate, ofBytes_zeros]

variable {b : Buffer}

-- The integer that starts `advance` bytes behind the front of a stream, if the stream has it whole.
def next (size advance : Nat) (bytes : List Byte) : BitVec (8 * size) :=
  if advance + size ≤ bytes.length then load size (bytes.drop advance) else 0

theorem peekInt_eq (h : b.Valid) (size : Nat) : b.peekInt size = next size 0 b.content := by
  have h₁ := h.read_le_write
  have hl := h.length_content
  have hr := h.readableBytes_eq
  rw [peekInt, next]
  split <;> split
  case isTrue.isFalse  => rfl
  case isFalse.isTrue =>
    rw [load, load, drop_zero, h.content_eq_peek, take_take, Nat.min_eq_left (by omega)]
  all_goals omega

theorem readInt_eq {size advance : Nat} (h : b.Valid) (hr : size ≤ b.readableBytes)
    (ha : advance ≤ size) :
    b.readInt size advance = (b.advance advance, next size advance b.content) := by
  have hv := advance_valid h (Nat.le_trans ha hr)
  rw [readInt, if_neg (by omega), peekInt_eq hv, advance_content, next, next,
    length_drop, drop_zero]
  have hl := h.length_content
  congr 1
  split <;> split <;> first | rfl | omega

inductive Width
  | int8
  | int16
  | int32
  deriving DecidableEq

namespace Width

def size : Width → Nat
  | int8  => kInt8Size
  | int16 => kInt16Size
  | int32 => kInt32Size

def advance : Width → Nat
  | int8          => kInt8Size
  | int16 | int32 => kInt16Size

def read (b : Buffer) : (w : Width) → Buffer × BitVec (8 * w.size)
  | int8  => b.readInt8
  | int16 => b.readInt16
  | int32 => b.readInt32

def write (b : Buffer) : (w : Width) → BitVec (8 * w.size) → Buffer
  | int8,  num => b.writeInt8 num
  | int16, num => b.writeInt16 num
  | int32, num => b.writeInt32 num

def peek (b : Buffer) : (w : Width) → BitVec (8 * w.size)
  | int8  => b.peekInt8
  | int16 => b.peekInt16
  | int32 => b.peekInt32

theorem read_eq (b : Buffer) (w : Width) : w.read b = b.readInt w.size w.advance := by
  cases w <;> rfl

theorem write_eq (b : Buffer) (w : Width) (num : BitVec (8 * w.size)) :
    w.write b num = b.writeInt num := by
  cases w <;> rfl

theorem peek_eq (b : Buffer) (w : Width) : w.peek b = b.peekInt w.size := by
  cases w <;> rfl

theorem size_pos (w : Width) : 0 < w.size := by
  cases w <;> decide

theorem advance_le (w : Width) : w.advance ≤ w.size := by
  cases w <;> decide

theorem advance_eq_iff (w : Width) : w.advance = w.size ↔ w ≠ int32 := by
  cases w <;> decide

end Width

structure Value where
  width : Width
  num   : BitVec (8 * width.size)
  deriving DecidableEq

namespace Value

def bytes (v : Value) : List Byte :=
  bytesOf v.width.size v.num.toNat

def encode (vs : List Value) : List Byte :=
  vs.flatMap bytes

def writeAll (b : Buffer) (vs : List Value) : Buffer :=
  vs.foldl (fun b v => v.width.write b v.num) b

def readAll (b : Buffer) : List Width → Buffer × List Value
  | []      => (b, [])
  | w :: ws => ((readAll (w.read b).1 ws).1, ⟨w, (w.read b).2⟩ :: (readAll (w.read b).1 ws).2)

@[simp]
theorem length_bytes (v : Value) : v.bytes.length = v.width.size :=
  length_bytesOf ..

theorem writeAll_spec (h : b.Valid) (vs : List Value) :
    (writeAll b vs).Valid ∧ (writeAll b vs).content = b.content ++ encode vs := by
  induction vs generalizing b
  case nil => simpa [writeAll, encode] using h
  case cons v vs hi =>
    have hv := writeInt_valid h v.num
    have hc := writeInt_content h v.num
    rw [← v.width.write_eq] at hv hc
    have ⟨hv', hc'⟩ := hi hv
    refine ⟨hv', ?_⟩
    simpa [encode, hc, bytes, writeAll] using hc'

theorem length_encode (vs : List Value) :
    (encode vs).length = (vs.map (·.width.size)).sum := by
  simp [encode, length_flatMap]

theorem encode_zeros {vs : List Value} (h : ∀ v ∈ vs, v.num = 0) :
    encode vs = replicate (encode vs).length 0#8 := by
  refine eq_replicate_iff.mpr ⟨rfl, fun b hb => ?_⟩
  have ⟨v, hv, hb⟩ := mem_flatMap.mp hb
  simp [bytes, h v hv, bytesOf_zero] at hb
  exact hb.right

def readBytes (bytes : List Byte) : List Width → List Byte × List Value
  | []      => (bytes, [])
  | w :: ws =>
    if w.size ≤ bytes.length then
      ((readBytes (bytes.drop w.advance) ws).1,
        ⟨w, next w.size w.advance bytes⟩ :: (readBytes (bytes.drop w.advance) ws).2)
    else
      ((readBytes bytes ws).1, ⟨w, 0⟩ :: (readBytes bytes ws).2)

theorem readAll_spec (h : b.Valid) (ws : List Width) :
    (readAll b ws).1.Valid ∧
    readBytes b.content ws = ((readAll b ws).1.content, (readAll b ws).2) := by
  induction ws generalizing b
  case nil => exact ⟨h, rfl⟩
  case cons w ws hi =>
    have hl := h.length_content
    by_cases hr : w.size ≤ b.readableBytes
    case pos =>
      have hv := advance_valid h (Nat.le_trans w.advance_le hr)
      have ⟨hv', hc⟩ := hi hv
      rw [advance_content] at hc
      simp only [readAll, w.read_eq, readInt_eq h hr w.advance_le, readBytes, hl, hr, hc, if_true]
      exact ⟨hv', trivial⟩
    case neg =>
      have he : b.readInt w.size w.advance = (b, 0) := by
        rw [readInt, if_pos (by omega)]
      have ⟨hv', hc⟩ := hi h
      simp only [readAll, w.read_eq, he, readBytes, hl, hr, hc, if_false]
      exact ⟨hv', trivial⟩

theorem length_readBytes (bytes : List Byte) (ws : List Width) :
    bytes.length ≤ (readBytes bytes ws).1.length + (ws.map Width.advance).sum := by
  induction ws generalizing bytes
  case nil => simp [readBytes]
  case cons w ws hi =>
    have h₁ := hi bytes
    have h₂ := hi (bytes.drop w.advance)
    rw [length_drop] at h₂
    simp only [readBytes, map_cons, sum_cons]
    split <;> simp only <;> omega

-- Reading back leaves nothing only if no value is an `int32`, as every `readInt32` leaves two
-- bytes.
theorem narrow_of_readBytes {vs : List Value}
    (h : (readBytes (encode vs) (vs.map (·.width))).1 = []) : ∀ v ∈ vs, v.width ≠ .int32 := by
  have hl := length_readBytes (encode vs) (vs.map (·.width))
  rw [h, length_encode, map_map] at hl
  have hle : ∀ v ∈ vs, v.width.advance ≤ v.width.size := fun v _ => v.width.advance_le
  intro v hv hw
  have hlt : v.width.advance < v.width.size := by
    rw [hw]; decide
  have := sum_lt_sum _ _ hle ⟨v, hv, hlt⟩
  simp only [length_nil, Function.comp_def] at hl
  omega

theorem readBytes_cons {v : Value} (hw : v.width ≠ .int32) (vs : List Value)
    (ws : List Width) :
    readBytes (encode (v :: vs)) (v.width :: ws) =
      ((readBytes (encode vs) ws).1,
        ⟨v.width, next v.width.size 0 (encode vs)⟩ :: (readBytes (encode vs) ws).2) := by
  have he : encode (v :: vs) = v.bytes ++ encode vs := rfl
  have hd : (encode (v :: vs)).drop v.width.size = encode vs := by
    rw [he, ← v.length_bytes, drop_left]
  have hl : (encode (v :: vs)).length = v.width.size + (encode vs).length := by
    simp [he]
  have ha := v.width.advance_eq_iff.mpr hw
  rw [readBytes, if_pos (by omega), ha, hd, next, next, hd, hl, drop_zero]
  congr 3
  simp

theorem next_zeros (size n : Nat) : next size 0 (replicate n 0#8) = 0 := by
  rw [next, drop_zero, load_zeros, ite_self]

theorem readBytes_encode_iff {vs : List Value} (hw : ∀ v ∈ vs, v.width ≠ .int32) :
    readBytes (encode vs) (vs.map (·.width)) = ([], vs) ↔ ∀ v ∈ vs, v.num = 0 := by
  induction vs
  case nil => simp [readBytes, encode]
  case cons v vs hi =>
    have ⟨hwv, hwvs⟩ := forall_mem_cons.mp hw
    have hi := hi hwvs
    rw [map_cons, readBytes_cons hwv, forall_mem_cons]
    constructor
    case mp =>
      intro h
      have ⟨hb, h⟩ := Prod.mk.inj h
      have ⟨hv, hr⟩ := cons.inj h
      have hvs := hi.mp (Prod.ext hb hr)
      rw [encode_zeros hvs, next_zeros] at hv
      refine ⟨?_, hvs⟩
      rw [← hv]
    case mpr =>
      intro ⟨hv, hvs⟩
      have h := hi.mpr hvs
      rw [h, encode_zeros hvs, next_zeros, ← hv]

def RoundTrips (b : Buffer) (vs : List Value) : Prop :=
  (readAll (writeAll b vs) (vs.map (·.width))).2 = vs ∧
  (readAll (writeAll b vs) (vs.map (·.width))).1.readableBytes = 0

theorem roundTrips_iff_readBytes {vs : List Value} (h : b.Valid) (he : b.content = []) :
    RoundTrips b vs ↔ readBytes (encode vs) (vs.map (·.width)) = ([], vs) := by
  have ⟨hv, hc⟩ := writeAll_spec h vs
  have ⟨hv', hr⟩ := readAll_spec hv (vs.map (·.width))
  rw [he, nil_append] at hc
  rw [hc] at hr
  rw [RoundTrips, hr, ← hv'.length_content, length_eq_zero_iff, Prod.mk.injEq, and_comm]

theorem roundTrips_iff {vs : List Value} (h : b.Valid) (he : b.content = []) :
    RoundTrips b vs ↔ ∀ v ∈ vs, v.width ≠ .int32 ∧ v.num = 0 := by
  rw [roundTrips_iff_readBytes h he]
  constructor
  case mp =>
    intro hr
    have hw := narrow_of_readBytes (congrArg Prod.fst hr)
    have hz := (readBytes_encode_iff hw).mp hr
    exact fun v hv => ⟨hw v hv, hz v hv⟩
  case mpr =>
    intro hz
    exact (readBytes_encode_iff fun v hv => (hz v hv).left).mpr fun v hv => (hz v hv).right

end Value

def ReadsBack (b : Buffer) (w : Width) : Prop :=
  (w.read b).2 = w.peek b ∧ (w.read b).1.content = b.content.drop w.size

theorem readsBack_iff {w : Width} (h : b.Valid) (hr : w.size ≤ b.readableBytes) :
    ReadsBack b w ↔ w ≠ .int32 ∧ next w.size w.size b.content = next w.size 0 b.content := by
  have hl := h.length_content
  have hs := w.size_pos
  rw [ReadsBack, w.read_eq, w.peek_eq, readInt_eq h hr w.advance_le, peekInt_eq h, advance_content]
  constructor
  case mp =>
    intro ⟨hn, hd⟩
    have ha : w.advance = w.size := by
      have := w.advance_le
      have := congrArg length hd
      simp only [length_drop] at this
      omega
    exact ⟨w.advance_eq_iff.mp ha, ha ▸ hn⟩
  case mpr =>
    intro ⟨hw, hn⟩
    rw [w.advance_eq_iff.mpr hw]
    exact ⟨hn, rfl⟩

-- The reads advance before they peek, so that a value is read back only if the bytes behind it say
-- the same, and `readInt32` leaves two of its bytes behind.
theorem reads_undo_writes_iff {b : Buffer} (h : b.Valid) :
    (b.content = [] → ∀ vs,
      Value.RoundTrips b vs ↔ ∀ v ∈ vs, v.width ≠ .int32 ∧ v.num = 0) ∧
    (∀ w : Width, w.size ≤ b.readableBytes →
      (ReadsBack b w ↔ w ≠ .int32 ∧ next w.size w.size b.content = next w.size 0 b.content)) where
  left  he _ := Value.roundTrips_iff h he
  right _ hr := readsBack_iff h hr

theorem reads_undo_writes_of_zeros : Value.RoundTrips (new 1024) [⟨.int8, 0⟩, ⟨.int16, 0⟩] :=
  ((reads_undo_writes_iff (new_valid 1024)).left (new_content 1024) _).mpr (by decide)

-- The values of the unit test: each read returns the value behind the one it should return.
theorem reads_skip_first_value :
    let vs : List Value := [⟨.int8, 11⟩, ⟨.int16, 22⟩, ⟨.int32, 33⟩]
    (new 1024).Valid ∧ (new 1024).content = [] ∧ ¬Value.RoundTrips (new 1024) vs ∧
    (Value.readAll (Value.writeAll (new 1024) vs) (vs.map (·.width))).2 =
      [⟨.int8, 22⟩, ⟨.int16, 33⟩, ⟨.int32, 0⟩] := by
  refine ⟨new_valid _, new_content _, ?_, ?_⟩
  · rw [Value.RoundTrips]
    decide +kernel
  · decide +kernel

end Bounce.Buffer
