import Bounce.Objects.Buffer.Calls

open List

namespace Bounce.Buffer

variable {b b' : Buffer} {call : Call} {calls : List Call}

def peak (b : Buffer) : List Call → Nat
  | []            => 0
  | call :: calls => max (call.exec b).readableBytes (peak (call.exec b) calls)

structure Grows (b b' : Buffer) : Prop where
  initSize : b'.initSize = b.initSize
  size     : b'.buffer.length ≤ max b.buffer.length (b.initSize / 2 + 2 * b'.readableBytes)

theorem Grows.of_size (hi : b'.initSize = b.initSize) (hs : b'.buffer.length = b.buffer.length) :
    Grows b b' where
  initSize := hi
  size     := hs ▸ Nat.le_max_left _ _

theorem makeSpace_initSize (b : Buffer) (len : Nat) : (b.makeSpace len).initSize = b.initSize := by
  simp only [makeSpace]
  split <;> split <;> rfl

-- Either the unread bytes have been moved to the front, or what is in front of them is at most half
-- of the initial size.
theorem makeSpace_size (h : b.Valid) (len : Nat) :
    (b.makeSpace len).buffer.length ≤ max b.buffer.length
      (b.initSize / 2 + 2 * (b.readableBytes + len)) := by
  have hr := h.read_le_write
  have hs := h.write_le_size
  have hc : b.compact.buffer.length = b.buffer.length := by
    rw [compact, h.compact_buffer, length_overwrite]
  have hw : b.compact.writeIndex = b.readableBytes := rfl
  have hv := (compact_extends h).valid
  simp only [makeSpace]
  split <;> split
  case isTrue.isTrue hl =>
    rw [hv.writeableBytes_eq, hc, hw] at hl
    simp only [resize, length_append, length_replicate, hc]
    omega
  case isFalse.isTrue hi hl =>
    rw [h.writeableBytes_eq] at hl
    rw [h.readableBytes_eq]
    simp only [resize, length_append, length_replicate]
    omega
  case isTrue.isFalse  => exact hc ▸ Nat.le_max_left _ _
  case isFalse.isFalse => exact Nat.le_max_left _ _

theorem length_write (b : Buffer) (src : List Byte) :
    (b.write src).buffer.length = b.buffer.length :=
  length_overwrite ..

theorem append_readableBytes (h : b.Valid) (src : List Byte) :
    (b.append src).readableBytes = b.readableBytes + src.length := by
  rw [← (append_valid h src).length_content, append_content h, length_append, h.length_content]

theorem append_grows (h : b.Valid) (src : List Byte) : Grows b (b.append src) where
  initSize := by
    rw [append]
    split
    case isTrue  => exact makeSpace_initSize b _
    case isFalse => rfl
  size := by
    rw [append_readableBytes h, append]
    split
    case isTrue =>
      exact Nat.le_trans (Nat.le_of_eq (length_write _ src)) (makeSpace_size h src.length)
    case isFalse => exact Nat.le_trans (Nat.le_of_eq (length_write b src)) (Nat.le_max_left _ _)

theorem readFd_grows (h : b.Valid) : (answer : Readv) → Grows b (b.readFd answer)
  | .error _ => .of_size rfl rfl
  | .received bytes => by
    by_cases hl : bytes.length < b.writeableBytes
    case pos =>
      rw [readFd_short h hl]
      exact .of_size rfl (length_write b bytes)
    case neg =>
      have ht : (bytes.take b.writeableBytes).length = b.writeableBytes := by
        rw [length_take, Nat.min_eq_left (Nat.not_lt.mp hl)]
      have hg := append_grows (write_valid h (Nat.le_of_eq ht)) (bytes.drop b.writeableBytes)
      rw [readFd_long h (Nat.not_lt.mp hl)]
      exact ⟨hg.initSize, length_write b _ ▸ hg.size⟩

theorem readAsString_grows (b : Buffer) (size : Nat) : Grows b (b.readAsString size).1 := by
  rw [readAsString_eq]
  split <;> exact .of_size rfl rfl

theorem retrieve_grows (b : Buffer) (len : Nat) : Grows b (b.retrieve len) := by
  rw [retrieve]
  split <;> exact .of_size rfl rfl

theorem readInt_grows (b : Buffer) (size advance : Nat) : Grows b (b.readInt size advance).1 := by
  rw [readInt]
  split <;> exact .of_size rfl rfl

theorem Call.grows (h : b.Valid) : (call : Call) → Grows b (call.exec b)
  | op (.append _)       => append_grows h _
  | op (.writeInt8 _)    => append_grows h _
  | op (.writeInt16 _)   => append_grows h _
  | op (.writeInt32 _)   => append_grows h _
  | op (.readFd _)       => readFd_grows h _
  | op (.readAsString _) => readAsString_grows b _
  | op .readAllAsString  => readAsString_grows b _
  | op (.retrieve _)     => retrieve_grows b _
  | readInt8             => readInt_grows b kInt8Size kInt8Size
  | readInt16            => readInt_grows b kInt16Size kInt16Size
  | readInt32            => readInt_grows b kInt32Size kInt16Size

theorem run_grows (e : Steps Call.Step b calls b') (h : b.Valid) :
    b'.initSize = b.initSize ∧
      b'.buffer.length ≤ max b.buffer.length (b.initSize / 2 + 2 * peak b calls) := by
  induction e
  case refl => exact ⟨rfl, Nat.le_max_left _ _⟩
  case step call _ e _ hi =>
    obtain ⟨_, rfl⟩ := e
    have hg := call.grows h
    have ⟨h₁, h₂⟩ := hi (call.exec_valid h)
    refine ⟨h₁.trans hg.initSize, ?_⟩
    have hs := hg.size
    rw [hg.initSize] at h₂
    simp only [peak]
    omega

theorem size_le_peak (initSize : Nat) (calls : List Call) (b : Buffer)
    (e : Steps Call.Step (new initSize) calls b) :
    b.buffer.length ≤ max initSize (initSize / 2 + 2 * peak (new initSize) calls) := by
  have ⟨_, h⟩ := run_grows e (new_valid initSize)
  simpa [new] using h

theorem size_le_peak_of_two_rounds :
    ∃ b, Steps Call.Step (new 2) [.op (.append [1, 2]), .op (.readAsString 1), .op (.append [3, 4]),
        .op (.retrieve 2), .op (.append [5])] b ∧
      b.buffer.length ≤ max 2 (2 / 2 + 2 * peak (new 2) [.op (.append [1, 2]),
        .op (.readAsString 1),
        .op (.append [3, 4]), .op (.retrieve 2), .op (.append [5])]) := by
  have ⟨b, e⟩ : ∃ b, Steps Call.Step (new 2) [.op (.append [1, 2]), .op (.readAsString 1),
      .op (.append [3, 4]), .op (.retrieve 2), .op (.append [5])] b :=
    ⟨_, .step ⟨trivial, rfl⟩ (.step ⟨trivial, rfl⟩ (.step ⟨trivial, rfl⟩ (.step ⟨trivial, rfl⟩
      (.single ⟨trivial, rfl⟩))))⟩
  exact ⟨b, e, size_le_peak 2 _ b e⟩

end Bounce.Buffer
