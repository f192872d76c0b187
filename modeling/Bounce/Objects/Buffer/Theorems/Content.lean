import Bounce.Objects.Buffer.Basic

open List

namespace Bounce.Buffer

def content (b : Buffer) : List Byte :=
  (b.buffer.take b.writeIndex).drop b.readIndex

structure Valid (b : Buffer) : Prop where
  read_le_write : b.readIndex ≤ b.writeIndex
  write_le_size : b.writeIndex ≤ b.buffer.length

theorem new_valid (initSize : Nat) : (new initSize).Valid where
  read_le_write := Nat.le_refl _
  write_le_size := Nat.zero_le _

@[simp]
theorem new_content (initSize : Nat) : (new initSize).content = [] := by
  simp [content, new]

variable {b : Buffer}

namespace Valid

theorem readableBytes_eq (h : b.Valid) : b.readableBytes = b.writeIndex - b.readIndex :=
  sizeSub_of_le h.read_le_write

theorem writeableBytes_eq (h : b.Valid) : b.writeableBytes = b.buffer.length - b.writeIndex :=
  sizeSub_of_le h.write_le_size

theorem length_content (h : b.Valid) : b.content.length = b.readableBytes := by
  have := h.write_le_size
  simp [content, h.readableBytes_eq]
  omega

theorem content_eq_peek (h : b.Valid) : b.content = b.peek.take b.readableBytes := by
  rw [content, peek, h.readableBytes_eq, drop_take]

theorem compact_buffer (h : b.Valid) :
    b.buffer.copyWithin b.readIndex 0 (b.writeIndex - b.readIndex) =
      b.buffer.overwrite 0 b.content := by
  have h₁ := h.read_le_write
  have h₂ := h.write_le_size
  rw [copyWithin_eq (Nat.zero_le _) (by omega), content, drop_take]

theorem compact_content (h : b.Valid) :
    (b.buffer.overwrite 0 b.content).take (b.writeIndex - b.readIndex) = b.content := by
  have h₁ := h.length_content
  have h₂ := h.write_le_size
  rw [h.readableBytes_eq] at h₁
  have hl : 0 + b.content.length ≤ b.buffer.length := by omega
  simpa [h₁] using take_overwrite hl

end Valid

structure Extends (b b' : Buffer) : Prop where
  valid   : b'.Valid
  content : b'.content = b.content

theorem Extends.refl (h : b.Valid) : Extends b b where
  valid   := h
  content := rfl

theorem Extends.trans {b₁ b₂ b₃ : Buffer} (h₁ : Extends b₁ b₂) (h₂ : Extends b₂ b₃) :
    Extends b₁ b₃ where
  valid   := h₂.valid
  content := h₂.content.trans h₁.content

theorem compact_extends (h : b.Valid) : Extends b b.compact where
  valid := {
    read_le_write := Nat.zero_le _
    write_le_size := by
      have := h.write_le_size
      simp [compact, h.compact_buffer, h.read_le_write]
      omega
  }
  content := by
    rw [content, compact, h.compact_buffer, sizeSub_of_le h.read_le_write]
    exact h.compact_content

theorem resize_extends (h : b.Valid) (len : Nat) : Extends b (b.resize len) where
  valid := {
    read_le_write := h.read_le_write
    write_le_size := by
      have := h.write_le_size
      simp [resize]
      omega
  }
  content := by simp [content, resize, take_append_of_le_length h.write_le_size]

theorem makeSpace_extends (h : b.Valid) (len : Nat) : Extends b (b.makeSpace len) := by
  simp only [makeSpace]
  split <;> split
  case isTrue.isTrue =>
    exact (compact_extends h).trans (resize_extends (compact_extends h).valid _)
  case isTrue.isFalse  => exact compact_extends h
  case isFalse.isTrue  => exact resize_extends h _
  case isFalse.isFalse => exact .refl h

theorem resize_room (h : b.Valid) (len : Nat) : len ≤ (b.resize len).writeableBytes := by
  have := h.write_le_size
  rw [(resize_extends h len).valid.writeableBytes_eq]
  simp [resize]
  omega

theorem makeSpace_room (h : b.Valid) (len : Nat) : len ≤ (b.makeSpace len).writeableBytes := by
  simp only [makeSpace]
  split <;> split
  case isTrue.isTrue  => exact resize_room (compact_extends h).valid _
  case isFalse.isTrue => exact resize_room h _
  all_goals omega

theorem write_valid {src : List Byte} (h : b.Valid) (hr : src.length ≤ b.writeableBytes) :
    (b.write src).Valid where
  read_le_write := by
    have := h.read_le_write
    simp [write]
    omega
  write_le_size := by
    have := h.write_le_size
    rw [h.writeableBytes_eq] at hr
    simp [write]
    omega

theorem write_content {src : List Byte} (h : b.Valid) (hr : src.length ≤ b.writeableBytes) :
    (b.write src).content = b.content ++ src := by
  have h₁ := h.read_le_write
  have h₂ := h.write_le_size
  rw [h.writeableBytes_eq] at hr
  have hl : b.readIndex ≤ (b.buffer.take b.writeIndex).length := by
    simp; omega
  simp only [content, write]
  rw [take_overwrite (by omega), drop_append_of_le_length hl]

theorem append_target (h : b.Valid) (len : Nat) :
    let b' := if b.writeableBytes < len then b.makeSpace len else b
    Extends b b' ∧ len ≤ b'.writeableBytes := by
  simp only
  split
  · exact ⟨makeSpace_extends h len, makeSpace_room h len⟩
  · exact ⟨.refl h, by omega⟩

theorem append_valid (h : b.Valid) (src : List Byte) : (b.append src).Valid :=
  have ⟨he, hr⟩ := append_target h src.length
  write_valid he.valid hr

theorem append_content (h : b.Valid) (src : List Byte) :
    (b.append src).content = b.content ++ src := by
  have ⟨he, hr⟩ := append_target h src.length
  rw [append, write_content he.valid hr, he.content]

theorem reset_valid (b : Buffer) : b.reset.Valid where
  read_le_write := Nat.le_refl _
  write_le_size := Nat.zero_le _

theorem reset_content (b : Buffer) : b.reset.content = [] := by
  simp [content, reset]

theorem advance_valid {len : Nat} (h : b.Valid) (hl : len ≤ b.readableBytes) :
    (b.advance len).Valid where
  read_le_write := by
    have := h.read_le_write
    rw [h.readableBytes_eq] at hl
    simp [advance]
    omega
  write_le_size := h.write_le_size

theorem advance_content (b : Buffer) (len : Nat) :
    (b.advance len).content = b.content.drop len := by
  simp [content, advance]

theorem retrieve_valid (h : b.Valid) (len : Nat) : (b.retrieve len).Valid := by
  rw [retrieve]
  split
  · exact advance_valid h (by omega)
  · exact reset_valid b

theorem retrieve_content (h : b.Valid) (len : Nat) :
    (b.retrieve len).content = b.content.drop len := by
  rw [retrieve]
  split
  case isTrue  => exact advance_content b len
  case isFalse => rw [reset_content, drop_of_length_le (by rw [h.length_content]; omega)]

theorem readAsString_eq (b : Buffer) (size : Nat) :
    b.readAsString size =
      (if b.readableBytes ≤ size then b.reset else b.advance size,
        b.peek.take (min size b.readableBytes)) := by
  by_cases hs : b.readableBytes ≤ size
  case pos =>
    have hr : (if size > b.readableBytes then b.readableBytes else size) = b.readableBytes := by
      split <;> omega
    simp only [readAsString, hr, if_pos, hs, Nat.min_eq_right]
  case neg =>
    have hr : (if size > b.readableBytes then b.readableBytes else size) = size := by
      split <;> omega
    simp only [readAsString, hr, if_neg hs, if_neg (show size ≠ b.readableBytes by omega),
      Nat.min_eq_left (show size ≤ b.readableBytes by omega)]

theorem readAsString_valid (h : b.Valid) (size : Nat) : (b.readAsString size).1.Valid := by
  rw [readAsString_eq]
  split
  · exact reset_valid b
  · exact advance_valid h (by omega)

theorem readAsString_content (h : b.Valid) (size : Nat) :
    (b.readAsString size).1.content = b.content.drop size := by
  rw [readAsString_eq]
  split
  case isTrue  => rw [reset_content, drop_of_length_le (by rw [h.length_content]; omega)]
  case isFalse => exact advance_content b size

theorem readAsString_str (h : b.Valid) (size : Nat) :
    (b.readAsString size).2 = b.content.take size := by
  rw [readAsString_eq, h.content_eq_peek, take_take]

theorem readAllAsString_str (h : b.Valid) : b.readAllAsString.2 = b.content := by
  rw [readAllAsString, readAsString_str h, ← h.length_content, take_length]

theorem readAllAsString_content (h : b.Valid) : b.readAllAsString.1.content = [] := by
  rw [readAllAsString, readAsString_content h, ← h.length_content, drop_length]

theorem readFd_error (b : Buffer) (errno : Int) : b.readFd (.error errno) = b :=
  rfl

-- The two segments of the `::readv` call: a short answer is a copy into the first one, and a longer
-- one fills it and appends the rest.
theorem readFd_short {bytes : List Byte} (h : b.Valid) (hr : bytes.length < b.writeableBytes) :
    b.readFd (.received bytes) = b.write bytes := by
  rw [h.writeableBytes_eq] at hr
  simp only [readFd, writeableBytes, length_overwrite, sizeSub_of_le h.write_le_size]
  rw [if_pos hr, take_of_length_le (by omega), write]

theorem readFd_long {bytes : List Byte} (h : b.Valid) (hr : b.writeableBytes ≤ bytes.length) :
    b.readFd (.received bytes) =
      (b.write (bytes.take b.writeableBytes)).append (bytes.drop b.writeableBytes) := by
  have h₁ := h.write_le_size
  have hw := h.writeableBytes_eq
  rw [hw] at hr
  have hl : b.writeIndex + (bytes.take (b.buffer.length - b.writeIndex)).length =
      b.buffer.length := by
    simp; omega
  have ht : (bytes.drop (b.buffer.length - b.writeIndex)).take
      (bytes.length - (b.buffer.length - b.writeIndex)) =
        bytes.drop (b.buffer.length - b.writeIndex) := by
    rw [← length_drop, take_length]
  simp only [readFd, writeableBytes, length_overwrite, sizeSub_of_le h.write_le_size]
  rw [if_neg (by omega), sizeSub_of_le hr, ht, write, hl]

theorem readFd_received {bytes : List Byte} (h : b.Valid) :
    (b.readFd (.received bytes)).Valid ∧
    (b.readFd (.received bytes)).content = b.content ++ bytes := by
  by_cases hr : bytes.length < b.writeableBytes
  case pos =>
    rw [readFd_short h hr]
    exact ⟨write_valid h (by omega), write_content h (by omega)⟩
  case neg =>
    have ht : (bytes.take b.writeableBytes).length ≤ b.writeableBytes := by
      rw [length_take]
      omega
    have hv := write_valid h ht
    rw [readFd_long h (by omega)]
    refine ⟨append_valid hv _, ?_⟩
    rw [append_content hv, write_content h ht, append_assoc, take_append_drop]

theorem readFd_valid (h : b.Valid) : (r : Readv) → (b.readFd r).Valid
  | .error _    => h
  | .received _ => (readFd_received h).left

theorem writeInt_valid (h : b.Valid) {size : Nat} (num : BitVec (8 * size)) :
    (b.writeInt num).Valid :=
  append_valid h _

theorem writeInt_content (h : b.Valid) {size : Nat} (num : BitVec (8 * size)) :
    (b.writeInt num).content = b.content ++ bytesOf size num.toNat :=
  append_content h _

end Bounce.Buffer
