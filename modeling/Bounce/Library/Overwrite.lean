import Mathlib.Data.List.Basic

namespace List

variable {α : Type*} {l xs : List α} {i n first dest : Nat}

def overwrite (l : List α) (i : Nat) : List α → List α
  | []      => l
  | x :: xs => (l.set i x).overwrite (i + 1) xs

-- Copies `n` elements of `l` from position `first` to position `dest`, one at a time and from the
-- left, so that a copy may read what it has written before.
def copyWithin (l : List α) (first dest : Nat) : Nat → List α
  | 0     => l
  | n + 1 => ((l[first]?.elim l (l.set dest ·))).copyWithin (first + 1) (dest + 1) n

@[simp]
theorem overwrite_nil : l.overwrite i [] = l :=
  rfl

@[simp]
theorem length_overwrite : (l.overwrite i xs).length = l.length := by
  induction xs generalizing l i
  case nil => rfl
  case cons hi => simp [overwrite, hi]

theorem overwrite_eq (h : i + xs.length ≤ l.length) :
    l.overwrite i xs = l.take i ++ xs ++ l.drop (i + xs.length) := by
  induction xs generalizing l i
  case nil => simp
  case cons x xs hi =>
    simp only [length_cons] at h
    have hl : i + 1 + xs.length ≤ (l.set i x).length := by
      rw [length_set]; omega
    have ht : (l.set i x).take (i + 1) = l.take i ++ [x] := by
      rw [take_add_one, take_set_of_le (Nat.le_refl _), getElem?_set_self (by omega)]
      rfl
    have hd : (l.set i x).drop (i + 1 + xs.length) = l.drop (i + (xs.length + 1)) := by
      rw [drop_set_of_lt (by omega)]
      congr 1
      omega
    simp [overwrite, hi hl, ht, hd]

theorem take_overwrite (h : i + xs.length ≤ l.length) :
    (l.overwrite i xs).take (i + xs.length) = l.take i ++ xs := by
  have ht : (l.take i ++ xs).length = i + xs.length := by
    simp; omega
  rw [overwrite_eq h, ← ht, take_left]

theorem copyWithin_eq (hd : dest ≤ first) (h : first + n ≤ l.length) :
    l.copyWithin first dest n = l.overwrite dest ((l.drop first).take n) := by
  induction n generalizing l first dest
  case zero => simp [copyWithin]
  case succ n hi =>
    have hf : first < l.length := by omega
    have hl : first + 1 + n ≤ (l.set dest l[first]).length := by
      rw [length_set]; omega
    rw [copyWithin, getElem?_eq_getElem hf, drop_eq_getElem_cons hf, take_succ_cons, overwrite,
      Option.elim_some, hi (by omega) hl, drop_set_of_lt (by omega)]

end List
