import Mathlib.Data.List.Nodup

variable {α : Type*}

-- The members of a list are taken in turn: `next` is the place of the next one, and `taken` lists
-- all that have been taken. The members in front of `next` have had their turn in the present
-- round.
structure RoundRobin (xs : List α) [DecidableEq α] (next : Nat) (taken : List α) : Prop where
  le_length : next ≤ xs.length
  count     : ∃ rounds, ∀ i, ∀ h : i < xs.length,
    taken.count xs[i] = rounds + if i < next then 1 else 0

namespace RoundRobin

variable [DecidableEq α] {xs taken : List α} {next : Nat} {x y : α}

theorem nil : RoundRobin xs 0 [] where
  le_length := Nat.zero_le _
  count     := ⟨0, fun _ _ => by simp⟩

theorem wrap (h : RoundRobin xs next taken) (hn : xs.length ≤ next) : RoundRobin xs 0 taken where
  le_length := Nat.zero_le _
  count     := by
    have ⟨rounds, hc⟩ := h.count
    refine ⟨rounds + 1, fun i hi => ?_⟩
    rw [hc i hi, if_pos (Nat.lt_of_lt_of_le hi hn), if_neg (Nat.not_lt_zero i)]

theorem take (h : RoundRobin xs next taken) (hd : xs.Nodup) (hn : next < xs.length) :
    RoundRobin xs (next + 1) (taken ++ [xs[next]]) where
  le_length := hn
  count     := by
    have ⟨rounds, hc⟩ := h.count
    refine ⟨rounds, fun i hi => ?_⟩
    have heq : xs[next] = xs[i] ↔ next = i := hd.getElem_inj_iff
    rw [List.count_append, hc i hi, List.count_singleton]
    by_cases hin : next = i
    case pos => simp [hin]
    case neg =>
      have hlt : i < next + 1 ↔ i < next := by omega
      simp [heq, hin, hlt]

theorem count_le (h : RoundRobin xs next taken) (hx : x ∈ xs) (hy : y ∈ xs) :
    taken.count x ≤ taken.count y + 1 := by
  have ⟨i, hi, hxi⟩ := List.getElem_of_mem hx
  have ⟨j, hj, hyj⟩ := List.getElem_of_mem hy
  have ⟨rounds, hc⟩ := h.count
  have hci := hc i hi
  have hcj := hc j hj
  rw [hxi] at hci
  rw [hyj] at hcj
  rw [hci, hcj]
  split <;> split <;> omega

end RoundRobin
