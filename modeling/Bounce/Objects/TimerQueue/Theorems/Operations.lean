import Bounce.Objects.TimerQueue.Theorems.Callbacks

namespace Bounce.TimerQueue

variable {γ : Type} {q : TimerQueue γ} {t : TimerPtr} {clock : TimePoint} {timer : Timer γ}

open Multimap

theorem insertTimer_entries {t : TimerPtr} :
    (q.insertTimer t).entries.Perm (((q.timer t).expiration, t) :: q.entries) := by
  have hp : ∀ m : Multimap TimePoint TimerPtr,
      (m.insert ((q.timer t).expiration, t)).entries.Perm
        (((q.timer t).expiration, t) :: m.entries) :=
    fun m => List.perm_orderedInsert _ _ _
  simp only [insertTimer]
  split
  case isTrue  => exact (hp _).append_right _
  case isFalse => exact ((hp _).append_left _).trans List.perm_middle

theorem insertTimer_timer {t : TimerPtr} : (q.insertTimer t).timer = q.timer := by
  simp only [insertTimer]
  split <;> rfl

theorem insertTimer_once : (q.insertTimer t).timerMapOnce.entries =
    if (q.timer t).repeats then q.timerMapOnce.entries
    else insertEntry q.timerMapOnce.entries ((q.timer t).expiration, t) := by
  by_cases hr : (q.timer t).repeats <;> simp [insertTimer, hr, Multimap.insert]

theorem insertTimer_repeat : (q.insertTimer t).timerMapRepeat.entries =
    if (q.timer t).repeats then insertEntry q.timerMapRepeat.entries ((q.timer t).expiration, t)
    else q.timerMapRepeat.entries := by
  by_cases hr : (q.timer t).repeats <;> simp [insertTimer, hr, Multimap.insert]

structure Inserts (q : TimerQueue γ) (t : TimerPtr) (q' : TimerQueue γ) : Prop where
  once      : q'.timerMapOnce = (q.insertTimer t).timerMapOnce
  repeat'   : q'.timerMapRepeat = (q.insertTimer t).timerMapRepeat
  timer     : q'.timer = q.timer
  allocated : q'.allocated = q.allocated
  ran       : q'.ran = q.ran
  deletions : q'.deletions = q.deletions

theorem addTimerInLoop_inserts : q.Inserts t (q.addTimerInLoop t clock) := by
  have hi : q.Inserts t (q.insertTimer t) := by
    by_cases hr : (q.timer t).repeats <;> constructor <;> simp [insertTimer, hr]
  simp only [addTimerInLoop]
  split
  case isTrue  => exact ⟨hi.once, hi.repeat', hi.timer, hi.allocated, hi.ran, hi.deletions⟩
  case isFalse => exact hi

theorem Inserts.entries {q' : TimerQueue γ} (h : q.Inserts t q') :
    q'.entries.Perm (((q.timer t).expiration, t) :: q.entries) := by
  rw [TimerQueue.entries, h.once, h.repeat']
  exact insertTimer_entries

theorem Inserts.wellFormed {q' : TimerQueue γ} (h : q.Inserts t q') (hq : q.WellFormed)
    (ht : t < q.allocated) (hn : t ∉ q.entries.map (·.2)) : q'.WellFormed where
  key e he := by
    rw [h.timer]
    cases List.mem_cons.mp (h.entries.mem_iff.mp he)
    case inl he => rw [he]
    case inr he => exact hq.key e he
  fresh e he := by
    rw [h.allocated]
    cases List.mem_cons.mp (h.entries.mem_iff.mp he)
    case inl he => exact he ▸ ht
    case inr he => exact hq.fresh e he
  nodup := by
    rw [(h.entries.map _).nodup_iff]
    exact hq.nodup.cons hn

theorem deleteTimerInLoop_entries {t : TimerPtr} :
    (q.deleteTimerInLoop t).entries.Sublist q.entries := by
  simp only [TimerQueue.deleteTimerInLoop]
  split
  case isTrue  => exact List.eraseP_sublist.append_left _
  case isFalse => exact List.Sublist.refl _

theorem deleteTimerInLoop_keeps : (q.deleteTimerInLoop t).timerMapOnce = q.timerMapOnce ∧
    (q.deleteTimerInLoop t).timer = q.timer ∧ (q.deleteTimerInLoop t).allocated = q.allocated ∧
    (q.deleteTimerInLoop t).ran = q.ran ∧ (q.deleteTimerInLoop t).deletions = q.deletions := by
  simp only [deleteTimerInLoop]
  split <;> exact ⟨rfl, rfl, rfl, rfl, rfl⟩

theorem WellFormed.nodup_repeat (h : q.WellFormed) :
    (q.timerMapRepeat.entries.map (·.2)).Nodup := by
  have hn := h.nodup
  rw [entries, List.map_append] at hn
  exact hn.of_append_right

-- The loop from the lower bound on finds the timer if it is in the map: the entries from there on
-- start with the ones of the same expiration.
theorem candidates_any (h : q.WellFormed) (ht : t ∈ q.timerMapRepeat.entries.map (·.2)) :
    ((q.timerMapRepeat.onward (q.timerMapRepeat.lowerBound (q.timer t).expiration)).takeWhile
      fun e => (q.timer e.2).expiration ≤ (q.timer t).expiration).any (·.2 = t) := by
  have ⟨e, he, het⟩ := List.mem_map.mp ht
  subst het
  have hk : ∀ e' ∈ q.timerMapRepeat.entries, (q.timer e'.2).expiration = e'.1 := by
    intro e' he'
    exact h.key e' (List.mem_append_right _ he')
  have hs : (q.timerMapRepeat.entries.dropWhile (·.1 < e.1)).Sublist q.timerMapRepeat.entries :=
    List.dropWhile_sublist _
  have hd : e ∈ q.timerMapRepeat.entries.dropWhile (·.1 < e.1) := by
    rw [← List.takeWhile_append_dropWhile (p := (·.1 < e.1)) (l := q.timerMapRepeat.entries),
      List.mem_append] at he
    cases he
    case inl he =>
      have hl := List.mem_takeWhile_imp (p := fun e' : Entry => decide (e'.1 < e.1)) he
      exact absurd (of_decide_eq_true hl) (lt_irrefl _)
    case inr he => exact he
  rw [hk e he, lowerBound, onward_iterator List.takeWhile_append_dropWhile.symm h.nodup_repeat,
    List.any_eq_true]
  refine ⟨e, mem_takeWhile_of_le (q.timerMapRepeat.sorted.sublist hs) hd ?_, decide_eq_true rfl⟩
  intro e' he' hle
  rw [hk e' (hs.subset he')]
  exact decide_eq_true hle

theorem deleteTimerInLoop_repeat (h : q.WellFormed) :
    (q.deleteTimerInLoop t).timerMapRepeat.entries = q.timerMapRepeat.entries.filter (·.2 ≠ t) := by
  by_cases ht : t ∈ q.timerMapRepeat.entries.map (·.2)
  case pos =>
    simp only [deleteTimerInLoop, candidates_any h ht, if_true]
    exact erase_entries h.nodup_repeat t
  case neg =>
    have hn : ∀ e ∈ q.timerMapRepeat.entries, e.2 ≠ t :=
      fun e he heq => ht (heq ▸ List.mem_map_of_mem he)
    have hc :
        ((q.timerMapRepeat.onward (q.timerMapRepeat.lowerBound (q.timer t).expiration)).takeWhile
        fun e => (q.timer e.2).expiration ≤ (q.timer t).expiration).any (·.2 = t) = false := by
      rw [List.any_eq_false]
      intro e he
      have hm := ((List.takeWhile_sublist _).trans (List.dropWhile_sublist _)).subset he
      simpa using hn e hm
    simp only [deleteTimerInLoop, hc, Bool.false_eq_true, if_false]
    exact (List.filter_eq_self.mpr fun e he => decide_eq_true (hn e he)).symm

end Bounce.TimerQueue
