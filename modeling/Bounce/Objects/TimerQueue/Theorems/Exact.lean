import Bounce.Objects.TimerQueue.Theorems.Armed
import Bounce.Objects.TimerQueue.Theorems.Kept

namespace Bounce

variable {γ : Type}

structure Timespec.Splits (v : Timespec) (n : Int) : Prop where
  nonneg : 0 ≤ v.nsec.toInt
  lt     : v.nsec.toInt < 1000000000
  toInt  : v.toInt = n

theorem Timer.iterate_timerUpdate (t : Timer γ) (n : Nat) : timerUpdate^[n] t = t.advance n := by
  induction n generalizing t
  case zero => exact t.advance_zero.symm
  case succ n hi =>
    rw [Function.iterate_succ_apply, hi]
    exact t.advance_timerUpdate n

namespace TimerQueue

variable {q : TimerQueue γ} {now clock expiration : TimePoint} {interval : NanoSeconds}

theorem toInt_add_iff (a b : Int64) :
    (a + b).toInt = a.toInt + b.toInt ↔ -2 ^ 63 ≤ a.toInt + b.toInt ∧
    a.toInt + b.toInt < 2 ^ 63 := by
  rw [Int64.toInt_add]
  exact bmod_eq_self_iff _

theorem advance_toInt (t : Timer γ) (n : Nat) :
    (t.advance n).expiration.toInt = (t.expiration.toInt + n * t.duration.toInt).bmod (2 ^ 64) := by
  simp [Timer.advance]

theorem toInt_add_nonneg_iff (hn : 0 ≤ now) (hd : 0 ≤ interval) :
    (now + interval).toInt = now.toInt + interval.toInt ↔ now.toInt + interval.toInt < 2 ^ 63 := by
  have hn : 0 ≤ now.toInt := Int64.le_iff_toInt_le.mp hn
  have hd : 0 ≤ interval.toInt := Int64.le_iff_toInt_le.mp hd
  rw [toInt_add_iff]
  exact and_iff_right (by omega)

theorem timerUpdate_exact_iff (t : Timer γ) (n : Nat) :
    (Timer.timerUpdate^[n] t).expiration.toInt = t.expiration.toInt + n * t.duration.toInt ↔
      -2 ^ 63 ≤ t.expiration.toInt + n * t.duration.toInt ∧
        t.expiration.toInt + n * t.duration.toInt < 2 ^ 63 := by
  rw [Timer.iterate_timerUpdate, advance_toInt]
  exact bmod_eq_self_iff _

theorem delay_splits (hd : (expiration - clock).toInt = expiration.toInt - clock.toInt) :
    (delay expiration clock).Splits (if expiration < clock then 10
      else expiration.toInt - clock.toInt) := by
  have hpos : ∀ d : Int64, ¬d < 0 → 0 ≤ (d % nanoSecondsPerSecond).toInt ∧
      (d % nanoSecondsPerSecond).toInt < 1000000000 := by
    intro d hd
    have hz : 0 ≤ d.toInt := Int.not_lt.mp (Int64.lt_iff_toInt_lt.not.mp hd)
    rw [Int64.toInt_mod]
    exact ⟨Int.tmod_nonneg _ hz, Int.tmod_lt_of_pos _ (by decide)⟩
  have hn : ¬(if expiration - clock < 0 then 10 else expiration - clock) < 0 := by
    split
    case isTrue    => decide
    case isFalse h => exact h
  exact ⟨(hpos _ hn).left, (hpos _ hn).right, delay_toInt hd⟩

theorem resetTimerfd_exact_iff (he : q.earliest ≠ .max) (clock : TimePoint) :
    ((((q.resetTimerfd clock).minExpiration - clock).toInt = q.earliest.toInt - clock.toInt ∧
      (q.resetTimerfd clock).timerFd.value.Splits
        (if q.earliest < clock then 10 else q.earliest.toInt - clock.toInt)) ↔
      -2 ^ 63 ≤ q.earliest.toInt - clock.toInt ∧ q.earliest.toInt - clock.toInt < 2 ^ 63) := by
  rw [← toInt_sub_iff]
  have hv : (q.resetTimerfd clock).timerFd.value = delay q.earliest clock := by
    simp [resetTimerfd, he, TimerFd.settime]
  rw [hv]
  exact ⟨fun h => h.left, fun h => ⟨h, delay_splits h⟩⟩

theorem exact_iff (q : TimerQueue γ) :
    (∀ now delay cb clock, 0 ≤ now → 0 ≤ delay →
      ((((q.exec (.runAfter now delay cb clock)).timer q.allocated).expiration.toInt =
        now.toInt + delay.toInt ↔ now.toInt + delay.toInt < 2 ^ 63) ∧
      (((q.exec (.runEvery now delay cb clock)).timer q.allocated).expiration.toInt =
        now.toInt + delay.toInt ↔ now.toInt + delay.toInt < 2 ^ 63))) ∧
    (∀ (t : Timer γ) (n : Nat),
      ((Timer.timerUpdate^[n] t).expiration.toInt = t.expiration.toInt + n * t.duration.toInt ↔
        -2 ^ 63 ≤ t.expiration.toInt + n * t.duration.toInt ∧
          t.expiration.toInt + n * t.duration.toInt < 2 ^ 63)) ∧
    (∀ clock, q.earliest ≠ .max →
      ((((q.resetTimerfd clock).minExpiration - clock).toInt = q.earliest.toInt - clock.toInt ∧
        (q.resetTimerfd clock).timerFd.value.Splits
          (if q.earliest < clock then 10 else q.earliest.toInt - clock.toInt)) ↔
        -2 ^ 63 ≤ q.earliest.toInt - clock.toInt ∧ q.earliest.toInt - clock.toInt < 2 ^ 63)) := by
  refine ⟨fun now delay cb clock hn hd => ?_, timerUpdate_exact_iff, fun clock he => ?_⟩
  · simp only [Action.runAfter, Action.runEvery, exec, addTimer_timer]
    exact ⟨toInt_add_nonneg_iff hn hd, toInt_add_nonneg_iff hn hd⟩
  · exact resetTimerfd_exact_iff he clock

theorem exact_of_seconds :
    (((new fun _ => ⟨0, 0, ()⟩).exec (.runAfter 1000000000 2000000000 () 1000000000)).timer
      (new fun _ => (⟨0, 0, ()⟩ : Timer Unit)).allocated).expiration.toInt =
        (1000000000 : TimePoint).toInt + (2000000000 : NanoSeconds).toInt ∧
    ((((new fun _ => ⟨0, 0, ()⟩).exec
      (.runEvery 0 1000000000 () 0)).resetTimerfd 500).timerFd.value.Splits 999999500) := by
  refine ⟨(((exact_iff _).left _ _ () _ (by decide) (by decide)).left).mpr (by decide), ?_⟩
  have h :=
    ((exact_iff ((new fun _ => ⟨0, 0, ()⟩).exec (.runEvery 0 1000000000 () 0))).right.right 500
    (by decide)).mpr (by decide)
  exact h.right

-- In the year 2023, a delay of the greatest number of nanoseconds ends long before now.
theorem not_exact_of_greatest_delay :
    ∃ now delay : Int64, 0 ≤ now ∧ 0 ≤ delay ∧
      (((new fun _ => ⟨0, 0, ()⟩).exec (.runAfter now delay () now)).timer
        (new fun _ => (⟨0, 0, ()⟩ : Timer Unit)).allocated).expiration < now ∧
      (((new fun _ => ⟨0, 0, ()⟩).exec (.runAfter now delay () now)).timer
        (new fun _ => (⟨0, 0, ()⟩ : Timer Unit)).allocated).expiration.toInt ≠
          now.toInt + delay.toInt := by
  refine ⟨1700000000000000000, .maxValue, ?_⟩
  decide

end TimerQueue
end Bounce
