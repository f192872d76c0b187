import Bounce.Library.Steps
import Bounce.Objects.TimerQueue.Theorems.Operations
import Bounce.Objects.TimerQueue.Theorems.Pass

namespace Bounce

def Timespec.toInt (v : Timespec) : Int :=
  v.sec.toInt * 1000000000 + v.nsec.toInt

namespace TimerQueue

variable {γ : Type} {q q' q₁ : TimerQueue γ} {clock expiration : TimePoint} {e : Entry}

open Multimap

def Settable (expiration clock : TimePoint) : Prop :=
  expiration ≠ clock ∧ -2 ^ 63 ≤ expiration.toInt - clock.toInt ∧
    expiration.toInt - clock.toInt < 2 ^ 63

theorem toInt_split (d : Int64) :
    (⟨d / nanoSecondsPerSecond, d % nanoSecondsPerSecond⟩ : Timespec).toInt = d.toInt := by
  have hn : nanoSecondsPerSecond ≠ -1 := by decide
  have ht : nanoSecondsPerSecond.toInt = 1000000000 := by decide
  rw [Timespec.toInt, Int64.toInt_div_of_ne_right _ _ hn, Int64.toInt_mod, ht]
  exact Int.tdiv_mul_add_tmod _ _

theorem bmod_eq_self_iff (n : Int) : n.bmod (2 ^ 64) = n ↔ -2 ^ 63 ≤ n ∧ n < 2 ^ 63 := by
  constructor
  case mp =>
    intro h
    have hl := Int.le_bmod (x := n) (m := 2 ^ 64) (by decide)
    have hu := Int.bmod_lt (x := n) (m := 2 ^ 64) (by decide)
    rw [h] at hl hu
    omega
  case mpr =>
    intro ⟨hl, hu⟩
    exact Int.bmod_eq_of_le (by omega) (by omega)

theorem toInt_sub_iff (a b : Int64) :
    (a - b).toInt = a.toInt - b.toInt ↔ -2 ^ 63 ≤ a.toInt - b.toInt ∧
    a.toInt - b.toInt < 2 ^ 63 := by
  rw [Int64.toInt_sub]
  exact bmod_eq_self_iff _

theorem delay_toInt (hd : (expiration - clock).toInt = expiration.toInt - clock.toInt) :
    (delay expiration clock).toInt =
      if expiration < clock then 10 else expiration.toInt - clock.toInt := by
  have hl : expiration - clock < 0 ↔ expiration < clock := by
    rw [Int64.lt_iff_toInt_lt, Int64.lt_iff_toInt_lt, hd]
    show _ < (0 : Int) ↔ _
    omega
  simp only [delay, hl]
  split
  case isTrue  => rfl
  case isFalse => rw [toInt_split, hd]

structure Armed (q : TimerQueue γ) : Prop where
  status : q.timerFd.status ≠ .disarmed
  value  :
    (0 < q.timerFd.value.toInt ∧
      q.timerFd.clock.toInt + q.timerFd.value.toInt = q.minExpiration.toInt) ∨
    (q.minExpiration < q.timerFd.clock ∧ 0 < q.timerFd.value.toInt ∧ q.timerFd.value.toInt ≤ 10)

theorem resetTimerfd_armed (he : q.earliest ≠ .max) (hs : Settable q.earliest clock) :
    (q.resetTimerfd clock).Armed := by
  have hv := delay_toInt ((toInt_sub_iff _ _).mpr hs.right)
  have hpos : 0 < (delay q.earliest clock).toInt := by
    rw [hv]
    split
    case isTrue  => decide
    case isFalse hl =>
      have := Int64.lt_iff_toInt_lt.not.mp hl
      have := Int64.toInt_inj.not.mpr hs.left
      omega
  have hz : delay q.earliest clock ≠ ⟨0, 0⟩ := by
    intro hz
    rw [hz] at hpos
    exact absurd hpos (by decide)
  constructor
  · simp [resetTimerfd, he, TimerFd.settime, hz]
  · simp only [resetTimerfd, ne_eq, he, not_false_eq_true, if_true, TimerFd.settime]
    by_cases hl : q.earliest < clock
    case pos => exact .inr ⟨hl, hpos, by rw [hv, if_pos hl]⟩
    case neg => exact .inl ⟨hpos, by rw [hv, if_neg hl]; omega⟩

theorem resetTimerfd_disarmed (he : q.earliest ≠ .max) (hc : q.earliest = clock) :
    (q.resetTimerfd clock).timerFd.status = .disarmed := by
  have hz : delay q.earliest clock = ⟨0, 0⟩ := by
    rw [hc, delay, Int64.sub_self]
    decide
  simp [resetTimerfd, he, TimerFd.settime, hz]

theorem expiration_first_le {m : Multimap TimePoint TimerPtr}
    (hk : ∀ e ∈ m.entries, (q.timer e.2).expiration = e.1) (he : e ∈ m.entries) :
    q.expiration m.first ≤ e.1 := by
  have hs := m.sorted
  rw [first]
  cases hm : m.entries
  case nil => simp [hm] at he
  case cons b l =>
    rw [hm] at hk he hs
    have hb : q.expiration (iterator (b :: l)) = b.1 := hk b List.mem_cons_self
    rw [hb]
    cases he
    case head    => exact le_rfl
    case tail he => exact (List.pairwise_cons.mp hs).left e he

theorem earliest_le (h : q.WellFormed) (he : e ∈ q.entries) : q.earliest ≤ e.1 := by
  have hmin : q.earliest ≤ q.expiration q.timerMapOnce.first ∧
      q.earliest ≤ q.expiration q.timerMapRepeat.first := by
    simp only [earliest]
    split
    case isTrue hl  => exact ⟨le_rfl, hl.le⟩
    case isFalse hl => exact ⟨not_lt.mp hl, le_rfl⟩
  cases List.mem_append.mp he
  case inl he =>
    exact hmin.left.trans (expiration_first_le (fun e he => h.key e (List.mem_append_left _ he)) he)
  case inr he =>
    exact hmin.right.trans (expiration_first_le
      (fun e he => h.key e (List.mem_append_right _ he)) he)

inductive Op (γ : Type)
  | addTimerInLoop (timer : Timer γ) (clock : TimePoint)
  | deleteTimerInLoop (t : TimerPtr)
  | handleRead (body : γ → List (Action γ)) (now clock : TimePoint) (fuel : Nat)
  | expire

def step (q : TimerQueue γ) : Op γ → Option (TimerQueue γ)
  | .addTimerInLoop timer clock        => q.addTimer timer clock
  | .deleteTimerInLoop t               => q.deleteTimerInLoop t
  | .handleRead body now clock fuel    => q.handleRead body now clock fuel
  | .expire                            => some { q with timerFd := q.timerFd.expire }

abbrev Step : TimerQueue γ → Op γ → TimerQueue γ → Prop :=
  Steps.Of step

def Resets (q : TimerQueue γ) (q₁ : TimerQueue γ) (clock : TimePoint) : Op γ → Prop
  | .addTimerInLoop timer c =>
    timer.expiration < q.minExpiration ∧ q₁ = (q.allocate timer).insertTimer q.allocated ∧ clock = c
  | .handleRead body now c fuel => q.pass body now fuel = some q₁ ∧ clock = c
  | _ => False

def KeepsArmed (q : TimerQueue γ) (op : Op γ) : Prop :=
  ∀ q₁ clock, q.Resets q₁ clock op → q₁.earliest ≠ .max → Settable q₁.earliest clock

-- What should hold between operations, while a timer with a real expiration is in a map.
def Guarded (q : TimerQueue γ) : Prop :=
  ∀ e ∈ q.entries, (q.timer e.2).expiration ≠ .max →
    q.Armed ∧ ∀ e' ∈ q.entries, q.minExpiration ≤ (q.timer e'.2).expiration

structure Invariant (q : TimerQueue γ) : Prop where
  wellFormed : q.WellFormed
  min        : ∀ e ∈ q.entries, q.minExpiration ≤ e.1
  armed      : q.minExpiration ≠ .max → q.Armed

theorem max_le_iff {t : TimePoint} : TimePoint.max ≤ t ↔ t = .max := by
  have hm : t ≤ .max := Int64.le_iff_toInt_le.mpr t.toInt_le
  exact ⟨fun h => le_antisymm hm h, fun h => h.ge⟩

theorem insertTimer_fd {t : TimerPtr} :
    (q.insertTimer t).timerFd = q.timerFd ∧ (q.insertTimer t).minExpiration = q.minExpiration := by
  simp only [insertTimer]
  split <;> exact ⟨rfl, rfl⟩

namespace Invariant

theorem guarded (h : q.Invariant) : q.Guarded := by
  intro e he hm
  rw [h.wellFormed.key e he] at hm
  refine ⟨h.armed ?_, ?_⟩
  · intro hmin
    exact hm (max_le_iff.mp (hmin ▸ h.min e he))
  · intro e' he'
    rw [h.wellFormed.key e' he']
    exact h.min e' he'

theorem new {timer : TimerPtr → Timer γ} : (new timer).Invariant where
  wellFormed := new_wellFormed
  min        := by simp [entries, TimerQueue.new, empty]
  armed      := fun h => absurd rfl h

theorem reset (h : q.WellFormed) (hs : q.earliest ≠ .max → Settable q.earliest clock) :
    (q.resetTimerfd clock).Invariant where
  wellFormed := resetTimerfd_wellFormed h
  min _ he   := earliest_le h he
  armed he   := resetTimerfd_armed he (hs he)

theorem congr (h : q.Invariant) (hw : q'.WellFormed) (hm : ∀ e ∈ q'.entries, q.minExpiration ≤ e.1)
    (hf : q'.timerFd = q.timerFd) (hx : q'.minExpiration = q.minExpiration) : q'.Invariant where
  wellFormed := hw
  min        := hx ▸ hm
  armed hn   := by
    have ha := h.armed (hx ▸ hn)
    exact ⟨hf ▸ ha.status, by rw [hf, hx]; exact ha.value⟩

theorem addTimerInLoop {timer : Timer γ} (h : q.Invariant)
    (hk : q.KeepsArmed (.addTimerInLoop timer clock)) : (q.addTimer timer clock).Invariant := by
  have ha := insertTimer_adds q timer clock
  have hw := ha.wellFormed h.wellFormed
  have ⟨hf, hx⟩ := insertTimer_fd (q := q.allocate timer) (t := q.allocated)
  have ht : (((q.allocate timer).insertTimer q.allocated).timer q.allocated).expiration =
      timer.expiration := by
    simp [insertTimer_timer, allocate]
  rw [addTimer, TimerQueue.addTimerInLoop, ht, hx]
  split
  case isTrue hl => exact reset hw (hk _ _ ⟨hl, rfl, rfl⟩)
  case isFalse hl =>
    refine h.congr hw ?_ hf hx
    intro e he
    cases List.mem_cons.mp (insertTimer_entries.mem_iff.mp he)
    case inl he =>
      subst he
      simpa [allocate] using hl
    case inr he => exact h.min e he

theorem deleteTimerInLoop {t : TimerPtr} (h : q.Invariant) : (q.deleteTimerInLoop t).Invariant := by
  have hs := deleteTimerInLoop_entries (q := q) (t := t)
  have heq : (q.deleteTimerInLoop t).timer = q.timer ∧
      (q.deleteTimerInLoop t).allocated = q.allocated ∧
      (q.deleteTimerInLoop t).timerFd = q.timerFd ∧
      (q.deleteTimerInLoop t).minExpiration = q.minExpiration := by
    simp only [TimerQueue.deleteTimerInLoop]
    split <;> exact ⟨rfl, rfl, rfl, rfl⟩
  obtain ⟨ht, hal, hf, hx⟩ := heq
  exact h.congr (h.wellFormed.sublist hs ht hal) (fun e he => h.min e (hs.subset he)) hf hx

theorem expire (h : q.Invariant) : Invariant { q with timerFd := q.timerFd.expire } where
  wellFormed := ⟨h.wellFormed.key, h.wellFormed.fresh, h.wellFormed.nodup⟩
  min        := h.min
  armed hn   := by
    have ha := h.armed hn
    simp only [TimerFd.expire]
    split
    case isTrue  => exact ⟨by simp, ha.value⟩
    case isFalse => exact ha

theorem step {op : Op γ} (h : q.Invariant) (hk : q.KeepsArmed op) (e : Step q op q') :
    q'.Invariant := by
  cases op
  case addTimerInLoop timer clock =>
    cases e
    exact h.addTimerInLoop hk
  case deleteTimerInLoop t =>
    cases e
    exact h.deleteTimerInLoop
  case handleRead body now clock fuel =>
    have ⟨q₁, hp, he⟩ := Option.map_eq_some_iff.mp e
    exact he ▸ reset (pass_wellFormed h.wellFormed hp) (hk q₁ clock ⟨hp, rfl⟩)
  case expire =>
    cases e
    exact h.expire

theorem run {ops : List (Op γ)} (h : q.Invariant)
    (e : Steps (Steps.When KeepsArmed Step) q ops q') :
    q'.Invariant :=
  e.invariant (fun hi hs => hi.step hs.left hs.right) h

end Invariant

theorem step_resets {op : Op γ} (e : Step q op q') (hr : q.Resets q₁ clock op) :
    q' = q₁.resetTimerfd clock := by
  cases op
  case addTimerInLoop timer c =>
    obtain ⟨hl, rfl, rfl⟩ := hr
    have ⟨_, hx⟩ := insertTimer_fd (q := q.allocate timer) (t := q.allocated)
    have ht : (((q.allocate timer).insertTimer q.allocated).timer q.allocated).expiration =
        timer.expiration := by
      simp [insertTimer_timer, allocate]
    cases e
    rw [addTimer, addTimerInLoop, ht, hx]
    exact if_pos hl
  case handleRead body now c fuel =>
    obtain ⟨hp, rfl⟩ := hr
    obtain ⟨q₂, hp₂, he⟩ := Option.map_eq_some_iff.mp e
    rw [pass] at hp
    rw [hp, Option.some.injEq] at hp₂
    exact hp₂ ▸ he.symm
  case deleteTimerInLoop | expire => contradiction

theorem exists_earliest (he : q.earliest ≠ .max) :
    ∃ e ∈ q.entries, (q.timer e.2).expiration = q.earliest := by
  have hf : ∀ m : Multimap TimePoint TimerPtr, q.expiration m.first ≠ .max →
      ∃ e ∈ m.entries, (q.timer e.2).expiration = q.expiration m.first := by
    intro m hm
    rw [first] at hm ⊢
    cases hl : m.entries
    case nil      => exact absurd rfl (hl ▸ hm)
    case cons e l => exact ⟨e, List.mem_cons_self, rfl⟩
  revert he
  simp only [earliest]
  split
  case isTrue =>
    intro he
    obtain ⟨e, hm, h⟩ := hf _ he
    exact ⟨e, List.mem_append_left _ hm, h⟩
  case isFalse =>
    intro he
    obtain ⟨e, hm, h⟩ := hf _ he
    exact ⟨e, List.mem_append_right _ hm, h⟩

theorem not_guarded_of_equal {op : Op γ} (e : Step q op q') (hr : q.Resets q₁ clock op)
    (he : q₁.earliest ≠ .max) (hc : q₁.earliest = clock) : ¬q'.Guarded := by
  intro hg
  rw [step_resets e hr] at hg
  have ⟨e, hm, h⟩ := exists_earliest he
  exact (hg e hm (h ▸ he)).left.status (resetTimerfd_disarmed he hc)

theorem guarded_of_keepsArmed {timer : TimerPtr → Timer γ} {ops : List (Op γ)}
    (e : Steps (Steps.When KeepsArmed Step) (new timer) ops q) :
    q.Guarded ∧ ∀ op q' q₁ clock, Step q op q' → q.Resets q₁ clock op → q₁.earliest ≠ .max →
      q₁.earliest = clock → ¬q'.Guarded :=
  ⟨(Invariant.new.run e).guarded, fun _ _ _ _ hs hr he hc => not_guarded_of_equal hs hr he hc⟩

theorem guarded_of_add_before :
    ∃ q, Steps Step (new fun _ => ⟨0, 0, ()⟩) [.addTimerInLoop ⟨10, 0, ()⟩ 5] q ∧ q.Guarded := by
  have hk : (new fun _ => ⟨0, 0, ()⟩).KeepsArmed (.addTimerInLoop ⟨10, 0, ()⟩ 5) := by
    intro q₁ clock hr _
    obtain ⟨_, rfl, rfl⟩ := hr
    exact ⟨by decide, by decide, by decide⟩
  have e : Steps (Steps.When KeepsArmed Step) (new fun _ => ⟨0, 0, ()⟩)
      [.addTimerInLoop ⟨10, 0, ()⟩ 5] _ := .single ⟨hk, rfl⟩
  exact ⟨_, e.forget, (guarded_of_keepsArmed e).left⟩

-- A timer that is added exactly at its expiration disarms the descriptor.
theorem not_guarded_of_add_at :
    ∃ q, Steps Step (new fun _ => ⟨0, 0, ()⟩) [.addTimerInLoop ⟨10, 0, ()⟩ 10] q ∧ ¬q.Guarded := by
  have e : Step (new fun _ => ⟨0, 0, ()⟩) (.addTimerInLoop ⟨10, 0, ()⟩ 10) _ := rfl
  exact ⟨_, .single e, not_guarded_of_equal e ⟨by decide, rfl, rfl⟩ (by decide) (by decide)⟩

end TimerQueue
end Bounce
