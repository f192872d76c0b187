import Bounce.Execution.Starting.Started

namespace Bounce.Starting

variable {θ : Type} {threadCb : StdFunction} {loop : Nat → θ} {s s' : State θ} {act : Act} {k : Nat}
variable {w w' : Worker}

-- The steps that a thread has in front of it. A notification pays for the return of the wait.
def Worker.cost : Worker → Nat
  | .construct => 9
  | .lock      => 8
  | .push      => 7
  | .init      => 6
  | .unlock    => 5
  | .notify    => 4
  | .callback  => 1
  | .loop      => 0

-- An iteration is 15 steps, with the ones of the thread that it runs.
def Main.cost (n i : Nat) : Main → Nat
  | .entry   => 15 * (n - i) + 2
  | .head    => 15 * (n - i) + 1
  | .lock    => 15 * (n - (i + 1)) + 6
  | .woken   => 15 * (n - (i + 1)) + 6
  | .test    => 15 * (n - (i + 1)) + 5
  | .push    => 15 * (n - (i + 1)) + 4
  | .waiting => 15 * (n - (i + 1)) + 4
  | .reset   => 15 * (n - (i + 1)) + 3
  | .unlock  => 15 * (n - (i + 1)) + 2
  | .done    => 0

namespace State

def cost (s : State θ) : Nat :=
  s.main.cost s.pool.threadNum.toNat s.i + (s.workers.map Worker.cost).sum

theorem cost_set (hg : s.workers[k]? = some w) (w' : Worker) :
    ((s.workers.set k w').map Worker.cost).sum + w.cost =
      (s.workers.map Worker.cost).sum + w'.cost := by
  obtain ⟨hk, rfl⟩ := List.getElem?_eq_some_iff.mp hg
  rw [List.set_eq_take_append_cons_drop, if_pos hk]
  conv_rhs => rw [← List.take_append_drop k s.workers, List.drop_eq_getElem_cons hk]
  simp only [List.map_append, List.map_cons, List.sum_append, List.sum_cons]
  omega

theorem cost_stepMain (h : s.stepMain = some s') : s'.cost + 1 ≤ s.cost := by
  rw [stepMain] at h
  generalize hm : s.main = m at h
  cases m <;> dsimp only at h
  case head =>
    split at h
    case isTrue hlt =>
      cases h
      simp only [cost, hm, Main.cost, List.map_append, List.map_cons, List.map_nil, List.sum_append,
        List.sum_cons,
        List.sum_nil, Worker.cost]
      omega
    case isFalse => cases h; simp only [cost, hm, goto, Main.cost]; omega
  case lock | woken =>
    obtain ⟨-, rfl⟩ := Stage.acquire_main h
    simp only [cost, hm, Main.cost]
    omega
  case test =>
    cases h
    split
    all_goals simp only [cost, hm, goto, release, Main.cost]; omega
  case waiting | done => contradiction
  all_goals cases h; simp only [cost, hm, release, Main.cost]; omega

theorem cost_stepWorker (h : s.stepWorker threadCb loop k = some s') : s'.cost + 1 ≤ s.cost := by
  -- the main thread stays where it is, and the thread gets nearer to its end
  have hc : ∀ {s₁ : State θ} {w w' : Worker}, s.workers[k]? = some w → w'.cost + 1 ≤ w.cost →
      s₁.main = s.main →
      s₁.pool.threadNum = s.pool.threadNum → s₁.i = s.i → s₁.workers = s.workers →
      (s₁.setWorker k w').cost + 1 ≤ s.cost := by
    intro s₁ w w' hg hw hm hn hi hws
    have hs := cost_set hg w'
    simp only [cost, setWorker, hm, hn, hi, hws]
    omega
  rw [stepWorker] at h
  split at h
  case h_1 hg => cases h; exact hc hg (by decide) rfl rfl rfl rfl
  case h_2 hg =>
    rw [acquire] at h
    split at h
    case isTrue  => cases h; exact hc hg (by decide) rfl rfl rfl rfl
    case isFalse => contradiction
  case h_3 hg => cases h; exact hc hg (by decide) rfl rfl rfl rfl
  case h_4 hg => cases h; exact hc hg (by decide) rfl rfl rfl rfl
  case h_5 hg => cases h; exact hc hg (by decide) rfl rfl rfl rfl
  case h_6 hg =>
    cases h
    rw [notify]
    split
    case isFalse   => exact hc hg (by decide) rfl rfl rfl rfl
    case isTrue hm =>
      have hs := cost_set hg .callback
      simp only [Worker.cost] at hs
      simp only [cost, setWorker, goto, hm, Main.cost]
      omega
  case h_7 hg => cases h; exact hc hg (by decide) rfl rfl rfl rfl
  case h_8 | h_9 => contradiction

end State

def Act.gain : Act → Nat
  | .spurious => 3
  | _         => 0

theorem cost_step (h : s.step threadCb loop act = some s') : s'.cost + 1 ≤ s.cost + act.gain := by
  cases act
  case main     => exact State.cost_stepMain h
  case worker k => exact State.cost_stepWorker h
  case spurious =>
    rw [State.step] at h
    split at h
    case isFalse   => contradiction
    case isTrue hm =>
      cases h
      simp only [State.cost, State.goto, hm, Main.cost, Act.gain]
      omega

theorem sum_gain (acts : List Act) : (acts.map Act.gain).sum = 3 * acts.count .spurious := by
  induction acts
  case nil => rfl
  case cons act _ hi =>
    rw [List.map_cons, List.sum_cons, hi, List.count_cons]
    cases act <;> simp [Act.gain]
    omega

theorem stuck_main (h : s.stepMain = none) :
    s.main = .waiting ∨ s.main = .done ∨ (s.main = .lock ∨ s.main = .woken) ∧ s.mutex ≠ none := by
  rw [State.stepMain] at h
  generalize s.main = m at h
  cases m <;> dsimp only at h
  case head         => split at h <;> contradiction
  case lock | woken => simpa [State.acquire] using h
  case waiting      => exact .inl rfl
  case done         => exact .inr (.inl rfl)
  all_goals contradiction

theorem stuck_worker (h : s.stepWorker threadCb loop k = none) (hg : s.workers[k]? = some w) :
    w = .loop ∨ w = .lock ∧ s.mutex ≠ none := by
  rw [State.stepWorker, hg] at h
  cases w <;> dsimp only at h
  case lock => simpa [State.acquire] using h
  case loop => exact .inl rfl
  all_goals contradiction

theorem Stage.stuck (h : Stage loop s) (hm : s.stepMain = none)
    (hw : ∀ k, s.stepWorker threadCb loop k = none) :
    s.main = .done ∧ ∀ w ∈ s.workers, w = .loop := by
  have hm := stuck_main hm
  have hw : ∀ w ∈ s.workers, w = .loop ∨ w = .lock ∧ s.mutex ≠ none := by
    intro w hmem
    have ⟨k, hk⟩ := List.mem_iff_getElem?.mp hmem
    exact stuck_worker (hw k) hk
  cases h
  case idle hm' _ hl hx _ _ _ =>
    refine ⟨?_, fun w hmem => ?_⟩
    · obtain hm | hm | hm := hm' <;> simp_all
    · exact (hw w hmem).resolve_right fun hc => hc.right hx
  case joined hm' _ _ _ _ _ _ => obtain hm' | hm' | hm' := hm' <;> simp [hm'] at hm
  case waits ws w hws _ _ hsy _ _ _ =>
    have hlast := hw w (by simp [hws])
    generalize s.main = m at hm hsy
    generalize hx : s.mutex = x at hm hlast hsy
    cases hsy
    case apart hl _ hn =>
      obtain rfl | rfl | rfl := hl
      · simp at hm
      · exact absurd (hlast.resolve_right fun hc => hc.right rfl) (hn rfl).right
      · simp at hm
    case worker hh => obtain rfl | rfl | rfl := hh <;> simp at hlast
    case main      => simp at hm

theorem bounded_of_run [DecidableEq θ] {n : UInt32} {acts : List Act} (hl : Function.Injective loop)
    (e : Steps (Steps.Of (State.step threadCb loop)) (State.new n) acts s) :
    acts.length ≤ 15 * n.toNat + 2 + 3 * acts.count .spurious ∧
    ((∀ act, act ≠ .spurious → s.step threadCb loop act = none) →
      s.main = .done ∧ s.workers = List.replicate n.toNat .loop) := by
  refine ⟨?_, fun hs => ?_⟩
  · have hc := e.length_le (φ := State.cost) (f := Act.gain) cost_step
    have hn : (State.new n : State θ).cost = 15 * n.toNat + 2 := rfl
    rw [hn, sum_gain] at hc
    omega
  · have h := run_invariant hl e
    have ⟨hm, hw⟩ := h.stage.stuck (hs .main (by decide)) fun k => hs (.worker k) (by simp)
    refine ⟨hm, List.eq_replicate_iff.mpr ⟨?_, hw⟩⟩
    rw [(h.stage.done hm).right.left, h.counted.done hm]

theorem bounded_of_late_notify :
    ∃ s, Steps (Steps.Of (State.step .user id)) (State.new 2) (lateNotify ++ [.worker 0]) s ∧
      (lateNotify ++ [Act.worker 0]).length ≤ 15 * 2 + 2 + 3 * 2 ∧ s.main = .done ∧
      s.workers = [.loop, .loop] := by
  have ⟨s, e, hs⟩ : ∃ s, Steps (Steps.Of (State.step .user id)) (State.new 2)
      (lateNotify ++ [.worker 0]) s ∧
      s.main = .done ∧ s.workers = [.loop, .loop] := by
    refine ⟨_, Steps.of_isSome ?_, ?_⟩
    all_goals decide
  have h := bounded_of_run Function.injective_id e
  refine ⟨s, e, h.left, h.right fun act ha => ?_⟩
  cases act
  case main     => simp [State.step, State.stepMain, hs.left]
  case spurious => contradiction
  case worker k =>
    rw [State.step, State.stepWorker, hs.right]
    obtain _ | _ | k := k <;> rfl

end Bounce.Starting
