import Bounce.Execution.WakeUp.Stranded

namespace Bounce.WakeUp

variable {θ τ : Type} [DecidableEq θ] {own : θ} {s s₁ s₂ : State θ τ} {act : Act θ τ}
variable {acts : List (Act θ τ)}

-- The tasks that are pushed, in the order in which the pushes hold the mutex.
def Act.pushed : Act θ τ → List τ
  | .push _ t => [t]
  | _         => []

def pushed (acts : List (Act θ τ)) : List τ :=
  acts.flatMap Act.pushed

namespace State

def started (s : State θ τ) : Act θ τ → List τ
  | .task => s.loop.queue.tmpVec.head?.toList
  | _     => []

def executed (own : θ) : State θ τ → List (Act θ τ) → List τ
  | _, []          => []
  | s, act :: acts => s.started act ++ (s.step own act).elim [] (executed own · acts)

def Batched (s : State θ τ) : Prop :=
  s.loop.queue.tmpVec ≠ [] → ∃ inTask, s.stage = .run inTask

structure Moves (act : Act θ τ) (s₁ s₂ : State θ τ) : Prop where
  batched : s₂.Batched
  pending : s₁.loop.queue.pending ++ act.pushed = s₁.started act ++ s₂.loop.queue.pending
  stage   : ∀ inTask, s₁.stage = .run inTask → act = .finish ∨ ∃ inTask, s₂.stage = .run inTask
  batch   : ∀ inTask, s₁.stage = .run inTask →
    s₁.loop.queue.tmpVec = s₁.started act ++ s₂.loop.queue.tmpVec

omit [DecidableEq θ] in
theorem Moves.outside (h : s₁.Batched) (hs : ∀ inTask, s₁.stage ≠ .run inTask)
    (hq : s₂.loop.queue = s₁.loop.queue) (ha : s₁.started act = []) (hp : act.pushed = []) :
    Moves act s₁ s₂ where
  batched hn := by
    have ⟨inTask, hr⟩ := h (hq ▸ hn)
    exact absurd hr (hs inTask)
  pending        := by rw [ha, hp, hq, List.append_nil, List.nil_append]
  stage inTask hr := absurd hr (hs inTask)
  batch inTask hr := absurd hr (hs inTask)

omit [DecidableEq θ] in
theorem Moves.caller (h : s₁.Batched) (hs : s₂.stage = s₁.stage)
    (ht : s₂.loop.queue.tmpVec = s₁.loop.queue.tmpVec)
    (hv : s₂.loop.queue.taskVec = s₁.loop.queue.taskVec ++ act.pushed) (ha : s₁.started act = []) :
    Moves act s₁ s₂ where
  batched hn := by
    have ⟨inTask, hr⟩ := h (ht ▸ hn)
    exact ⟨inTask, hs.trans hr⟩
  pending         := by rw [ha, TaskQueue.pending, TaskQueue.pending, ht, hv,
    List.append_assoc]; rfl
  stage inTask hr := .inr ⟨inTask, hs.trans hr⟩
  batch _ _       := by rw [ha, ht]; rfl

omit [DecidableEq θ] in
theorem loopStep_moves (h : s₁.Batched) (e : s₁.loopStep own act = some s₂) : Moves act s₁ s₂ := by
  cases act <;> simp only [loopStep] at e
  case push | test | write => contradiction
  case swap =>
    split at e
    case h_2 => contradiction
    case h_1 hs =>
      have ht : s₁.loop.queue.tmpVec = [] := by
        by_contra hn
        obtain ⟨_, hs'⟩ := h hn
        rw [hs] at hs'
        contradiction
      obtain rfl := Option.some.inj e
      exact {
        batched _ := ⟨false, rfl⟩
        pending   := by simp [Act.pushed, started, TaskQueue.swap_pending ht]
        stage _ hr := by rw [hs] at hr; contradiction
        batch _ hr := by rw [hs] at hr; contradiction
      }
  case task =>
    split at e
    case h_2 => contradiction
    case h_1 task tasks hs ht =>
      obtain rfl := Option.some.inj e
      exact {
        batched _ := ⟨true, rfl⟩
        pending   := by simp [Act.pushed, started, TaskQueue.pending, ht]
        stage _ _ := .inr ⟨true, rfl⟩
        batch _ _ := by simp [started, ht]
      }
  case finish =>
    split at e
    case h_2 => contradiction
    case h_1 hs ht =>
      obtain rfl := Option.some.inj e
      exact {
        batched hn := absurd ht hn
        pending    := by simp [Act.pushed, started]
        stage _ _  := .inl rfl
        batch _ _  := by simp [started]
      }
  case endTask =>
    split at e
    case h_2 => contradiction
    case h_1 hs =>
      obtain rfl := Option.some.inj e
      exact {
        batched _ := ⟨false, rfl⟩
        pending   := by simp [Act.pushed, started]
        stage _ _ := .inr ⟨false, rfl⟩
        batch _ _ := by simp [started]
      }
  case ready =>
    split at e
    case h_2 => contradiction
    case h_1 hs =>
      rw [Option.ite_none_right_eq_some] at e
      obtain ⟨_, rfl⟩ := e.imp_right Option.some.inj
      exact .outside h (by simp [hs]) rfl rfl rfl
  case enter | weakup | begin =>
    split at e
    case h_2 => contradiction
    case h_1 hs =>
      obtain rfl := Option.some.inj e
      exact .outside h (by simp [hs]) rfl rfl rfl

theorem step_moves (h : s₁.Batched) (e : Step own s₁ act s₂) : Moves act s₁ s₂ := by
  cases act <;> simp only [Step, Steps.Of, step, Option.ite_none_right_eq_some] at e
  case push task =>
    obtain ⟨_, rfl⟩ := e.imp_right Option.some.inj
    exact .caller h rfl rfl rfl rfl
  case test | write =>
    obtain ⟨_, rfl⟩ := e.imp_right Option.some.inj
    exact .caller h rfl rfl (List.append_nil _).symm rfl
  all_goals exact loopStep_moves h e.right

omit [DecidableEq θ] in
theorem new_batched : (new own : State θ τ).Batched :=
  fun hn => absurd rfl hn

theorem run_batched (h : s₁.Batched) (e : Steps (Step own) s₁ acts s₂) : s₂.Batched :=
  e.invariant (fun h e => (step_moves h e).batched) h

theorem executed_cons (e : Step own s₁ act s₂) :
    executed own s₁ (act :: acts) = s₁.started act ++ executed own s₂ acts := by
  rw [executed, show s₁.step own act = some s₂ from e]
  rfl

theorem run_pending (h : s₁.Batched) (e : Steps (Step own) s₁ acts s₂) :
    s₁.loop.queue.pending ++ pushed acts = executed own s₁ acts ++ s₂.loop.queue.pending := by
  induction e
  case refl => simp [pushed, executed]
  case step act acts e _ hi =>
    have hm := step_moves h e
    rw [executed_cons e, pushed, List.flatMap_cons, ← List.append_assoc, hm.pending,
      List.append_assoc,
      List.append_assoc, ← hi hm.batched]
    rfl

theorem run_batch {inTask : Bool} (h : s₁.Batched) (hs : s₁.stage = .run inTask)
    (hn : .finish ∉ acts) (e : Steps (Step own) s₁ acts s₂) :
    (∃ inTask, s₂.stage = .run inTask) ∧
      s₁.loop.queue.tmpVec = executed own s₁ acts ++ s₂.loop.queue.tmpVec := by
  induction e generalizing inTask
  case refl => exact ⟨⟨inTask, hs⟩, rfl⟩
  case step act acts e _ hi =>
    have hm := step_moves h e
    rw [List.mem_cons, not_or] at hn
    have ⟨hna, hn⟩ := hn
    have ⟨inTask', hs'⟩ := (hm.stage inTask hs).resolve_left (Ne.symm hna)
    have ⟨h₂, ht⟩ := hi hm.batched hs' hn
    refine ⟨h₂, ?_⟩
    rw [executed_cons e, hm.batch inTask hs, ht, List.append_assoc]

theorem swap_batch (e : Step own s₁ .swap s₂) :
    s₂.stage = .run false ∧ s₂.loop.queue.tmpVec = s₁.loop.queue.taskVec := by
  simp only [Step, Steps.Of, step, Option.ite_none_right_eq_some] at e
  have e := e.right
  simp only [loopStep] at e
  split at e
  case h_2 => contradiction
  case h_1 =>
    obtain rfl := Option.some.inj e
    exact ⟨rfl, rfl⟩

theorem finish_empty (e : Step own s₁ .finish s₂) : s₁.loop.queue.tmpVec = [] := by
  simp only [Step, Steps.Of, step, Option.ite_none_right_eq_some] at e
  have e := e.right
  simp only [loopStep] at e
  split at e
  case h_2 => contradiction
  case h_1 ht => exact ht

theorem round_goes_on {inTask : Bool} (hs : s.stage = .run inTask) (hi : s.call own = .idle) :
    ∃ s', Step own s
      (if inTask then .endTask else if s.loop.queue.tmpVec = [] then .finish else .task) s' := by
  cases inTask
  case true =>
    exact ⟨_, by simp only [Step, Steps.Of, step, loopStep, hi, hs, if_true]; rfl⟩
  case false =>
    cases ht : s.loop.queue.tmpVec
    case nil  => exact ⟨_, by simp [Step, Steps.Of, step, loopStep, hi, hs, ht]; rfl⟩
    case cons => exact ⟨_, by simp [Step, Steps.Of, step, loopStep, hi, hs, ht]; rfl⟩

theorem tasks_of_run (e : Steps (Step own) (new own : State θ τ) acts s) :
    executed own (new own) acts ++ s.loop.queue.tmpVec ++ s.loop.queue.taskVec = pushed acts ∧
    ∀ s₁ acts₁ s₂, Step own s .swap s₁ → Steps (Step own) s₁ acts₁ s₂ → .finish ∉ acts₁ →
      executed own s₁ acts₁ ++ s₂.loop.queue.tmpVec = s.loop.queue.taskVec ∧
      (∀ s₃, Step own s₂ .finish s₃ → executed own s₁ acts₁ = s.loop.queue.taskVec) ∧
      ∃ inTask, s₂.stage = .run inTask ∧ (s₂.call own = .idle → ∃ s₃, Step own s₂
        (if inTask then .endTask else if s₂.loop.queue.tmpVec = [] then .finish else .task)
        s₃) := by
  have hb := run_batched new_batched e
  refine ⟨?_, ?_⟩
  · have hp := run_pending new_batched e
    rw [List.append_assoc]
    exact hp.symm
  · intro s₁ acts₁ s₂ e₁ e₂ hn
    have ⟨hs, ht⟩ := swap_batch e₁
    have ⟨⟨inTask, hs₂⟩, hr⟩ := run_batch (step_moves hb e₁).batched hs hn e₂
    rw [ht] at hr
    refine ⟨hr.symm, fun s₃ e₃ => ?_, inTask, hs₂, round_goes_on hs₂⟩
    rw [hr, finish_empty e₃, List.append_nil]

theorem tasks_of_push_in_task :
    ∃ s s₁ s₂ s₃, Steps (Step false) (new false : State Bool Nat)
        [.enter, .push true 1, .test true, .write true, .ready false, .weakup, .begin] s ∧
      Step false s .swap s₁ ∧
      Steps (Step false) s₁ [.task, .push false 2, .test false, .endTask] s₂ ∧
      Step false s₂ .finish s₃ ∧
      executed false s₁ [.task, .push false 2, .test false, .endTask] = s.loop.queue.taskVec := by
  have ⟨s, s₁, s₂, s₃, e, e₁, e₂, e₃⟩ : ∃ s s₁ s₂ s₃,
      Steps (Step false) (new false : State Bool Nat)
        [.enter, .push true 1, .test true, .write true, .ready false, .weakup, .begin] s ∧
      Step false s .swap s₁ ∧
      Steps (Step false) s₁ [.task, .push false 2, .test false, .endTask] s₂ ∧
      Step false s₂ .finish s₃ :=
    ⟨_, _, _, _, Steps.of_foldlM rfl, rfl, Steps.of_foldlM rfl, rfl⟩
  have h := (tasks_of_run e).right s₁ _ s₂ e₁ e₂ (by simp)
  exact ⟨s, s₁, s₂, s₃, e, e₁, e₂, e₃, h.right.left s₃ e₃⟩

end State
end Bounce.WakeUp
