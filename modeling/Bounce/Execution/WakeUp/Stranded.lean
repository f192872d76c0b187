import Bounce.Execution.WakeUp.Basic

namespace Bounce.WakeUp

variable {θ τ : Type} [DecidableEq θ] {own : θ} {s s₁ s₂ : State θ τ} {act : Act θ τ}

def Stage.exposed : Stage → Bool
  | start | poll | run _ => true
  | handle _ | begin     => false

namespace State

abbrev Step (own : θ) : State θ τ → Act θ τ → State θ τ → Prop :=
  Steps.Of (step own)

-- A call that does not wake up the loop leaves no task behind, or leaves it to another wake-up.
def KeepsWakeUp (s : State θ τ) : Act θ τ → Prop
  | .test thread =>
    s.stage.exposed → ¬s.loop.wakes thread →
      s.loop.queue.taskVec = [] ∨ 0 < s.loop.weakupFd ∨ ∃ other, other ≠ thread ∧
      s.call other ≠ .idle
  | _ => True

structure Invariant (own : θ) (s : State θ τ) : Prop where
  threadId : s.loop.threadId = own
  doing    : s.loop.doingTheTasks ↔ s.stage = .begin ∨ ∃ inTask, s.stage = .run inTask
  callable : s.call own ≠ .idle → s.callable
  wakeUp   : s.stage.exposed → s.loop.queue.taskVec ≠ [] →
    0 < s.loop.weakupFd ∨ ∃ thread, s.call thread ≠ .idle

omit [DecidableEq θ] in
theorem new_invariant : Invariant own (new own : State θ τ) where
  threadId := rfl
  doing    := by simp [new, EventLoop.new]
  callable := by simp [new]
  wakeUp   := by simp [new, EventLoop.new, TaskQueue.empty]

namespace Invariant

omit [DecidableEq θ] in
theorem not_stranded (h : Invariant own s) : ¬s.Stranded := by
  intro hs
  have he : s.stage.exposed := by simp [hs.stage, Stage.exposed]
  have hw := h.wakeUp he hs.tasks
  simp [hs.weakupFd, hs.idle] at hw

theorem push {thread : θ} {task : τ} (h : Invariant own s)
    (e : Step own s (.push thread task) s₂) : Invariant own s₂ := by
  simp only [Steps.Of, step, Option.ite_none_right_eq_some, Option.some.injEq] at e
  obtain ⟨⟨hi, hc⟩, rfl⟩ := e
  exact {
    threadId := h.threadId
    doing := h.doing
    callable := by
      intro hn
      by_cases ht : thread = own
      case pos => exact hc ht
      case neg => exact h.callable (by simpa [setCall, Function.update, Ne.symm ht] using hn)
    wakeUp := fun _ _ => .inr ⟨thread, by simp [setCall]⟩
  }

theorem test {thread : θ} (h : Invariant own s) (hk : s.KeepsWakeUp (.test thread))
    (e : Step own s (.test thread) s₂) : Invariant own s₂ := by
  simp only [Steps.Of, step, Option.ite_none_right_eq_some, Option.some.injEq] at e
  obtain ⟨hp, rfl⟩ := e
  exact {
    threadId := h.threadId
    doing := h.doing
    callable := by
      intro hn
      by_cases ht : thread = own
      case pos => exact h.callable (by simp [← ht, hp])
      case neg => exact h.callable (by simpa [setCall, Function.update, Ne.symm ht] using hn)
    wakeUp := by
      intro he hv
      by_cases hw : s.loop.wakes thread
      case pos => exact .inr ⟨thread, by simp [setCall, hw]⟩
      case neg =>
        obtain hn | hp | ⟨other, ho, hc⟩ := hk he hw
        · exact absurd hn hv
        · exact .inl hp
        · exact .inr ⟨other, by simpa [setCall, ho] using hc⟩
  }

theorem write {thread : θ} (h : Invariant own s) (e : Step own s (.write thread) s₂) :
    Invariant own s₂ := by
  simp only [Steps.Of, step, Option.ite_none_right_eq_some, Option.some.injEq] at e
  obtain ⟨hw, rfl⟩ := e
  exact {
    threadId := h.threadId
    doing := h.doing
    callable := by
      intro hn
      by_cases ht : thread = own
      case pos => exact h.callable (by simp [← ht, hw])
      case neg => exact h.callable (by simpa [setCall, Function.update, Ne.symm ht] using hn)
    wakeUp := fun _ _ => .inl (Nat.succ_pos _)
  }

omit [DecidableEq θ] in
theorem loopStep (h : Invariant own s) (hi : s.call own = .idle)
    (e : s.loopStep own act = some s₂) : Invariant own s₂ := by
  have hd := h.doing
  have hw := h.wakeUp
  have ht := h.threadId
  cases act <;> simp only [State.loopStep] at e
  case push | test | write => contradiction
  case enter =>
    split at e <;> simp at e
    subst e
    exact ⟨rfl, by simp_all, by simp [hi], by simp_all [Stage.exposed]⟩
  case ready =>
    split at e <;> simp at e
    obtain ⟨_, rfl⟩ := e
    exact ⟨ht, by simp_all, by simp [hi], by simp [Stage.exposed]⟩
  case weakup =>
    split at e <;> simp at e
    subst e
    exact ⟨ht, by simp_all, by simp [hi], by simp [Stage.exposed]⟩
  case begin =>
    split at e <;> simp at e
    subst e
    exact ⟨ht, by simp, by simp [hi], by simp [Stage.exposed]⟩
  case swap =>
    split at e <;> simp at e
    subst e
    exact ⟨ht, by simp_all, by simp [hi], by simp [TaskQueue.swap]⟩
  case task =>
    split at e <;> simp at e
    subst e
    exact ⟨ht, by simp_all, by simp [hi], by simp_all [Stage.exposed]⟩
  case endTask =>
    split at e <;> simp at e
    subst e
    exact ⟨ht, by simp_all, by simp [hi], by simp_all [Stage.exposed]⟩
  case finish =>
    split at e <;> simp at e
    subst e
    exact ⟨ht, by simp, by simp [hi], by simp_all [Stage.exposed]⟩

theorem step (h : Invariant own s₁) (hk : s₁.KeepsWakeUp act) (e : Step own s₁ act s₂) :
    Invariant own s₂ := by
  cases act
  case push  => exact h.push e
  case test  => exact h.test hk e
  case write => exact h.write e
  all_goals
    simp only [Steps.Of, State.step, Option.ite_none_right_eq_some] at e
    exact h.loopStep e.left e.right

theorem run {acts : List (Act θ τ)} (h : Invariant own s₁)
    (e : Steps (Steps.When KeepsWakeUp (Step own)) s₁ acts s₂) : Invariant own s₂ :=
  e.invariant (fun hi hs => hi.step hs.left hs.right) h

end Invariant

theorem step_test {thread : θ} (e : Step own s (.test thread) s₂) :
    s.call thread = .pushed ∧
    s₂ = s.setCall thread (if s.loop.wakes thread then .waking else .idle) := by
  simp only [Steps.Of, step, Option.ite_none_right_eq_some, Option.some.injEq] at e
  exact ⟨e.left, e.right.symm⟩

theorem finish_batch {tasks : List τ} (hs : s.stage = .run false) (hv : s.loop.queue.tmpVec = tasks)
    (hi : s.call own = .idle) :
    ∃ acts s', Steps (Step own) s acts s' ∧ s'.stage = .poll ∧ s'.call = s.call ∧
      s'.loop.weakupFd = s.loop.weakupFd ∧ s'.loop.queue.taskVec = s.loop.queue.taskVec := by
  induction tasks generalizing s
  case nil =>
    refine ⟨[.finish], { s with stage := .poll, loop.doingTheTasks := false }, .single ?_, ?_⟩
    · simp [Steps.Of, step, loopStep, hi, hs, hv]
    · exact ⟨rfl, rfl, rfl, rfl⟩
  case cons task tasks ht =>
    let s' : State θ τ := { s with loop.queue.tmpVec := tasks }
    have ⟨acts, s₂, e, h⟩ := ht (s := s') hs rfl hi
    have e₁ : Step own s .task { s with stage := .run true, loop.queue.tmpVec := tasks } := by
      simp [Steps.Of, step, loopStep, hi, hs, hv]
    have e₂ : Step own { s with stage := .run true, loop.queue.tmpVec := tasks } .endTask s' := by
      simp [Steps.Of, step, loopStep, hi, s', hs]
    exact ⟨.task :: .endTask :: acts, s₂, .step e₁ (.step e₂ e), h⟩

theorem wait_of_exposed (hx : s.stage.exposed) (hi : s.call own = .idle) :
    ∃ acts s', Steps (Step own) s acts s' ∧ s'.stage = .poll ∧ s'.call = s.call ∧
      s'.loop.weakupFd = s.loop.weakupFd ∧ s'.loop.queue.taskVec = s.loop.queue.taskVec := by
  cases hs : s.stage
  case start =>
    refine ⟨[.enter], { s with stage := .poll, loop.threadId := own }, .single ?_, rfl,
      rfl, rfl, rfl⟩
    simp [Steps.Of, step, loopStep, hi, hs]
  case poll => exact ⟨[], s, .refl, hs, rfl, rfl, rfl⟩
  case handle | begin => simp [hs, Stage.exposed] at hx
  case run inTask =>
    cases inTask
    case false => exact finish_batch hs rfl hi
    case true =>
      have ⟨acts, s', e, h⟩ := finish_batch (s := { s with stage := .run false }) rfl rfl hi
      refine ⟨.endTask :: acts, s', .step ?_ e, h⟩
      simp [Steps.Of, step, loopStep, hi, hs]

theorem stranded_of_not_keepsWakeUp (e : Step own s act s₂) (hk : ¬s.KeepsWakeUp act) :
    ∃ acts s', Steps (Step own) s₂ acts s' ∧ s'.Stranded := by
  cases act
  case test thread =>
    have ⟨_, h⟩ := step_test e
    simp only [KeepsWakeUp, not_forall, not_or, not_exists, not_and, not_not] at hk
    have ⟨hx, hw, hv, hf, ho⟩ := hk
    have hc : ∀ other, s₂.call other = .idle := by
      intro other
      by_cases hn : other = thread
      case pos => simp [h, hn, setCall, hw]
      case neg => simpa [h, setCall, hn] using ho other hn
    have hx₂ : s₂.stage.exposed := by simpa [h, setCall] using hx
    have ⟨acts, s', e', hp, hcall, hfd, hq⟩ := wait_of_exposed hx₂ (hc own)
    refine ⟨acts, s', e', hp, ?_, ?_, ?_⟩
    · simpa [hfd, h, setCall] using hf
    · simpa [hcall] using hc
    · simpa [hq, h, setCall] using hv
  all_goals simp [KeepsWakeUp] at hk

-- The task that a task queues waits for the next event of another kind.
theorem stranded_of_push_in_task :
    ∃ s, Steps (Step false) (new false : State Bool Bool)
      [.enter, .push true true, .test true, .write true, .ready false, .weakup, .begin,
        .swap, .task,
        .push false false, .test false, .endTask, .finish] s ∧ s.Stranded := by
  refine ⟨_, Steps.of_foldlM rfl, rfl, rfl, ?_, ?_⟩
  · intro thread
    cases thread <;> rfl
  · exact List.cons_ne_nil _ _

theorem not_stranded_of_keepsWakeUp (own : θ) :
    (∀ acts (s : State θ τ), Steps (Steps.When KeepsWakeUp (Step own)) (new own) acts s →
      ¬s.Stranded) ∧
    (∀ acts (s s' : State θ τ) act, Steps (Steps.When KeepsWakeUp (Step own)) (new own) acts s →
      Step own s act s' → ¬s.KeepsWakeUp act →
        ∃ acts' s'', Steps (Step own) s' acts' s'' ∧ s''.Stranded) where
  left _ _ e := (new_invariant.run e).not_stranded
  right _ _ _ _ _ e hk := stranded_of_not_keepsWakeUp e hk

theorem not_stranded_of_write :
    ∃ s, Steps (Step false) (new false : State Bool Bool)
      [.enter, .push true true, .test true, .write true] s ∧ ¬s.Stranded := by
  have hw : ∀ s : State Bool Bool, s.loop.wakes true → s.KeepsWakeUp (.test true) :=
    fun _ h _ hn => absurd h hn
  have ⟨s, e⟩ : ∃ s, Steps (Steps.When KeepsWakeUp (Step false)) (new false : State Bool Bool)
      [.enter, .push true true, .test true, .write true] s :=
    ⟨_, .step ⟨trivial, rfl⟩ <| .step ⟨trivial, rfl⟩ <| .step ⟨hw _ rfl, rfl⟩ <|
      .single ⟨trivial, rfl⟩⟩
  exact ⟨s, e.forget, (not_stranded_of_keepsWakeUp false).left _ s e⟩

end State
end Bounce.WakeUp
