import Bounce.Execution.Ownership.Basic

namespace Bounce.Connection.Ownership

variable {θ : Type} [DecidableEq θ] {cfg : Callbacks} {own base t : θ}

-- A task that has been queued without an owner, by a thread that is not the one of the loop, is
-- being run.
def Bare (own : θ) : Code θ → Prop
  | .task (.sendInLoop _ origin)   => origin ≠ own
  | .task (.shutdownInLoop origin) => origin ≠ own
  | _                              => False

def Ahead (base : θ) (s : Connection.State θ) (tasks : List (Task θ)) : Prop :=
  s.mapped ∨ .queue .destroyConnection ∈ s.stack base ∨ ∃ f ∈ tasks, f.shared

instance {s : Connection.State θ} {tasks : List (Task θ)} : Decidable (Ahead base s tasks) :=
  inferInstanceAs (Decidable (_ ∨ _))

-- No task is pushed without an owner when `destroyConnection` has left the queue for a batch.
def KeepsOwner (own base : θ) (s : State θ) : Act θ → Prop
  | .step (.exec t _) =>
    match s.stack t with
    | .queue f :: _ => f.shared ∨ Ahead base s.toState (s.queue own).taskVec
    | _             => True
  | _ => True

instance {s : State θ} : ∀ act, Decidable (KeepsOwner own base s act)
  | .step (.exec t _) => by
    rw [KeepsOwner]
    split <;> infer_instance
  | .step (.call _ _) | .step (.poll _ _) | .step (.dispatch _) | .step (.swap _) | .step (.task _)
  | .step (.finish _) | .hold _ | .drop _ => .isTrue trivial

section

variable {s s' : Connection.State θ} {act : Connection.Act θ} {tasks tasks' : List (Task θ)}

theorem mem_resume_of_rest {code : Code θ} {r : Connection θ × List (Code θ)} {rest : List (Code θ)}
    (hs : base = t → code ∈ rest) (hm : code ∈ s.stack base) :
    code ∈ (s.resume t r rest).stack base := by
  by_cases ht : base = t
  case pos => simp [State.resume, ht, hs ht]
  case neg => simpa [State.resume, ht] using hm

omit [DecidableEq θ] in
theorem mem_rest {top code : Code θ} {rest : List (Code θ)} (hs : s.stack t = top :: rest)
    (hn : code ≠ top)
    (hm : code ∈ s.stack base) (ht : base = t) : code ∈ rest := by
  subst ht
  exact List.mem_of_ne_of_mem hn (hs ▸ hm)

theorem step_destroy (hp : Placed own base s) (e : Connection.Step cfg own base s act s')
    (h : s.mapped ∨ .queue .destroyConnection ∈ s.stack base) :
    s'.mapped ∨ .queue .destroyConnection ∈ s'.stack base ∨
      ∃ t rest, act = .exec t .none ∧ s.stack t = .queue .destroyConnection :: rest := by
  cases h
  case inl h =>
    cases e
    case remove t rest hs =>
      have ht : Code.Home own base t (.task .removeConnectionInLoop) :=
        hp.home.code t _ (hs ▸ List.mem_cons_self)
      have ht : t = base := ht
      exact .inr (.inl (by simp [State.resume, ht, h]))
    all_goals exact .inl h
  case inr h =>
    have hnil : ∀ {t}, s.stack t = [] → base = t →
        .queue .destroyConnection ∈ ([] : List (Code θ)) :=
      fun hs ht => hs ▸ ht ▸ h
    cases e
    case call t api _ _ => exact .inr (.inl (mem_resume_of_rest (fun ht => ht ▸ h) h))
    case exec t code rest answer r hs hr =>
      have hn : .queue .destroyConnection ≠ code := by
        rintro rfl
        cases answer <;> contradiction
      exact .inr (.inl (mem_resume_of_rest (mem_rest hs hn h) h))
    case queue t f rest hs =>
      by_cases hf : f = .destroyConnection
      case pos => exact .inr (.inr ⟨t, rest, rfl, hf ▸ hs⟩)
      case neg =>
        have hn : Code.queue .destroyConnection ≠ .queue f := fun he => hf (Code.queue.inj he).symm
        exact .inr (.inl (mem_resume_of_rest (s := s.setQueue _ _) (mem_rest hs hn h) h))
    case remove t rest hs =>
      exact .inr (.inl (mem_resume_of_rest (s := { s with mapped := false })
        (mem_rest hs (by simp) h) h))
    case dispatch t revents _ hs =>
      exact .inr (.inl (mem_resume_of_rest (s := s.setPhase _ _) (hnil hs) h))
    case task t f tasks _ hs _ =>
      exact .inr (.inl (mem_resume_of_rest (s := s.setQueue _ _) (hnil hs) h))
    case poll | swap | finish => exact .inr (.inl h)

theorem Ahead.step (h : Ahead base s tasks) (hp : Placed own base s)
    (e : Connection.Step cfg own base s act s')
    (hs : ∀ f ∈ tasks, f.shared → f ∈ tasks')
    (hd : ∀ t rest, act = .exec t .none → s.stack t = .queue .destroyConnection :: rest →
      .destroyConnection ∈ tasks') :
    Ahead base s' tasks' := by
  have hmap : s.mapped ∨ .queue .destroyConnection ∈ s.stack base → Ahead base s' tasks' := by
    intro h
    obtain h | h | ⟨t, rest, ha, ht⟩ := step_destroy hp e h
    · exact .inl h
    · exact .inr (.inl h)
    · exact .inr (.inr ⟨_, hd t rest ha ht, rfl⟩)
  obtain h | h | ⟨f, hm, hf⟩ := h
  · exact hmap (.inl h)
  · exact hmap (.inr h)
  · exact .inr (.inr ⟨f, hs f hm hf, hf⟩)

theorem Runs.not_bare {c c' : Connection θ} {code : Code θ} {codes : List (Code θ)}
    {answer : Answer}
    (hr : Runs cfg base t c code answer c' codes) : ∀ code ∈ codes, ¬Bare own code := by
  intro code' hm
  cases hr.leaves code' hm <;> exact id

theorem Calls.not_bare {c c' : Connection θ} {api : Api} {codes : List (Code θ)}
    (hc : Calls own t c api c' codes) : ∀ code ∈ codes, ¬Bare own code := by
  intro code hm
  cases hc.puts code hm
  case send ht | shutdown ht => exact fun hn => hn ht
  all_goals exact id

theorem bare_step {code : Code θ} (e : Connection.Step cfg own base s act s')
    (hm : code ∈ s'.stack own)
    (hb : Bare own code) :
    (∃ code ∈ s.stack own, Bare own code) ∨ ∃ f ∈ (s.queue own).tmpVec, f.shared = false := by
  have hcons : ∀ {t top rest}, s.stack t = top :: rest → own = t → code ∈ rest →
      code ∈ s.stack own :=
    fun hs ht hm => ht ▸ hs ▸ List.mem_cons_of_mem _ hm
  cases e
  case call t api _ _ =>
    obtain ⟨rfl, hm | hm⟩ | ⟨_, hm⟩ := mem_resume hm
    · exact absurd hb (Calls.not_bare (call_cases ..) code hm)
    · exact .inl ⟨code, hm, hb⟩
    · exact .inl ⟨code, hm, hb⟩
  case exec hs hr =>
    obtain ⟨ht, hm | hm⟩ | ⟨_, hm⟩ := mem_resume hm
    · exact absurd hb (Runs.not_bare (run_cases hr) code hm)
    · exact .inl ⟨code, hcons hs ht hm, hb⟩
    · exact .inl ⟨code, hm, hb⟩
  case queue hs =>
    obtain ⟨ht, hm | hm⟩ | ⟨_, hm⟩ := mem_resume hm
    · contradiction
    · exact .inl ⟨code, hcons hs ht hm, hb⟩
    · exact .inl ⟨code, hm, hb⟩
  case remove hs =>
    obtain ⟨ht, hm | hm⟩ | ⟨_, hm⟩ := mem_resume hm
    · split at hm
      case isTrue  => exact absurd hb (List.mem_singleton.mp hm ▸ id)
      case isFalse => contradiction
    · exact .inl ⟨code, hcons hs ht hm, hb⟩
    · exact .inl ⟨code, hm, hb⟩
  case dispatch =>
    obtain ⟨_, hm | hm⟩ | ⟨_, hm⟩ := mem_resume hm
    · obtain rfl | rfl | rfl | rfl := mem_handleChannel hm <;> contradiction
    · contradiction
    · exact .inl ⟨code, hm, hb⟩
  case task t f tasks _ _ hq =>
    obtain ⟨rfl, hm | hm⟩ | ⟨_, hm⟩ := mem_resume hm
    · obtain rfl := List.mem_singleton.mp hm
      refine .inr ⟨f, hq ▸ List.mem_cons_self, ?_⟩
      cases f <;> first | rfl | contradiction
    · contradiction
    · exact .inl ⟨code, hm, hb⟩
  case poll | swap | finish => exact .inl ⟨code, hm, hb⟩

theorem destroy_pushed {rest : List (Code θ)} (e : Connection.Step cfg own base s act s')
    (ha : act = .exec t .none) (hs : s.stack t = .queue .destroyConnection :: rest) :
    .destroyConnection ∈ (s'.queue own).taskVec := by
  cases e <;> cases ha
  case exec hs' hr =>
    cases List.cons.inj (hs.symm.trans hs') |>.left
    contradiction
  case queue hs' =>
    cases List.cons.inj (hs.symm.trans hs') |>.left
    simp [State.resume, State.setQueue, Task.home, TaskQueue.push]
  case remove hs' => cases hs.symm.trans hs'

end

variable {s s' : State θ} {act : Connection.Act θ} {c' : Connection.State θ}

inductive Moves (own : θ) (s : State θ) (act : Connection.Act θ) (s' : State θ) : Prop
  | same : s'.queue own = s.queue own → s'.ran own = s.ran own → Moves own s act s'
  | push {t answer f rest} :
    act = .exec t answer → s.stack t = .queue f :: rest → s'.queue own = (s.queue own).push f →
    s'.ran own = s.ran own → Moves own s act s'
  | swap : s'.queue own = (s.queue own).swap → s'.ran own = s.ran own → s'.stack own = [] →
    Moves own s act s'
  | task {f} :
    (s.queue own).tmpVec = f :: (s'.queue own).tmpVec →
    (s'.queue own).taskVec = (s.queue own).taskVec →
    s'.ran own = s.ran own ++ [f] → Moves own s act s'
  | finish :
    s'.queue own = s.queue own → (s.queue own).tmpVec = [] → s'.stack own = [] → Moves own s act s'

theorem moves (own : θ) (e : Connection.Step cfg own base s.toState act c') :
    Moves own s act (s.after act c') := by
  cases e
  case queue t f rest hs =>
    by_cases hf : f.home own base = own
    case pos => exact .push rfl hs (by simp [State.after, State.resume, State.setQueue, hf]) rfl
    case neg => exact .same (by simp [State.after, State.resume, State.setQueue, Ne.symm hf]) rfl
  case swap t hp hs =>
    by_cases ht : own = t
    case pos =>
      subst ht
      exact .swap (by simp [State.after, State.setPhase, State.setQueue]) rfl hs
    case neg => exact .same (by simp [State.after, State.setPhase, State.setQueue, ht]) rfl
  case task t f tasks hp hs hq =>
    by_cases ht : own = t
    case pos =>
      subst ht
      refine .task (f := f) ?_ ?_ ?_ <;> simp [State.after, State.resume, State.setQueue, hq]
    case neg => refine .same ?_ ?_ <;> simp [State.after, State.resume, State.setQueue, ht]
  case finish t hp hs hq =>
    by_cases ht : own = t
    case pos =>
      subst ht
      exact .finish rfl hq hs
    case neg => refine .same ?_ ?_ <;> simp [State.after, State.setPhase, ht]
  all_goals exact .same rfl rfl

structure Invariant (own base : θ) (s : State θ) : Prop where
  placed  : Placed own base s.toState
  batched : Batched s.toState
  queued  : (∃ f ∈ (s.queue own).taskVec, f.shared = false) →
    Ahead base s.toState (s.queue own).taskVec
  taken   : (∃ code ∈ s.stack own, Bare own code) ∨ (∃ f ∈ (s.queue own).tmpVec, f.shared = false) →
    Ahead base s.toState (s.ran own ++ (s.queue own).pending)

namespace Invariant

theorem step_queued (h : Invariant own base s) (hk : KeepsOwner own base s (.step act))
    (e : Connection.Step cfg own base s.toState act c')
    (hf : ∃ f ∈ (c'.queue own).taskVec, f.shared = false) :
    Ahead base c' (c'.queue own).taskVec := by
  have hd : ∀ t rest, act = .exec t .none → s.stack t = .queue .destroyConnection :: rest →
      .destroyConnection ∈ (c'.queue own).taskVec :=
    fun t rest ha hs => destroy_pushed e ha hs
  have hsame : (c'.queue own).taskVec = (s.queue own).taskVec →
      Ahead base c' (c'.queue own).taskVec := by
    intro hq
    exact (h.queued (hq ▸ hf)).step h.placed e (fun f hm _ => hq ▸ hm) hd
  cases moves own e
  case same hq _      => exact hsame (congrArg TaskQueue.taskVec hq)
  case task hq _      => exact hsame hq
  case finish hq _ _  => exact hsame (congrArg TaskQueue.taskVec hq)
  case swap hq _ _ =>
    have hq : (c'.queue own).taskVec = [] := congrArg TaskQueue.taskVec hq
    simp [hq] at hf
  case push t answer f₀ rest ha hs hq _ =>
    have hq : (c'.queue own).taskVec = (s.queue own).taskVec ++ [f₀] :=
      congrArg TaskQueue.taskVec hq
    have hpre : Ahead base s.toState (s.queue own).taskVec := by
      have ⟨f, hm, hf⟩ := hf
      rw [hq, List.mem_append, List.mem_singleton] at hm
      cases hm
      case inl hm => exact h.queued ⟨f, hm, hf⟩
      case inr hm =>
        subst ha hm
        simp only [KeepsOwner, hs, hf, Bool.false_eq_true, false_or] at hk
        exact hk
    exact hpre.step h.placed e (fun f hm _ => hq ▸ List.mem_append_left _ hm) hd

theorem step_taken (h : Invariant own base s) (e : Connection.Step cfg own base s.toState act c')
    (hf : (∃ code ∈ c'.stack own, Bare own code) ∨ ∃ f ∈ (c'.queue own).tmpVec, f.shared = false) :
    Ahead base c' ((s.after act c').ran own ++ (c'.queue own).pending) := by
  have hd : ∀ t rest, act = .exec t .none → s.stack t = .queue .destroyConnection :: rest →
      .destroyConnection ∈ (s.after act c').ran own ++ (c'.queue own).pending :=
    fun t rest ha hs => List.mem_append_right _ (List.mem_append_right _ (destroy_pushed e ha hs))
  have hsub : (∀ f ∈ (c'.queue own).tmpVec, f ∈ (s.queue own).tmpVec) →
      (∀ f ∈ s.ran own ++ (s.queue own).pending, f.shared →
        f ∈ (s.after act c').ran own ++ (c'.queue own).pending) →
      Ahead base c' ((s.after act c').ran own ++ (c'.queue own).pending) := by
    intro ht hs
    refine (h.taken ?_).step h.placed e hs hd
    obtain ⟨code, hm, hb⟩ | ⟨f, hm, hf⟩ := hf
    · exact bare_step e hm hb
    · exact .inr ⟨f, ht f hm, hf⟩
  cases moves own e
  case same hq hr =>
    have hq : c'.queue own = s.queue own := hq
    exact hsub (fun f hm => hq ▸ hm) (fun f hm _ => hr ▸ hq ▸ hm)
  case push f₀ _ _ _ hq hr =>
    have hq : c'.queue own = (s.queue own).push f₀ := hq
    refine hsub (fun f hm => by rwa [hq] at hm) fun f hm _ => ?_
    rw [hr, hq, TaskQueue.push_pending, ← List.append_assoc]
    exact List.mem_append_left _ hm
  case task f₀ ht hq hr =>
    have ht : (s.queue own).tmpVec = f₀ :: (c'.queue own).tmpVec := ht
    have hq : (c'.queue own).taskVec = (s.queue own).taskVec := hq
    refine hsub (fun f hm => ht ▸ List.mem_cons_of_mem _ hm) fun f hm _ => ?_
    rw [TaskQueue.pending, ht] at hm
    rw [hr, TaskQueue.pending, hq]
    simpa [or_assoc] using hm
  case swap hq _ hs =>
    have hq : c'.queue own = (s.queue own).swap := hq
    have hs : c'.stack own = [] := hs
    simp only [hs, List.not_mem_nil, false_and, exists_false, false_or, hq] at hf
    refine (h.queued hf).step h.placed e (fun f hm _ => List.mem_append_right _ ?_) hd
    rw [hq]
    exact List.mem_append_left _ hm
  case finish hq ht hs =>
    have hq : c'.queue own = s.queue own := hq
    have hs : c'.stack own = [] := hs
    simp [hs, hq, ht] at hf

theorem step {act : Act θ} (h : Invariant own base s) (hk : KeepsOwner own base s act)
    (e : Step cfg own base s act s') : Invariant own base s' := by
  cases e
  case hold | drop => exact ⟨h.placed, h.batched, h.queued, h.taken⟩
  case step e =>
    exact ⟨h.placed.step e, h.batched.step e, h.step_queued hk e, h.step_taken e⟩

theorem initial (h : Initial own s) : Invariant own base s where
  placed  := h.initial.placed
  batched := .of_empty h.initial.queue
  queued  := by simp [h.initial.queue, TaskQueue.empty]
  taken   := by
    intro hf
    simp [h.initial.queue, TaskQueue.empty, h.initial.stack, Bare] at hf

omit [DecidableEq θ] in
theorem owned (h : Invariant own base s) (hf : ∃ code ∈ s.stack own, Bare own code) : s.Owned := by
  obtain hm | hm | ⟨f, hm, hs⟩ := h.taken (.inl hf)
  · exact .inl (.inl hm)
  · exact .inl (.inr (.inl ⟨base, _, hm, rfl⟩))
  · cases List.mem_append.mp hm
    case inl hm => exact .inr (.inl ⟨own, f, hm, hs⟩)
    case inr hm => exact .inl (.inr (.inr ⟨own, f, hm, hs⟩))

end Invariant

theorem owned_of_keepsOwner {s₀ : State θ} (h : Initial own s₀) :
    ∀ acts s, Steps (Steps.When (KeepsOwner own base) (Step cfg own base)) s₀ acts s →
      ∀ t, ∀ code ∈ s.stack t, Bare own code → s.Owned := by
  intro acts s e t code hm hb
  have hi := e.invariant (P := Invariant own base) (fun h e => h.step e.left e.right) (.initial h)
  have ht : t = own := by
    have hh := hi.placed.home.code t code hm
    cases code
    case task f => cases f <;> first | exact hh | contradiction
    all_goals contradiction
  exact hi.owned ⟨code, ht ▸ hm, hb⟩

theorem owned_of_push_before_destroy :
    ∃ s, Steps (Steps.When (KeepsOwner false false) (Step ⟨true, true, true, true⟩ false false))
      (State.new false 8 5 : State Bool)
      [.step (.exec false .none), .hold true, .step (.exec false .none), .step (.swap false),
        .step (.finish false), .step (.poll false (some Events.POLLHUP)),
        .step (.call true (.send [1])),
        .step (.exec true .none), .drop true, .step (.dispatch false), .step (.exec false .none),
        .step (.exec false .none), .step (.exec false .none), .step (.exec false .none),
        .step (.exec false .none), .step (.exec false .none), .step (.swap false),
        .step (.task false)] s ∧
      s.stack false = [.task (.sendInLoop [1] true)] ∧ s.mapped = false ∧ s.Owned := by
  have ⟨s, e, hs, hm⟩ : ∃ s, Steps (Steps.When (KeepsOwner false false)
        (Step ⟨true, true, true, true⟩ false false)) (State.new false 8 5 : State Bool)
      [.step (.exec false .none), .hold true, .step (.exec false .none), .step (.swap false),
        .step (.finish false), .step (.poll false (some Events.POLLHUP)),
        .step (.call true (.send [1])),
        .step (.exec true .none), .drop true, .step (.dispatch false), .step (.exec false .none),
        .step (.exec false .none), .step (.exec false .none), .step (.exec false .none),
        .step (.exec false .none), .step (.exec false .none), .step (.swap false),
        .step (.task false)] s ∧
      s.stack false = [.task (.sendInLoop [1] true)] ∧ s.mapped = false := by
    refine ⟨_, (Steps.of_isSome ?_).mono fun hg => (Steps.of_guard hg).imp id State.step_sound, ?_⟩
    all_goals decide +kernel
  have hb : Bare false (.task (.sendInLoop [1] true)) := Bool.noConfusion
  exact ⟨s, e, hs, hm, owned_of_keepsOwner State.new_initial _ s e false _
    (hs ▸ List.mem_cons_self) hb⟩

-- A thread has tested the state in `send` when the peer closes the connection. Its task is pushed
-- while `destroyConnection` is run, and the pointer is dropped: the next batch runs the task on a
-- connection that has been released.
theorem not_owned_of_late_push :
    ∃ s, Steps (Step ⟨true, true, true, true⟩ false false) (State.new false 8 5 : State Bool)
      [.step (.exec false .none), .hold true, .step (.exec false .none),
        .step (.call true (.send [1])),
        .step (.swap false), .step (.finish false), .step (.poll false (some Events.POLLHUP)),
        .step (.dispatch false), .step (.exec false .none), .step (.exec false .none),
        .step (.exec false .none), .step (.exec false .none), .step (.exec false .none),
        .step (.exec false .none), .step (.swap false), .step (.task false),
        .step (.exec true .none),
        .drop true, .step (.exec false .none), .step (.exec false .none), .step (.finish false),
        .step (.poll false none), .step (.swap false), .step (.task false)] s ∧
      s.stack false = [.task (.sendInLoop [1] true)] ∧ ¬s.Owned := by
  refine ⟨_, (Steps.of_isSome ?_).mono State.step_sound, ?_⟩
  all_goals decide +kernel

end Bounce.Connection.Ownership
