import Bounce.Execution.Connection.Theorems.Runs

namespace Bounce.Connection

variable {θ : Type} [DecidableEq θ] {cfg : Callbacks} {own base : θ} {s s' : State θ} {act : Act θ}

structure Everywhere (C : θ → Code θ → Prop) (Q : θ → Task θ → Prop) (s : State θ) : Prop where
  code : ∀ t, ∀ code ∈ s.stack t, C t code
  task : ∀ t, ∀ task ∈ (s.queue t).pending, Q t task

structure Passes (cfg : Callbacks) (own base : θ) (s : State θ) (act : Act θ) (s' : State θ)
    (C C' : θ → Code θ → Prop) (Q Q' : θ → Task θ → Prop) : Prop where
  code     : ∀ t code, C t code → C' t code
  task     : ∀ t task, Q t task → Q' t task
  call     : ∀ t api, act = .call t api → ∀ code ∈ (s.conn.call own t api).2, C' t code
  run      : ∀ t code rest answer r, act = .exec t answer → s'.conn = r.1 →
    s.stack t = code :: rest → C t code →
    s.conn.run cfg base t code answer = some r → ∀ code' ∈ r.2, C' t code'
  queue    : ∀ t task rest, s.stack t = .queue task :: rest → C t (.queue task) →
    Q' (task.home own base) task
  remove   : ∀ t rest, s.stack t = .task .removeConnectionInLoop :: rest →
    C t (.task .removeConnectionInLoop) → C' t (.queue .destroyConnection)
  dispatch : ∀ t revents, s.phase t = .dispatch (some revents) →
    ∀ code ∈ handleChannel revents, C' t code
  start    : ∀ t task, Q t task → C' t (.task task)

variable {C C' : θ → Code θ → Prop} {Q Q' : θ → Task θ → Prop}

theorem mem_resume {t t' : θ} {r : Connection θ × List (Code θ)} {rest : List (Code θ)}
    {code : Code θ}
    (h : code ∈ (s.resume t r rest).stack t') :
    (t' = t ∧ (code ∈ r.2 ∨ code ∈ rest)) ∨ (t' ≠ t ∧ code ∈ s.stack t') := by
  by_cases ht : t' = t
  case pos => exact .inl ⟨ht, by simpa [State.resume, ht] using h⟩
  case neg => exact .inr ⟨ht, by simpa [State.resume, ht] using h⟩

theorem Everywhere.resume {t : θ} {r : Connection θ × List (Code θ)} {rest : List (Code θ)}
    (h : ∀ t, ∀ code ∈ s.stack t, C t code) (hr : ∀ code ∈ r.2, C t code)
    (hs : ∀ code ∈ rest, C t code) :
    ∀ t', ∀ code ∈ (s.resume t r rest).stack t', C t' code := by
  intro t' code hm
  obtain ⟨rfl, hm | hm⟩ | ⟨_, hm⟩ := mem_resume hm
  · exact hr code hm
  · exact hs code hm
  · exact h t' code hm

theorem Everywhere.setQueue {t : θ} {q : TaskQueue (Task θ)}
    (h : ∀ t, ∀ task ∈ (s.queue t).pending, Q t task) (hq : ∀ task ∈ q.pending, Q t task) :
    ∀ t', ∀ task ∈ ((s.setQueue t q).queue t').pending, Q t' task := by
  intro t' task hm
  by_cases ht : t' = t
  case pos =>
    subst ht
    exact hq task (by simpa [State.setQueue] using hm)
  case neg => exact h t' task (by simpa [State.setQueue, ht] using hm)

theorem Everywhere.step (h : Everywhere C Q s) (e : Step cfg own base s act s')
    (hp : Passes cfg own base s act s' C C' Q Q') : Everywhere C' Q' s' := by
  have hc : ∀ t, ∀ code ∈ s.stack t, C' t code := fun t code hm => hp.code t code (h.code t code hm)
  have hq : ∀ t, ∀ task ∈ (s.queue t).pending, Q' t task :=
    fun t task hm => hp.task t task (h.task t task hm)
  cases e
  case call t api _ _ => exact ⟨Everywhere.resume hc (hp.call t api rfl) (hc t), hq⟩
  case exec t code rest answer r hs hr =>
    have hm := hs ▸ h.code t
    refine ⟨Everywhere.resume hc ?_ ?_, hq⟩
    · exact hp.run t code rest answer r rfl rfl hs (hm code List.mem_cons_self) hr
    · exact fun code' hm' => hp.code t code' (hm code' (.tail _ hm'))
  case queue t task rest hs =>
    have hm := hs ▸ h.code t
    refine ⟨Everywhere.resume hc (by simp) ?_, Everywhere.setQueue hq ?_⟩
    · exact fun code' hm' => hp.code t code' (hm code' (.tail _ hm'))
    · intro task' hm'
      rw [TaskQueue.push_pending, List.mem_append, List.mem_singleton] at hm'
      cases hm'
      case inl hm' => exact hq _ task' hm'
      case inr hm' => exact hm' ▸ hp.queue t task rest hs (hm _ List.mem_cons_self)
  case remove t rest hs =>
    have hm := hs ▸ h.code t
    refine ⟨Everywhere.resume hc ?_ ?_, hq⟩
    · intro code' hm'
      have hm' : code' = .queue .destroyConnection := by
        by_cases hmap : s.mapped <;> simp_all
      exact hm' ▸ hp.remove t rest hs (hm _ List.mem_cons_self)
    · exact fun code' hm' => hp.code t code' (hm code' (.tail _ hm'))
  case poll => exact ⟨hc, hq⟩
  case dispatch t revents hph hs =>
    exact ⟨Everywhere.resume hc (hp.dispatch t revents hph) (by simp), hq⟩
  case swap t _ _ =>
    refine ⟨hc, Everywhere.setQueue hq ?_⟩
    intro task' hm'
    exact hq t task' (List.mem_append_right _
      (by simpa [TaskQueue.pending, TaskQueue.swap] using hm'))
  case task t task tasks hph hs ht =>
    have hm : ∀ task' ∈ task :: (tasks ++ (s.queue t).taskVec), Q t task' := by
      intro task' hm'
      exact h.task t task' (by simpa [TaskQueue.pending, ht] using hm')
    refine ⟨Everywhere.resume hc ?_ (by simp), Everywhere.setQueue hq ?_⟩
    · intro code hc'
      exact List.mem_singleton.mp hc' ▸ hp.start t task (hm task List.mem_cons_self)
    · intro task' hm'
      exact hp.task t task' (hm task' (.tail _ hm'))
  case finish => exact ⟨hc, hq⟩

-- The thread that a code belongs to. No code of another thread than the loop's one runs a task or a
-- handler, and no task of that thread is queued by itself.
def Code.Home (own base : θ) (t : θ) : Code θ → Prop
  | .task .connectComplete            => False
  | .task .removeConnectionInLoop     => t = base
  | .task _                           => t = own
  | .queue (.sendInLoop _ origin)     => t = origin ∧ t ≠ own
  | .queue (.shutdownInLoop origin)   => t = origin ∧ t ≠ own
  | .queue .forceCloseInLoop          => t ≠ own
  | .queue .connectComplete           => False
  | .queue .destroyConnection         => t = base
  | .queue _                          => t = own
  | .store .disconnecting             => True
  | .store .disconnected              => t = own
  | .store _                          => False
  | .user                             => True
  | _                                 => t = own

def Task.Home (own base : θ) (t : θ) : Task θ → Prop
  | .connectComplete        => False
  | .removeConnectionInLoop => t = base
  | .sendInLoop _ origin    => t = own ∧ origin ≠ own
  | .shutdownInLoop origin  => t = own ∧ origin ≠ own
  | _                       => t = own

structure Placed (own base : θ) (s : State θ) : Prop where
  home  : Everywhere (Code.Home own base) (Task.Home own base) s
  phase : ∀ t r, s.phase t = .dispatch (some r) → t = own

theorem Runs.home {t : θ} {c c' : Connection θ} {code : Code θ} {codes : List (Code θ)}
    {answer : Answer} (hr : Runs cfg base t c code answer c' codes) (h : code.Home own base t) :
    ∀ code' ∈ codes, code'.Home own base t := by
  intro code' hm
  cases hr.leaves code' hm
  case connect              => exact h.elim
  case user | writeComplete => trivial
  case removal ht           => exact ht
  all_goals exact h

theorem Calls.home {t : θ} {c c' : Connection θ} {api : Api} {codes : List (Code θ)}
    (hc : Calls own t c api c' codes) : ∀ code ∈ codes, code.Home own base t := by
  intro code hm
  cases hc.puts code hm
  case pushSend ht | pushShutdown ht           => exact ⟨rfl, ht⟩
  case pushForceClose ht                       => exact ht
  case send ht | shutdown ht | forceClose ht   => exact ht
  case store                                   => trivial

theorem setPhase_dispatch {t t' : θ} {p : Phase} {r : Events}
    (h : (s.setPhase t p).phase t' = .dispatch (some r)) :
    (t' = t ∧ p = .dispatch (some r)) ∨ s.phase t' = .dispatch (some r) := by
  by_cases ht : t' = t
  case pos => exact .inl ⟨ht, by simpa [State.setPhase, ht] using h⟩
  case neg => exact .inr (by simpa [State.setPhase, ht] using h)

omit [DecidableEq θ] in
theorem Task.Home.start {t : θ} {f : Task θ} (h : f.Home own base t) :
    (Code.task f).Home own base t := by
  cases f
  case sendInLoop | shutdownInLoop => exact h.left
  all_goals exact h

theorem Placed.step (h : Placed own base s) (e : Step cfg own base s act s') :
    Placed own base s' where
  home := by
    refine h.home.step e ?_
    exact {
      code     := fun _ _ h => h
      task     := fun _ _ h => h
      call     := fun _ _ _ => (call_cases ..).home
      run      := fun _ _ _ _ _ _ _ _ h hr => (run_cases hr).home h
      queue    := by
        intro t task rest _ h
        cases task
        case sendInLoop | shutdownInLoop =>
          obtain ⟨rfl, hn⟩ := h
          exact ⟨rfl, hn⟩
        all_goals simp_all [Code.Home, Task.Home, Task.home]
      remove   := fun _ _ _ h => h
      dispatch := by
        intro t revents hp code hm
        have ht := h.phase t revents hp
        obtain rfl | rfl | rfl | rfl := mem_handleChannel hm <;> exact ht
      start    := fun _ _ h => h.start
    }
  phase t' r hp := by
    cases e
    case call | exec | queue | remove => exact h.phase t' r hp
    case task                         => exact h.phase t' r hp
    case poll hr =>
      cases setPhase_dispatch hp
      case inl hp =>
        obtain ⟨rfl, rfl⟩ := by simpa using hp
        exact (hr r rfl).left
      case inr hp => exact h.phase t' r hp
    case dispatch | finish =>
      cases setPhase_dispatch hp
      case inl hp => simp at hp
      case inr hp => exact h.phase t' r hp
    case swap =>
      have hp : (s.setPhase _ .tasks).phase t' = .dispatch (some r) := hp
      cases setPhase_dispatch hp
      case inl hp => simp at hp
      case inr hp => exact h.phase t' r hp

theorem Initial.placed (h : Initial own s) : Placed own base s where
  home := by
    constructor
    · intro t code hm
      rw [h.stack] at hm
      by_cases ht : t = own
      case pos => simp_all [Code.Home]
      case neg => simp_all
    · simp [h.queue, TaskQueue.pending, TaskQueue.empty]
  phase t r hp := absurd hp (h.phase t r)

-- The codes that are done as soon as they are on top of a stack: nothing is ever put on them.
def Code.Urgent (own : θ) : Code θ → Prop
  | .task (.sendInLoop _ _)      => True
  | .queue (.sendInLoop _ _)     => True
  | .task (.shutdownInLoop origin) => origin ≠ own
  | .handleClose forced          => forced
  | _                            => False

def Topped (own : θ) (s : State θ) : Prop :=
  ∀ t, ∀ code ∈ (s.stack t).tail, ¬code.Urgent own

theorem Runs.topped {t : θ} {c c' : Connection θ} {code : Code θ} {codes : List (Code θ)}
    {answer : Answer} (hr : Runs cfg base t c code answer c' codes) :
    ∀ code' ∈ codes.tail, ¬code'.Urgent own := by
  cases hr
  case sendInLoop => split <;> simp
  case handleWrite =>
    split
    case isTrue  => split <;> simp [Code.Urgent]
    case isFalse => simp
  all_goals simp [Code.Urgent]

theorem Calls.topped {t : θ} {c c' : Connection θ} {api : Api} {codes : List (Code θ)}
    (hc : Calls own t c api c' codes) : ∀ code ∈ codes.tail, ¬code.Urgent own := by
  cases hc
  case shutdown | forceClose => by_cases ht : t = own <;> simp [doTaskInThread, Code.Urgent, ht]
  all_goals simp

theorem Topped.resume {t : θ} {r : Connection θ × List (Code θ)} {rest : List (Code θ)}
    (h : Topped own s) (hr : ∀ code ∈ r.2.tail, ¬code.Urgent own)
    (hs : ∀ code ∈ rest, ¬code.Urgent own) : Topped own (s.resume t r rest) := by
  intro t' code hm
  by_cases ht : t' = t
  case neg => exact h t' code (by simpa [State.resume, ht] using hm)
  case pos =>
    have hm : code ∈ (r.2 ++ rest).tail := by simpa [State.resume, ht] using hm
    obtain ⟨c, codes⟩ := r
    cases codes
    case nil => exact hs code (List.mem_of_mem_tail hm)
    case cons =>
      cases List.mem_append.mp hm
      case inl hm => exact hr code hm
      case inr hm => exact hs code hm

omit [DecidableEq θ] in
theorem Topped.not_urgent {t : θ} (h : Topped own s) (hc : s.Callable t) :
    ∀ code ∈ s.stack t, ¬code.Urgent own := by
  intro code hm
  obtain hs | ⟨rest, hs⟩ := hc
  · simp [hs] at hm
  · rw [hs] at hm
    cases hm
    case head    => simp [Code.Urgent]
    case tail hm => exact h t code (by rwa [hs])

theorem Topped.step (h : Topped own s) (e : Step cfg own base s act s') : Topped own s' := by
  have ht : ∀ {t code rest}, s.stack t = code :: rest → ∀ code ∈ rest, ¬code.Urgent own := by
    intro t code rest hs code' hm
    exact h t code' (by rwa [hs])
  cases e
  case call hc => exact h.resume (call_cases ..).topped (h.not_urgent hc)
  case exec hs hr => exact h.resume (run_cases hr).topped (ht hs)
  case queue hs => exact Topped.resume (s := s.setQueue _ _) h (by simp) (ht hs)
  case remove hs =>
    refine Topped.resume (s := { s with mapped := false }) h ?_ (ht hs)
    split <;> simp
  case dispatch hp hs =>
    refine Topped.resume (s := s.setPhase _ _) h ?_ (by simp)
    intro code hm
    obtain rfl | rfl | rfl | rfl :=
      mem_handleChannel (List.mem_of_mem_tail hm) <;> simp [Code.Urgent]
  case task => exact Topped.resume (s := s.setQueue _ _) h (by simp) (by simp)
  case poll | swap | finish => exact h

theorem Initial.topped (h : Initial own s) : Topped own s := by
  intro t code hm
  rw [h.stack] at hm
  by_cases ht : t = own <;> simp_all

def under : List (Code θ) → List (Code θ)
  | .store .disconnecting :: _ :: rest => rest
  | _ :: rest                          => rest
  | []                                 => []

def Task.isShutdown : Task θ → Bool
  | .shutdownInLoop _ => true
  | _                 => false

def Code.isShutdown : Code θ → Bool
  | .task f | .queue f => f.isShutdown
  | _                  => false

-- A thread that has called `shutdown` makes no other call before it is done with this one.
def Tidy (s : State θ) : Prop :=
  ∀ t, ∀ code ∈ under (s.stack t), ¬code.isShutdown

omit [DecidableEq θ] in
theorem mem_of_mem_under {l : List (Code θ)} {code : Code θ} (h : code ∈ under l) :
    code ∈ l.tail := by
  rw [under.eq_def] at h
  split at h
  · exact .tail _ h
  · exact h
  · exact h

omit [DecidableEq θ] in
theorem under_cons {code : Code θ} {rest : List (Code θ)} (h : code ≠ .store .disconnecting) :
    under (code :: rest) = rest := by
  rw [under.eq_def]
  split
  case h_1 hl => exact absurd (List.cons.inj hl).left h
  case h_2 hl => exact (List.cons.inj hl).right.symm
  case h_3 hl => contradiction

omit [DecidableEq θ] in
theorem Tidy.callable {t : θ} (h : Tidy s) (hc : s.Callable t) :
    ∀ code ∈ s.stack t, ¬code.isShutdown := by
  intro code hm
  obtain hs | ⟨rest, hs⟩ := hc
  · simp [hs] at hm
  · rw [hs] at hm
    cases hm
    case head    => simp [Code.isShutdown]
    case tail hm => exact h t code (by rwa [hs, under_cons (by simp)])

omit [DecidableEq θ] in
theorem Tidy.rest {t : θ} {code : Code θ} {rest : List (Code θ)} (h : Tidy s)
    (hs : s.stack t = code :: rest) (hc : code ≠ .store .disconnecting) :
    ∀ code ∈ rest, ¬code.isShutdown := by
  intro code' hm
  exact h t code' (by rwa [hs, under_cons hc])

theorem Tidy.resume {t : θ} {r : Connection θ × List (Code θ)} {rest : List (Code θ)} (h : Tidy s)
    (hr : ∀ code ∈ under (r.2 ++ rest), ¬code.isShutdown) : Tidy (s.resume t r rest) := by
  intro t' code hm
  by_cases ht : t' = t
  case pos => exact hr code (by simpa [State.resume, ht] using hm)
  case neg => exact h t' code (by simpa [State.resume, ht] using hm)

theorem Tidy.exec {t : θ} {code : Code θ} {codes rest : List (Code θ)} {c : Connection θ}
    (h : Tidy s)
    (hs : s.stack t = code :: rest) (hn : ∀ code ∈ codes, ¬code.isShutdown)
    (he : code = .store .disconnecting → codes = []) : Tidy (s.resume t (c, codes) rest) := by
  refine h.resume fun code' hm => ?_
  by_cases hc : code = .store .disconnecting
  case neg =>
    cases List.mem_append.mp (List.mem_of_mem_tail (mem_of_mem_under hm))
    case inl hm => exact hn code' hm
    case inr hm => exact h.rest hs hc code' hm
  case pos =>
    rw [he hc, List.nil_append] at hm
    refine h t code' ?_
    have hm := mem_of_mem_under hm
    cases rest
    case nil  => simp at hm
    case cons => simpa [hs, hc, under] using hm

theorem Runs.not_shutdown {t : θ} {c c' : Connection θ} {code : Code θ} {codes : List (Code θ)}
    {answer : Answer} (hr : Runs cfg base t c code answer c' codes) :
    ∀ code ∈ codes, ¬code.isShutdown := by
  intro code' hm
  cases hr.leaves code' hm <;> exact Bool.false_ne_true

theorem Tidy.call {t : θ} {c c' : Connection θ} {api : Api} {codes : List (Code θ)} (h : Tidy s)
    (hc : s.Callable t) (hr : Calls own t c api c' codes) :
    Tidy (s.resume t (c', codes) (s.stack t)) := by
  have hn := h.callable hc
  refine h.resume fun code hm => ?_
  cases hr
  case shutdown | forceClose => exact hn code hm
  case send =>
    have hm := mem_of_mem_under hm
    exact hn code hm
  all_goals exact hn code (List.mem_of_mem_tail (mem_of_mem_under hm))

theorem Tidy.step (h : Tidy s) (e : Step cfg own base s act s') : Tidy s' := by
  cases e
  case call hc => exact h.call hc (call_cases ..)
  case exec r hs hr =>
    have hr := run_cases hr
    refine h.exec hs hr.not_shutdown ?_
    rintro rfl
    obtain ⟨c, codes⟩ := r
    cases hr
    rfl
  case queue hs => exact Tidy.exec (s := s.setQueue _ _) h hs (by simp) (by simp)
  case remove hs =>
    refine Tidy.exec (s := { s with mapped := false }) h hs ?_ (by simp)
    split <;> simp [Code.isShutdown, Task.isShutdown]
  case dispatch t revents _ hs =>
    refine Tidy.resume (s := s.setPhase _ _) h fun code hm => ?_
    have hm := mem_of_mem_under hm
    rw [List.append_nil] at hm
    obtain rfl | rfl | rfl | rfl :=
      mem_handleChannel (List.mem_of_mem_tail hm) <;> simp [Code.isShutdown]
  case task =>
    refine Tidy.resume (s := s.setQueue _ _) h fun code hm => ?_
    simpa using mem_of_mem_under hm
  case poll | swap | finish => exact h

theorem Initial.tidy (h : Initial own s) : Tidy s := by
  intro t code hm
  have hm := mem_of_mem_under hm
  rw [h.stack] at hm
  by_cases ht : t = own <;> simp_all

def Batched (s : State θ) : Prop :=
  ∀ t, s.phase t ≠ .tasks → (s.queue t).tmpVec = []

theorem Batched.step (h : Batched s) (e : Step cfg own base s act s') : Batched s' := by
  intro t' hp
  have hb := h t'
  cases e
  case call | exec | remove => exact hb hp
  case queue f _ _ =>
    have hb := hb hp
    by_cases ht : t' = f.home own base <;>
      simp_all [State.resume, State.setQueue, TaskQueue.push]
  case task t f tasks ht _ _ =>
    have htt : t' ≠ t := fun he => hp (he ▸ ht)
    simpa [State.resume, State.setQueue, htt] using hb hp
  case poll t ready ht _ _ =>
    by_cases htt : t' = t
    case pos => exact htt ▸ h t (by simp [ht])
    case neg => exact hb (by simpa [State.setPhase, htt] using hp)
  case dispatch t revents ht _ =>
    by_cases htt : t' = t
    case pos => exact htt ▸ h t (by simp [ht])
    case neg => exact hb (by simpa [State.resume, State.setPhase, htt] using hp)
  case swap t _ _ =>
    have htt : t' ≠ t := fun he => hp (by simp [State.setPhase, State.setQueue, he])
    have hp : s.phase t' ≠ .tasks := by simpa [State.setPhase, State.setQueue, htt] using hp
    simpa [State.setPhase, State.setQueue, htt] using hb hp
  case finish t _ _ ht =>
    by_cases htt : t' = t
    case pos => exact htt ▸ ht
    case neg => exact hb (by simpa [State.setPhase, htt] using hp)

omit [DecidableEq θ] in
theorem Batched.of_empty (h : s.queue = fun _ => .empty) : Batched s := by
  intro t _
  rw [h]
  rfl

end Bounce.Connection
