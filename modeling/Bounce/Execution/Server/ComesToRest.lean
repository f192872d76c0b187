import Mathlib.Algebra.BigOperators.Group.Finset.Basic
import Bounce.Execution.Connection.Theorems.Unset
import Bounce.Execution.Server.AtRest

namespace Bounce

namespace Connection

variable {θ : Type} [DecidableEq θ] {cfg : Callbacks} {own base t : θ} {c c' : Connection θ}
variable {code : Code θ}
variable {codes : List (Code θ)} {answer : Answer} {api : Api}

-- The steps that a code, or a task, leads to at most, if nothing else happens.
def Task.work : Task θ → Nat
  | .connectComplete        => 3
  | .sendInLoop _ _         => 5
  | .shutdownInLoop _       => 1
  | .forceCloseInLoop       => 15
  | .writeComplete          => 2
  | .removeConnectionInLoop => 8
  | .destroyConnection      => 5

def Code.work : Code θ → Nat
  | .task f        => f.work
  | .queue f       => f.work + 2
  | .handleClose _ => 14
  | .handleError   => 3
  | .handleRead    => 15
  | .handleWrite   => 6
  | .callback _ _  => 2
  | .closeCb       => 11
  | .store _ | .checkState | .removeChannel | .user | .badFunctionCall => 1

def work (codes : List (Code θ)) : Nat :=
  (codes.map Code.work).sum

omit [DecidableEq θ] in
@[simp]
theorem work_nil : work ([] : List (Code θ)) = 0 :=
  rfl

omit [DecidableEq θ] in
@[simp]
theorem work_cons : work (code :: codes) = code.work + work codes :=
  List.sum_cons

omit [DecidableEq θ] in
theorem work_append {codes' : List (Code θ)} :
    work (codes ++ codes') = work codes + work codes' := by
  simp [work]

theorem doTaskInThread_work {f : Task θ} {n : Nat} (h : f.work ≤ n) (loop t : θ) :
    (doTaskInThread loop t f).work ≤ n + 2 := by
  rw [doTaskInThread]
  split
  case isTrue  => exact Nat.le_add_right_of_le h
  case isFalse => exact Nat.add_le_add_right h 2

theorem Runs.work (hr : Runs cfg base t c code answer c' codes) : work codes + 1 ≤ code.work := by
  cases hr
  case sendInLoop =>
    split <;> simp [Code.work, Task.work]
  case handleWrite =>
    split
    case isFalse => simp [Code.work]
    case isTrue  => split <;> simp [Code.work, Task.work]
  case closeCb =>
    have h := doTaskInThread_work (f := .removeConnectionInLoop) (Nat.le_refl 8) base t
    rw [work_cons, work_nil]
    exact Nat.succ_le_succ h
  all_goals simp [Code.work, Task.work]

theorem Calls.work (hc : Calls own t c api c' codes) : work codes ≤ 18 := by
  cases hc
  case send message _ =>
    have h := doTaskInThread_work (f := .sendInLoop message t) (Nat.le_refl 5) own t
    exact h.trans (by decide)
  case shutdown =>
    have h := doTaskInThread_work (f := .shutdownInLoop t) (Nat.le_refl 1) own t
    exact (Nat.add_le_add_left h 1).trans (by decide)
  case forceClose =>
    have h := doTaskInThread_work (f := .forceCloseInLoop) (Nat.le_refl 15) own t
    exact (Nat.add_le_add_left h 1).trans (by decide)
  all_goals exact Nat.zero_le _

omit [DecidableEq θ] in
theorem handleChannel_work (revents : Events) :
    work (handleChannel revents : List (Code θ)) ≤ 38 := by
  simp only [handleChannel, work_append]
  split <;> split <;> split <;> split <;> simp [Code.work]

theorem exists_run (base t : θ) (c : Connection θ) (h : code.Good cfg) :
    (∃ f, code = .queue f) ∨ code = .task .removeConnectionInLoop ∨
      ∃ answer, (c.run cfg base t code answer).isSome := by
  cases code
  case queue f         => exact .inl ⟨f, rfl⟩
  case badFunctionCall => contradiction
  case task f =>
    cases f
    case removeConnectionInLoop => exact .inr (.inl rfl)
    case sendInLoop =>
      refine .inr (.inr ⟨.sent ⟨0, .other⟩, ?_⟩)
      rw [run, runTask, if_pos (Int.natCast_nonneg _)]
      rfl
    case destroyConnection =>
      refine .inr (.inr ⟨.none, ?_⟩)
      rw [run, runTask]
      split <;> rfl
    all_goals exact .inr (.inr ⟨.none, rfl⟩)
  case handleRead => exact .inr (.inr ⟨.read (.received []), rfl⟩)
  case handleWrite =>
    refine .inr (.inr ⟨.sent ⟨0, .other⟩, ?_⟩)
    rw [run, if_pos (Int.natCast_nonneg _)]
    rfl
  case checkState | callback =>
    refine .inr (.inr ⟨.none, ?_⟩)
    rw [run]
    split <;> rfl
  all_goals exact .inr (.inr ⟨.none, rfl⟩)

theorem Fresh.good {s : State θ} (h : Fresh own base s) : Good cfg s where
  code t code hm := by
    obtain hn | hq | hq := h.stack t
    · rw [hn] at hm
      contradiction
    · rw [hq, List.mem_singleton] at hm
      exact hm ▸ trivial
    · rw [hq, List.mem_singleton] at hm
      exact hm ▸ trivial
  task _ _ _ := trivial

end Connection

namespace Server

open Connection (Code work)
open Tagged

variable {θ : Type} [DecidableEq θ] {cfg : Callbacks} {initSize : Nat} {base t : θ} {s s' : State θ}
variable {act : Act θ}
variable {acts : List (Act θ)} {c : Nat}

def Act.works : Act θ → Nat
  | .exec _ _ | .dispatch _ | .task _ => 1
  | _                                 => 0

def Act.load : Act θ → Nat
  | .accept _ _   => 5
  | .call _ _ _   => 18
  | .poll _ batch => 39 * batch.length
  | _             => 0

def Phase.work : Phase → Nat
  | .dispatch batch => 39 * batch.length
  | _               => 0

def stackWork (l : List (Nat × Code θ)) : Nat :=
  work (l.map (·.2))

def queueWork (q : TaskQueue (Nat × Connection.Task θ)) : Nat :=
  (q.pending.map fun x => x.2.work + 1).sum

def State.work [Fintype θ] (s : State θ) : Nat :=
  ∑ t, stackWork (s.stack t) + ∑ t, queueWork (s.queue t) + ∑ t, (s.phase t).work

theorem sum_update {α : Type} [Fintype θ] (g : α → Nat) (f : θ → α) (t : θ) (x : α) :
    ∑ t', g (Function.update f t x t') + g (f t) = ∑ t', g (f t') + g x := by
  rw [← Finset.add_sum_erase _ _ (Finset.mem_univ t),
    ← Finset.add_sum_erase _ (fun t' => g (f t')) (Finset.mem_univ t)]
  have h : ∑ t' ∈ Finset.univ.erase t, g (Function.update f t x t') =
      ∑ t' ∈ Finset.univ.erase t, g (f t') :=
    Finset.sum_congr rfl fun t' ht => by rw [Function.update_of_ne (Finset.ne_of_mem_erase ht)]
  rw [h, Function.update_self]
  omega

section Work

variable [Fintype θ]

theorem work_resume {r : Connection θ × List (Code θ)} (rest : List (Nat × Code θ)) :
    (s.resume t c r rest).work + stackWork (s.stack t) = s.work + (work r.2 + stackWork rest) := by
  have h := sum_update stackWork s.stack t (tag c r.2 ++ rest)
  have hs : stackWork (tag c r.2 ++ rest) = work r.2 + stackWork rest := by
    simp [stackWork, tag, Connection.work_append]
  simp only [State.work, State.resume]
  omega

theorem work_setPhase {p : Phase} : (s.setPhase t p).work + (s.phase t).work = s.work + p.work := by
  have h := sum_update Phase.work s.phase t p
  simp only [State.work, State.setPhase]
  omega

theorem work_setQueue {q : TaskQueue (Nat × Connection.Task θ)} :
    (s.setQueue t q).work + queueWork (s.queue t) = s.work + queueWork q := by
  have h := sum_update queueWork s.queue t q
  simp only [State.work, State.setQueue]
  omega

omit [DecidableEq θ] [Fintype θ] in
theorem queueWork_swap_le (q : TaskQueue (Nat × Connection.Task θ)) :
    queueWork q.swap ≤ queueWork q := by
  simp [queueWork, TaskQueue.pending, TaskQueue.swap]

omit [DecidableEq θ] [Fintype θ] in
theorem stackWork_cons {code : Code θ} {l : List (Nat × Code θ)} :
    stackWork ((c, code) :: l) = code.work + stackWork l :=
  Connection.work_cons

omit [DecidableEq θ] in
theorem work_removeConnectionInLoop (s : State θ) (c : Nat) :
    (s.removeConnectionInLoop c).1.work = s.work ∧ work (s.removeConnectionInLoop c).2 ≤ 7 := by
  rw [State.removeConnectionInLoop]
  split
  case h_1 => exact ⟨rfl, Nat.le_refl 7⟩
  case h_2 => exact ⟨rfl, Nat.zero_le 7⟩

-- Every step of a thread is paid for by what it has to do, and this comes from outside only.
theorem work_step (e : Step cfg initSize base s act s') :
    s'.work + act.works ≤ s.work + act.load := by
  cases e
  case accept loop fd _ hs _ _ =>
    have h :=
      sum_update stackWork s.stack base
        [(s.created, Connection.doTaskInThread loop base .connectComplete)]
    have hw := Connection.doTaskInThread_work (f := .connectComplete) (Nat.le_refl 3) loop base
    rw [hs, stackWork_cons] at h
    simp only [State.work, State.newConnection, Act.works, Act.load]
    simp [stackWork] at h ⊢
    omega
  case hold | drop => exact Nat.le_refl _
  case call t c api _ _ _ =>
    have h :=
      work_resume (s := s) (t := t) (c := c) (r := (s.conn c).call (s.loop c) t api) (s.stack t)
    have hw := (Connection.call_cases (s.loop c) t (s.conn c) api).work
    simp only [Act.works, Act.load]
    omega
  case exec t c code rest answer r hs hr =>
    have h := work_resume (s := s) (t := t) (c := c) (r := r) rest
    have hw := (Connection.run_cases hr).work
    rw [hs, stackWork_cons] at h
    simp only [Act.works, Act.load]
    omega
  case queue t c f rest hs =>
    have h :=
      work_resume (s := s.setQueue (f.home (s.loop c) base)
        ((s.queue (f.home (s.loop c) base)).push (c, f)))
      (t := t) (c := c) (r := (s.conn c, [])) rest
    have hq := work_setQueue (s := s) (t := f.home (s.loop c) base)
      (q := (s.queue (f.home (s.loop c) base)).push (c, f))
    have hp : queueWork ((s.queue (f.home (s.loop c) base)).push (c, f)) =
        queueWork (s.queue (f.home (s.loop c) base)) + (f.work + 1) := by
      simp [queueWork, TaskQueue.push_pending]
    have hst : (s.setQueue (f.home (s.loop c) base)
        ((s.queue (f.home (s.loop c) base)).push (c, f))).stack t =
        (c, .queue f) :: rest := hs
    rw [hst, stackWork_cons, Connection.work_nil] at h
    simp only [Act.works, Act.load, Code.work] at h ⊢
    omega
  case remove t c rest hs =>
    obtain ⟨hr, hw⟩ := work_removeConnectionInLoop s c
    have h := work_resume (s := (s.removeConnectionInLoop c).1) (t := t) (c := c)
      (r := (s.conn c, (s.removeConnectionInLoop c).2)) rest
    rw [(State.removeConnectionInLoop_frame (s := s) (c := c)).right, hs, stackWork_cons] at h
    simp only [Act.works, Act.load, Code.work, Connection.Task.work] at h ⊢
    omega
  case poll t batch hp _ _ _ =>
    have h := work_setPhase (s := s) (t := t) (p := .dispatch batch)
    simp only [Act.works, Act.load, Phase.work] at h ⊢
    omega
  case dispatch t c revents batch hp hs =>
    have h := work_resume (s := s.setPhase t (.dispatch batch)) (t := t) (c := c)
      (r := (s.conn c, Connection.handleChannel revents)) []
    have hf := work_setPhase (s := s) (t := t) (p := .dispatch batch)
    have hw := Connection.handleChannel_work (θ := θ) revents
    rw [hp] at hf
    simp only [Act.works, Act.load, Phase.work, List.length_cons, stackWork, List.map_nil,
      Connection.work_nil] at h hf ⊢
    omega
  case swap t hp hs =>
    have h := work_setQueue (s := s.setPhase t .tasks) (t := t) (q := (s.queue t).swap)
    have hf := work_setPhase (s := s) (t := t) (p := .tasks)
    have hw := queueWork_swap_le (s.queue t)
    have hq : queueWork ((s.setPhase t .tasks).queue t) = queueWork (s.queue t) := rfl
    simp only [Act.works, Act.load, Phase.work] at hf ⊢
    omega
  case task t c f tasks hp hs hq =>
    have h := work_resume (s := s.setQueue t ⟨(s.queue t).taskVec, tasks⟩) (t := t) (c := c)
      (r := (s.conn c, [.task f])) []
    have hf := work_setQueue (s := s) (t := t) (q := ⟨(s.queue t).taskVec, tasks⟩)
    have hw : queueWork (s.queue t) = f.work + 1 + queueWork ⟨(s.queue t).taskVec, tasks⟩ := by
      simp [queueWork, TaskQueue.pending, hq]
    simp only [Act.works, Act.load, Code.work, Connection.work_cons, Connection.work_nil, stackWork,
      List.map_nil] at h ⊢
    omega
  case finish t hp _ _ =>
    have h := work_setPhase (s := s) (t := t) (p := .poll)
    simp only [Act.works, Act.load, Phase.work] at h ⊢
    omega

end Work

def Act.inner : Act θ → Bool
  | .exec _ _ | .dispatch _ | .swap _ | .task _ | .finish _ => true
  | .poll _ batch                                           => batch.isEmpty
  | _                                                       => false

structure Going (cfg : Callbacks) (s : State θ) : Prop where
  good    : ∀ t, ∀ x ∈ s.stack t, x.2.Good cfg
  batched : ∀ t, s.phase t ≠ .tasks → (s.queue t).tmpVec = []

theorem going (hc : cfg.connect)
    (e : Steps (Steps.When State.OnLoop (Step cfg initSize base)) (State.new base) acts s) :
    Going cfg s := by
  have ⟨n, e'⟩ := e.tally (fun s act _ => s.destroys act) 0
  have hn := (run_safe e').numbered
  refine ⟨fun t x hx => ?_, fun t hp => List.eq_nil_iff_forall_not_mem.mpr fun x hx => ?_⟩
  · have hg := lift (P := fun _ v => Connection.Good cfg v) (fun _ _ h => h.good)
      (fun _ _ _ _ hi e => (e.mono And.right).invariant (P := Connection.Good cfg)
        (fun h e => h.step hc e) (hi.good hc))
      e (hn.stack t x hx)
    exact hg.code t x.2 (mem_only.mpr hx)
  · have hb := lift (P := fun _ v => Connection.Batched v) (fun _ _ h => h.batched)
      (fun _ _ _ _ hi e => (e.mono And.right).invariant (P := Connection.Batched)
        (fun h e => h.step e)
        (.of_empty hi.queue))
      e (hn.queue t x (List.mem_append_left _ hx))
    have hm : x.2 ∈ ((s.view x.1).queue t).tmpVec := mem_only.mpr hx
    rw [hb t] at hm
    · contradiction
    · intro ht
      refine hp ?_
      cases hs : s.phase t <;> simp [State.view, hs, Phase.of] at ht ⊢

def Inward (cfg : Callbacks) (initSize : Nat) (base : θ) : State θ → Act θ → State θ → Prop :=
  Steps.When (fun _ act => act.inner) (Step cfg initSize base)

theorem Inward.onLoop (e : Inward cfg initSize base s act s') :
    Steps.When State.OnLoop (Step cfg initSize base) s act s' := by
  refine ⟨?_, e.right⟩
  cases act
  case call => exact nomatch e.left
  all_goals trivial

section Going

variable {code : Code θ} {rest : List (Nat × Code θ)}

theorem exec_step (h : Going cfg s) (hs : s.stack t = (c, code) :: rest) :
    ∃ answer s', Step cfg initSize base s (.exec t answer) s' := by
  obtain ⟨f, rfl⟩ | rfl | ⟨answer, hr⟩ :=
    Connection.exists_run base t (s.conn c) (h.good t (c, code) (hs ▸ List.mem_cons_self))
  · exact ⟨.none, _, .queue hs⟩
  · exact ⟨.none, _, .remove hs⟩
  · obtain ⟨r, hr⟩ := Option.isSome_iff_exists.mp hr
    exact ⟨answer, _, .exec hs hr⟩

theorem task_steps (hp : s.phase t = .tasks) (hs : s.stack t = []) (hq : (s.queue t).tmpVec ≠ []) :
    ∃ s', Steps (Inward cfg initSize base) s [.task t] s' := by
  obtain ⟨⟨c, f⟩, tasks, hq⟩ := List.exists_cons_of_ne_nil hq
  exact ⟨_, .single ⟨rfl, .task hp hs hq⟩⟩

theorem swap_steps (hp : s.phase t = .dispatch []) (hs : s.stack t = [])
    (hq : (s.queue t).taskVec ≠ []) :
    ∃ s', Steps (Inward cfg initSize base) s [.swap t, .task t] s' := by
  have ⟨s', e⟩ : ∃ s', Steps (Inward cfg initSize base)
      ((s.setPhase t .tasks).setQueue t (s.queue t).swap) [.task t] s' :=
    task_steps (by simp [State.setPhase, State.setQueue]) hs
      (by simpa [State.setQueue, TaskQueue.swap] using hq)
  exact ⟨s', .step ⟨rfl, .swap hp hs⟩ e⟩

theorem poll_steps (hp : s.phase t = .poll) (hs : s.stack t = []) (hq : (s.queue t).taskVec ≠ []) :
    ∃ s', Steps (Inward cfg initSize base) s [.poll t [], .swap t, .task t] s' := by
  have ⟨s', e⟩ : ∃ s', Steps (Inward cfg initSize base) (s.setPhase t (.dispatch []))
      [.swap t, .task t] s' :=
    swap_steps (by simp [State.setPhase]) hs hq
  exact ⟨s', .step ⟨rfl, .poll hp hs .nil (by simp)⟩ e⟩

theorem finish_steps (hp : s.phase t = .tasks) (hs : s.stack t = []) (ht : (s.queue t).tmpVec = [])
    (hq : (s.queue t).taskVec ≠ []) :
    ∃ s', Steps (Inward cfg initSize base) s [.finish t, .poll t [], .swap t, .task t] s' := by
  have ⟨s', e⟩ : ∃ s', Steps (Inward cfg initSize base) (s.setPhase t .poll)
      [.poll t [], .swap t, .task t] s' :=
    poll_steps (by simp [State.setPhase]) hs hq
  exact ⟨s', .step ⟨rfl, .finish hp hs ht⟩ e⟩

theorem queue_steps (h : Going cfg s) (hs : s.stack t = []) (hq : (s.queue t).pending ≠ []) :
    ∃ as s', Steps (Inward cfg initSize base) s as s' ∧ 0 < (as.map Act.works).sum := by
  have htask : s.phase t ≠ .tasks ∨ (s.queue t).tmpVec = [] → (s.queue t).taskVec ≠ [] := by
    intro hp hn
    have ht : (s.queue t).tmpVec = [] := hp.elim (h.batched t) id
    exact hq (List.append_eq_nil_iff.mpr ⟨ht, hn⟩)
  have hend : ∀ {as}, (∃ s', Steps (Inward cfg initSize base) s as s') →
      0 < (as.map Act.works).sum →
      ∃ as s', Steps (Inward cfg initSize base) s as s' ∧ 0 < (as.map Act.works).sum :=
    fun h hw => h.elim fun s' e => ⟨_, s', e, hw⟩
  cases hp : s.phase t
  case poll => exact hend (poll_steps hp hs (htask (.inl (by simp [hp])))) Nat.one_pos
  case dispatch batch =>
    cases batch
    case nil  => exact hend (swap_steps hp hs (htask (.inl (by simp [hp])))) Nat.one_pos
    case cons => exact ⟨_, _, .single ⟨rfl, .dispatch hp hs⟩, Nat.one_pos⟩
  case tasks =>
    by_cases ht : (s.queue t).tmpVec = []
    case pos => exact hend (finish_steps hp hs ht (htask (.inr ht))) Nat.one_pos
    case neg => exact hend (task_steps hp hs ht) Nat.one_pos

theorem exists_work (h : Going cfg s) (hn : ¬s.Idle) :
    ∃ as s', Steps (Inward cfg initSize base) s as s' ∧ 0 < (as.map Act.works).sum := by
  by_cases hs : ∀ t, s.stack t = []
  case neg =>
    have ⟨t, hs⟩ := not_forall.mp hs
    obtain ⟨⟨c, code⟩, rest, hs⟩ := List.exists_cons_of_ne_nil hs
    have ⟨answer, s', e⟩ : ∃ answer s', Step cfg initSize base s (.exec t answer) s' :=
      exec_step h hs
    exact ⟨_, s', .single ⟨rfl, e⟩, Nat.one_pos⟩
  case pos =>
    have hq : ∃ t, (s.queue t).pending ≠ [] := by
      by_contra hq
      exact hn ⟨hs, fun t => not_not.mp fun hp => hq ⟨t, hp⟩⟩
    have ⟨t, hq⟩ := hq
    exact queue_steps h (hs t) hq

end Going

theorem inward_works [Fintype θ] (e : Steps (Inward cfg initSize base) s acts s') :
    (acts.map Act.works).sum + s'.work ≤ s.work := by
  have hl : ∀ {act : Act θ}, act.inner → act.load = 0 := by
    intro act hi
    cases act <;> simp_all [Act.inner, Act.load]
  have hw := e.cost_le (φ := State.work) (w := Act.works) (f := fun _ => 0) fun e => by
    rw [← hl e.left]
    exact work_step e.right
  simpa using hw

theorem exists_rest [Fintype θ] (hc : cfg.connect)
    (e : Steps (Steps.When State.OnLoop (Step cfg initSize base)) (State.new base) acts s) :
    ∃ as s', Steps (Inward cfg initSize base) s as s' ∧ s'.Idle := by
  -- the induction is on what is left of the work
  generalize hw : s.work = w
  induction w using Nat.strong_induction_on generalizing s acts
  case h w hi =>
    by_cases hs : s.Idle
    case pos => exact ⟨[], s, .refl, hs⟩
    case neg =>
      have ⟨as, s₁, e₁, hp⟩ : ∃ as s', Steps (Inward cfg initSize base) s as s' ∧
          0 < (as.map Act.works).sum :=
        exists_work (going hc e) hs
      have hl := inward_works e₁
      have ⟨as', s', e₂, hs'⟩ := hi s₁.work (by omega) (e.append (e₁.mono Inward.onLoop)) rfl
      exact ⟨as ++ as', s', e₁.append e₂, hs'⟩

end Server
end Bounce
