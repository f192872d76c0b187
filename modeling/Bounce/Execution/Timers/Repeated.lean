import Bounce.Execution.Timers.Consistent

namespace Bounce

variable {γ : Type}

def Timer.expirations (timer : Timer γ) (n : Nat) : List TimePoint :=
  (List.range n).map fun i => (timer.advance i).expiration

namespace Timer

theorem advance_advance (timer : Timer γ) (m n : Nat) :
    (timer.advance m).advance n = timer.advance (m + n) := by
  have he : timer.expiration + Int64.ofNat m * timer.duration + Int64.ofNat n * timer.duration =
      timer.expiration + (Int64.ofNat m + Int64.ofNat n) * timer.duration := by
    grind
  simp [advance, Int64.ofNat_add, he]

theorem advance_of_once {timer : Timer γ} (h : ¬timer.repeats) (n : Nat) :
    timer.advance n = timer := by
  cases timer
  simp_all [advance, repeats]

theorem expirations_add (timer : Timer γ) (m n : Nat) :
    timer.expirations (m + n) = timer.expirations m ++ (timer.advance m).expirations n := by
  simp only [expirations, List.range_add, List.map_append, List.map_map]
  refine congrArg _ (List.map_congr_left fun i _ => ?_)
  rw [Function.comp_apply, advance_advance]

end Timer

namespace Timers

variable {s s' s'' : State γ} {act : Act γ} {acts acts' : List (Act γ)} {t : TimerPtr}
variable {timer : Timer γ}
variable {q q' : TimerQueue γ} {log log' : List (TimerPtr × TimePoint)} {tasks : List Task}
variable {inserted : List TimerPtr}

open TimerQueue Multimap

def executions (t : TimerPtr) (log : List (TimerPtr × TimePoint)) : List TimePoint :=
  (log.filter (·.1 = t)).map (·.2)

theorem executions_append : executions t (log ++ log') = executions t log ++ executions t log' := by
  rw [executions, List.filter_append, List.map_append]
  rfl

theorem executions_of_not_mem (h : t ∉ log.map (·.1)) : executions t log = [] := by
  have hf : log.filter (·.1 = t) = [] := by
    rw [List.filter_eq_nil_iff]
    intro r hm heq
    exact h (of_decide_eq_true heq ▸ List.mem_map_of_mem hm)
  rw [executions, hf, List.map_nil]

theorem filter_eq_singleton {α β} [DecidableEq α] [DecidableEq β] {l : List α} {f : α → β} {a : α}
    (hn : (l.map f).Nodup) (ha : a ∈ l) : l.filter (f · = f a) = [a] := by
  have hf : l.filter (f · = f a) = l.filter (· = a) := by
    apply List.filter_congr
    intro b hb
    exact decide_eq_decide.mpr ⟨fun heq => List.inj_on_of_nodup_map hn hb ha heq, congrArg f⟩
  rw [hf, List.filter_eq, List.count_eq_one_of_mem hn.of_map ha]
  rfl

theorem executions_of_mem (hn : (log.map (·.1)).Nodup) {r : TimerPtr × TimePoint} (hr : r ∈ log) :
    executions r.1 log = [r.2] := by
  rw [executions, filter_eq_singleton hn hr]
  rfl

structure OnSchedule (t : TimerPtr) (timer : Timer γ) (log : List (TimerPtr × TimePoint))
    (q : TimerQueue γ) :
    Prop where
  runs  : executions t log = timer.expirations (executions t log).length
  timer : q.timer t = timer.advance (executions t log).length

namespace OnSchedule

theorem of_not_mem (h : t ∉ log.map (·.1)) (ht : q.timer t = timer) : OnSchedule t timer log q where
  runs  := by rw [executions_of_not_mem h]; rfl
  timer := by rw [executions_of_not_mem h, ht]; exact timer.advance_zero.symm

theorem of_ran_eq (hr : q'.ran = q.ran) (ht : q'.timer t = timer) :
    ∃ log, q'.ran = q.ran ++ log ∧ OnSchedule t timer log q' :=
  ⟨[], by rw [hr, List.append_nil], .of_not_mem (by simp) ht⟩

theorem of_mem (hn : (log.map (·.1)).Nodup) (hm : (t, timer.expiration) ∈ log)
    (ht : q.timer t = timer.advance 1) : OnSchedule t timer log q where
  runs  := by
    rw [executions_of_mem hn hm]
    simp [Timer.expirations, timer.advance_zero]
  timer := by rw [executions_of_mem hn hm, ht]; rfl

theorem append (h : OnSchedule t timer log q) (h' : OnSchedule t (q.timer t) log' q') :
    OnSchedule t timer (log ++ log') q' where
  runs := by
    have hr := h'.runs
    rw [h.timer] at hr
    rw [executions_append, List.length_append, Timer.expirations_add, ← hr, ← h.runs]
  timer := by
    rw [executions_append, List.length_append, h'.timer, h.timer, Timer.advance_advance]

end OnSchedule

section Read

variable {body : γ → List (Action γ)} {now : TimePoint} {run behind rest : List Entry}

theorem Consistent.nodup_read (h : Consistent tasks q inserted)
    (hr : Reads body now q run behind rest q') :
    (((q.dueOnce now ++ run).map fun e => (e.2, e.1)).map (·.1)).Nodup := by
  rw [List.map_map, List.map_append]
  refine List.Nodup.append ?_ ?_ ?_
  · exact h.wellFormed.nodup.sublist
      ((List.filter_sublist.trans (List.sublist_append_left ..)).map _)
  · have hn := hr.pointers.nodup_iff.mp hr.wellFormed.nodup_repeat
    exact hn.of_append_right
  · intro t h₁ h₂
    obtain ⟨e₁, he₁, rfl⟩ := List.mem_map.mp h₁
    obtain ⟨e₂, he₂, heq⟩ := List.mem_map.mp h₂
    have heq : e₂.2 = e₁.2 := heq
    exact (h.of_dueOnce hr he₁).right.right (heq ▸ (h.repeats_of_run hr he₂).left)

theorem Consistent.onSchedule_read (h : Consistent tasks q inserted)
    (hr : Reads body now q run behind rest q')
    (hk : ∀ e ∈ q.dueOnce now ++ run, e.2 = t → e.1 = timer.expiration)
    (ht : q'.timer t = timer.advance ((run.map (·.2)).count t)) :
    OnSchedule t timer ((q.dueOnce now ++ run).map fun e => (e.2, e.1)) q' := by
  have hn := h.nodup_read hr
  have hl : ((q.dueOnce now ++ run).map fun e => (e.2, e.1)).map (·.1) =
      (q.dueOnce now).map (·.2) ++ run.map (·.2) := by
    rw [List.map_map, List.map_append]
    rfl
  by_cases hm : ∃ e ∈ q.dueOnce now ++ run, e.2 = t
  case neg =>
    have hm : t ∉ (q.dueOnce now).map (·.2) ++ run.map (·.2) := by
      rw [← List.map_append]
      exact fun hm' => hm (List.mem_map.mp hm')
    rw [List.count_eq_zero.mpr fun hc => hm (List.mem_append_right _ hc), timer.advance_zero] at ht
    exact .of_not_mem (hl ▸ hm) ht
  case pos =>
    obtain ⟨e, he, rfl⟩ := hm
    refine .of_mem hn (hk e he rfl ▸ List.mem_map_of_mem (f := fun e : Entry => (e.2, e.1)) he) ?_
    rw [hl] at hn
    cases List.mem_append.mp he
    case inl he =>
      have hrep : ¬timer.repeats := by
        have hrep := (h.of_dueOnce hr he).right.right
        rw [ht] at hrep
        exact hrep
      rw [ht, timer.advance_of_once hrep, timer.advance_of_once hrep]
    case inr he => rw [ht, List.count_eq_one_of_mem hn.of_append_right (List.mem_map_of_mem he)]

theorem Consistent.onSchedule_old (h : Consistent tasks q inserted)
    (hr : Reads body now q run behind rest q')
    (ht : t < q.allocated) :
    OnSchedule t (q.timer t) ((q.dueOnce now ++ run).map fun e => (e.2, e.1)) q' := by
  refine h.onSchedule_read hr ?_ (hr.old t ht)
  rintro e he rfl
  cases List.mem_append.mp he
  case inl he => exact (h.wellFormed.key e (List.mem_append_left _ (h.of_dueOnce hr he).left)).symm
  case inr he =>
    cases (h.repeats_of_run hr he).right.left
    case inl hm  => exact (h.wellFormed.key e (List.mem_append_right _ hm)).symm
    case inr hge => exact absurd ht hge.not_gt

theorem eq_of_mem_added {actions : List (Action γ)} {x x' : TimerPtr × Timer γ}
    (hx : x ∈ added t actions)
    (hx' : x' ∈ added t actions) (h : x.1 = x'.1) : x = x' := by
  have hn : ((added t actions).map (·.1)).Nodup := added_pointers t ▸ List.nodup_range' ..
  exact List.inj_on_of_nodup_map hn hx hx' h

theorem Consistent.onSchedule_new (h : Consistent tasks q inserted)
    (hr : Reads body now q run behind rest q')
    {x : TimerPtr × Timer γ}
    (hx : x ∈ added q.allocated (q'.actionsOf body (q.dueOnce now ++ run))) :
    OnSchedule x.1 x.2 ((q.dueOnce now ++ run).map fun e => (e.2, e.1)) q' := by
  have hge := (mem_added hx).left
  refine h.onSchedule_read hr ?_ (hr.new x hx)
  intro e he heq
  cases List.mem_append.mp he
  case inl he => exact absurd (h.of_dueOnce hr he).right.left (heq ▸ hge.not_gt)
  case inr he =>
    have hm : e ∈ run ++ behind ++ rest := List.mem_append_left _ (List.mem_append_left _ he)
    cases List.mem_append.mp (hr.entries.mem_iff.mp hm)
    case inl hm =>
      exact absurd (h.wellFormed.fresh e (List.mem_append_right _ hm)) (heq ▸ hge.not_gt)
    case inr hm =>
      obtain ⟨x', hx', _, rfl⟩ := mem_repeatEntries.mp hm
      rw [eq_of_mem_added hx' hx heq]

end Read

theorem State.step_onSchedule (h : s.Consistent) (e : Step s act s') (ht : t < s.timers.allocated) :
    t < s'.timers.allocated ∧ ∃ log, s'.timers.ran = s.timers.ran ++ log ∧
      OnSchedule t (s.timers.timer t) log s'.timers := by
  cases step_effect e
  case add timer clock =>
    have hi : (s.timers.allocate timer).Inserts s.timers.allocated
        (s.timers.addTimer timer clock) :=
      addTimerInLoop_inserts
    refine ⟨hi.allocated ▸ ht.trans (Nat.lt_succ_self _), OnSchedule.of_ran_eq hi.ran ?_⟩
    exact (congrFun hi.timer t).trans (allocate_timer timer ht)
  case queueAdd timer =>
    exact ⟨ht.trans (Nat.lt_succ_self _), OnSchedule.of_ran_eq rfl (allocate_timer timer ht)⟩
  case queueDelete | flush | swap => exact ⟨ht, OnSchedule.of_ran_eq rfl rfl⟩
  case read hq =>
    have ⟨_, _, _, hr⟩ := handleRead_reads h.wellFormed hq
    exact ⟨hr.allocated ▸ ht.trans_le (Nat.le_add_right ..), _, hr.ran, h.onSchedule_old hr ht⟩
  case task clock task tasks hm =>
    cases task
    case addTimerInLoop t' =>
      have hi : s.timers.Inserts t' (s.timers.addTimerInLoop t' clock) := addTimerInLoop_inserts
      exact ⟨hi.allocated ▸ ht, OnSchedule.of_ran_eq hi.ran (congrFun hi.timer t)⟩
    case deleteTimerInLoop t' =>
      have ⟨_, htm, ha, hr, _⟩ := deleteTimerInLoop_keeps (q := s.timers) (t := t')
      exact ⟨ha ▸ ht, OnSchedule.of_ran_eq hr (congrFun htm t)⟩

theorem State.run_onSchedule (h : s.Consistent) (e : Steps Step s acts s')
    (ht : t < s.timers.allocated) :
    ∃ log, s'.timers.ran = s.timers.ran ++ log ∧ OnSchedule t (s.timers.timer t) log s'.timers := by
  induction e
  case refl => exact OnSchedule.of_ran_eq rfl rfl
  case step e _ hi =>
    have ⟨ht', log, hl, hs⟩ := step_onSchedule h e ht
    have ⟨log', hl', hs'⟩ := hi (step_consistent h e) ht'
    exact ⟨log ++ log', by rw [hl', hl, List.append_assoc], hs.append hs'⟩

def Alive (t : TimerPtr) (s : State γ) : Prop :=
  .addTimerInLoop t ∈ s.queue.pending ∨ t ∈ s.timers.timerMapRepeat.entries.map (·.2)

-- A step does not delete the timer, and no callback of a repeat timer that it runs adds a repeat
-- timer with an expiration before its own.
def Spares (t : TimerPtr) (s : State γ) : Act γ → Prop
  | .task _            => s.queue.tmpVec.head? ≠ some (.deleteTimerInLoop t)
  | .read body now _ _ => ∀ x, s.timers.Reached body now x → ∀ y ∈ repeated (body x.2), x.1 ≤ y.1
  | _                  => True

namespace Alive

theorem insert (h : Alive t s) (t' : TimerPtr) (clock : TimePoint) :
    Alive t (s.insert t' clock) := by
  refine h.imp_right fun hm => ?_
  have hi : s.timers.Inserts t' (s.timers.addTimerInLoop t' clock) := addTimerInLoop_inserts
  rw [State.insert, hi.repeat', insertTimer_repeat]
  split
  case isTrue  => exact ((List.perm_orderedInsert ..).map _).mem_iff.mpr (.tail _ hm)
  case isFalse => exact hm

theorem of_insert (hr : (s.timers.timer t).repeats) (clock : TimePoint) :
    Alive t (s.insert t clock) := by
  have hi : s.timers.Inserts t (s.timers.addTimerInLoop t clock) := addTimerInLoop_inserts
  rw [Alive, State.insert, hi.repeat', insertTimer_repeat, if_pos hr]
  exact .inr (((List.perm_orderedInsert ..).map _).mem_iff.mpr List.mem_cons_self)

theorem of_entries (s' : State γ) {body : γ → List (Action γ)} {now : TimePoint}
    {run rest : List Entry} {e : Entry}
    (hr : Reads body now s.timers run [] rest s'.timers)
    (he : e ∈ s.timers.timerMapRepeat.entries ++
      s.timers.newRepeats (s'.timers.actionsOf body (s.timers.dueOnce now ++ run))) :
        Alive e.2 s' := by
  have hm := hr.entries.mem_iff.mpr he
  rw [List.append_nil] at hm
  refine .inr (hr.pointers.mem_iff.mpr ?_)
  rw [← List.map_append]
  exact List.mem_map_of_mem (List.perm_append_comm.mem_iff.mp hm)

theorem step (hc : s.Consistent) (h : Alive t s) (hr : (s.timers.timer t).repeats)
    (hs : Spares t s act)
    (e : State.Step s act s') : Alive t s' := by
  cases State.step_effect e
  case add timer clock =>
    have ha : Alive t { s with timers := s.timers.allocate timer } := h
    exact ha.insert _ clock
  case queueAdd | queueDelete | flush =>
    refine h.imp_left fun hm => ?_
    rw [TaskQueue.push_pending]
    exact List.mem_append_left _ hm
  case read q hq =>
    obtain ⟨run, behind, rest, hrd⟩ := handleRead_reads hc.wellFormed hq
    obtain rfl := hrd.behind.mpr hs
    cases h
    case inl hm => exact .inl hm
    case inr hm =>
      obtain ⟨e, he, rfl⟩ := List.mem_map.mp hm
      exact of_entries { s with timers := q, inserted := _ } hrd (List.mem_append_left _ he)
  case swap ht =>
    refine h.imp_left fun hm => ?_
    rwa [TaskQueue.swap_pending ht]
  case task clock task tasks ht =>
    have ha : .addTimerInLoop t = task ∨ Alive t { s with queue.tmpVec := tasks } := by
      rw [Alive, TaskQueue.pending, ht, List.cons_append, List.mem_cons, or_assoc] at h
      exact h
    cases task
    case addTimerInLoop t' =>
      cases ha
      case inl heq =>
        cases heq
        exact of_insert (s := { s with queue.tmpVec := tasks }) hr clock
      case inr ha => exact ha.insert t' clock
    case deleteTimerInLoop t' =>
      have hne : t' ≠ t := by
        rintro rfl
        exact hs (by rw [ht]; rfl)
      have ha : Alive t { s with queue.tmpVec := tasks } := ha.resolve_left (by simp)
      refine ha.imp_right fun hm => ?_
      obtain ⟨e, he, rfl⟩ := List.mem_map.mp hm
      rw [State.runTask, deleteTimerInLoop_repeat hc.wellFormed]
      exact List.mem_map_of_mem (List.mem_filter.mpr ⟨he, decide_eq_true hne.symm⟩)

end Alive

inductive Creates (s s' : State γ) : Act γ → TimerPtr → Timer γ → Prop
  | add {new clock} : Creates s s' (.add new clock) s.timers.allocated new
  | queueAdd {new} : Creates s s' (.queueAdd new) s.timers.allocated new
  | callback {body now clock fuel x} : x ∈ s.timers.addedSince body s'.timers →
    Creates s s' (.read body now clock fuel) x.1 x.2

theorem allocate_self (timer : Timer γ) : (q.allocate timer).timer q.allocated = timer :=
  Function.update_self ..

namespace Creates

theorem onSchedule (hc : s.Consistent) (e : State.Step s act s') (h : Creates s s' act t timer) :
    s.timers.allocated ≤ t ∧ t < s'.timers.allocated ∧
      ∃ log, s'.timers.ran = s.timers.ran ++ log ∧ OnSchedule t timer log s'.timers := by
  cases h
  case add clock =>
    cases State.step_effect e
    have hi : (s.timers.allocate timer).Inserts s.timers.allocated
        (s.timers.addTimer timer clock) :=
      addTimerInLoop_inserts
    refine ⟨le_rfl, hi.allocated ▸ Nat.lt_succ_self _, OnSchedule.of_ran_eq hi.ran ?_⟩
    exact (congrFun hi.timer _).trans (allocate_self timer)
  case queueAdd =>
    cases State.step_effect e
    exact ⟨le_rfl, Nat.lt_succ_self _, OnSchedule.of_ran_eq rfl (allocate_self timer)⟩
  case callback hm =>
    cases State.step_effect e
    case read hq =>
      obtain ⟨_, _, _, hr⟩ := handleRead_reads hc.wellFormed hq
      rw [hr.addedSince] at hm
      exact ⟨(mem_added hm).left, hr.allocated ▸ (mem_added hm).right, _, hr.ran,
        hc.onSchedule_new hr hm⟩

theorem alive (hc : s.Consistent) (e : State.Step s act s') (h : Creates s s' act t timer)
    (hr : timer.repeats)
    (hs : Spares t s act) : Alive t s' := by
  cases h
  case add clock =>
    cases State.step_effect e
    refine Alive.of_insert (s := { s with timers := s.timers.allocate timer }) ?_ clock
    exact (congrArg Timer.repeats (allocate_self (q := s.timers) timer)).trans hr
  case queueAdd =>
    cases State.step_effect e
    refine .inl ?_
    rw [TaskQueue.push_pending]
    exact List.mem_append_right _ (List.mem_singleton_self _)
  case callback hm =>
    cases State.step_effect e
    case read q hq =>
      obtain ⟨run, behind, rest, hrd⟩ := handleRead_reads hc.wellFormed hq
      obtain rfl := hrd.behind.mpr hs
      rw [hrd.addedSince] at hm
      exact Alive.of_entries { s with timers := q, inserted := _ } hrd
        (List.mem_append_right _ (mem_repeatEntries.mpr ⟨_, hm, hr, rfl⟩))

end Creates

theorem Alive.run (hc : s.Consistent) (h : Alive t s) (ht : t < s.timers.allocated)
    (hr : (s.timers.timer t).repeats) (e : Steps (Steps.When (Spares t) State.Step) s acts s') :
    Alive t s' := by
  induction e
  case refl => exact h
  case step hse _ hi =>
    have ⟨ht', _, _, hos⟩ := State.step_onSchedule hc hse.right ht
    have hr' := (congrArg Timer.repeats hos.timer).trans hr
    exact hi (State.step_consistent hc hse.right) (h.step hc hr hse.left hse.right) ht' hr'

end Timers
end Bounce
