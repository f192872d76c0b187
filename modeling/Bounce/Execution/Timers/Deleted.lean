import Bounce.Execution.Timers.Consistent

namespace Bounce.Timers

variable {γ : Type} {s s' s'' : State γ} {act : Act γ} {acts acts' : List (Act γ)} {t : TimerPtr}

open TimerQueue Multimap

structure Gone (t : TimerPtr) (s : State γ) : Prop where
  known   : t < s.timers.allocated
  entries : t ∉ s.timers.entries.map (·.2)
  tasks   : .addTimerInLoop t ∉ s.queue.pending

def NotRun (t : TimerPtr) (s s' : State γ) : Prop :=
  ∃ log, s'.timers.ran = s.timers.ran ++ log ∧ t ∉ log.map (·.1)

theorem NotRun.of_eq (h : s'.timers.ran = s.timers.ran) : NotRun t s s' :=
  ⟨[], by simp [h]⟩

theorem NotRun.trans (h₁ : NotRun t s s') (h₂ : NotRun t s' s'') : NotRun t s s'' := by
  have ⟨log₁, h₁, hn₁⟩ := h₁
  have ⟨log₂, h₂, hn₂⟩ := h₂
  refine ⟨log₁ ++ log₂, by rw [h₂, h₁, List.append_assoc], ?_⟩
  rw [List.map_append, List.mem_append, not_or]
  exact ⟨hn₁, hn₂⟩

namespace Gone

theorem insert (h : Gone t s) {t' : TimerPtr} (ht : t ≠ t') (clock : TimePoint) :
    Gone t (s.insert t' clock) ∧ NotRun t s (s.insert t' clock) := by
  have hi : s.timers.Inserts t' (s.timers.addTimerInLoop t' clock) := addTimerInLoop_inserts
  refine ⟨⟨hi.allocated ▸ h.known, ?_, h.tasks⟩, .of_eq hi.ran⟩
  rw [State.insert, (hi.entries.map _).mem_iff, List.map_cons, List.mem_cons, not_or]
  exact ⟨ht, h.entries⟩

theorem delete (h : Gone t s) (t' : TimerPtr) :
    Gone t { s with timers := s.timers.deleteTimerInLoop t' } ∧
      NotRun t s { s with timers := s.timers.deleteTimerInLoop t' } := by
  have ⟨_, _, ha, hr, _⟩ := deleteTimerInLoop_keeps (q := s.timers) (t := t')
  exact ⟨⟨ha ▸ h.known, fun hm => h.entries ((deleteTimerInLoop_entries.map _).subset hm),
    h.tasks⟩, .of_eq hr⟩

theorem read {body : γ → List (Action γ)} {now : TimePoint} {run behind rest : List Entry}
    {q' : TimerQueue γ} (hc : s.Consistent) (h : Gone t s)
    (hr : Reads body now s.timers run behind rest q') :
    t ∉ q'.entries.map (·.2) ∧
      t ∉ ((s.timers.dueOnce now ++ run).map fun e => (e.2, e.1)).map (·.1) := by
  refine ⟨fun hm => ?_, fun hm => ?_⟩
  · cases hc.mem_of_read hr hm
    case inl hm  => exact h.entries hm
    case inr hge => exact h.known.not_ge hge
  · rw [List.map_map] at hm
    obtain ⟨e, he, rfl⟩ := List.mem_map.mp hm
    cases List.mem_append.mp he
    case inl he =>
      exact h.entries (List.mem_map_of_mem (List.mem_append_left _ (hc.of_dueOnce hr he).left))
    case inr he =>
      cases (hc.repeats_of_run hr he).right.left
      case inl hm  => exact h.entries (List.mem_map_of_mem (List.mem_append_right _ hm))
      case inr hge => exact h.known.not_ge hge

theorem step (hc : s.Consistent) (h : Gone t s) (e : State.Step s act s') :
    Gone t s' ∧ NotRun t s s' := by
  cases State.step_effect e
  case add timer clock =>
    have ha : Gone t { s with timers := s.timers.allocate timer } :=
      ⟨h.known.trans (Nat.lt_succ_self _), h.entries, h.tasks⟩
    exact ha.insert h.known.ne clock
  case queueAdd timer =>
    refine ⟨⟨h.known.trans (Nat.lt_succ_self _), h.entries, ?_⟩, .of_eq rfl⟩
    rw [TaskQueue.push_pending, List.mem_append, not_or]
    refine ⟨h.tasks, fun hm => ?_⟩
    cases List.mem_singleton.mp hm
    exact h.known.false
  case queueDelete | flush =>
    refine ⟨⟨h.known, h.entries, ?_⟩, .of_eq rfl⟩
    simpa [TaskQueue.push_pending] using h.tasks
  case read hq =>
    have ⟨_, _, _, hr⟩ := handleRead_reads hc.wellFormed hq
    have ⟨h₁, h₂⟩ := h.read hc hr
    exact ⟨⟨hr.allocated ▸ h.known.trans_le (Nat.le_add_right ..), h₁, h.tasks⟩, _, hr.ran, h₂⟩
  case swap ht =>
    exact ⟨⟨h.known, h.entries, by rw [TaskQueue.swap_pending ht]; exact h.tasks⟩, .of_eq rfl⟩
  case task clock task tasks ht =>
    have hp := h.tasks
    rw [TaskQueue.pending, ht, List.cons_append, List.mem_cons, not_or] at hp
    have hg : Gone t { s with queue.tmpVec := tasks } := ⟨h.known, h.entries, hp.right⟩
    cases task
    case addTimerInLoop t' => exact hg.insert (fun heq => hp.left (heq ▸ rfl)) clock
    case deleteTimerInLoop t' => exact hg.delete t'

theorem run (hc : s.Consistent) (h : Gone t s) (e : Steps State.Step s acts s') :
    Gone t s' ∧ NotRun t s s' := by
  induction e
  case refl => exact ⟨h, .of_eq rfl⟩
  case step e _ hi =>
    have ⟨h₁, hn₁⟩ := h.step hc e
    have ⟨h₂, hn₂⟩ := hi (State.step_consistent hc e) h₁
    exact ⟨h₂, hn₁.trans hn₂⟩

theorem of_delete (hc : Timers.Consistent (.deleteTimerInLoop t :: s.queue.pending)
    s.timers s.inserted)
    (hr : (s.timers.timer t).repeats) :
    Gone t { s with timers := s.timers.deleteTimerInLoop t } where
  known   := by
    rw [deleteTimerInLoop_keeps.right.right.left]
    exact hc.known _ List.mem_cons_self
  entries hm := by
    have ⟨e, he, heq⟩ := List.mem_map.mp hm
    cases List.mem_append.mp he
    case inl he =>
      rw [deleteTimerInLoop_keeps.left] at he
      exact hc.once e he (heq ▸ hr)
    case inr he =>
      rw [deleteTimerInLoop_repeat hc.wellFormed] at he
      exact absurd heq (of_decide_eq_true (List.mem_filter.mp he).right)
  tasks hm := (List.pairwise_cons.mp hc.apart).left _ hm t rfl rfl

end Gone

theorem deleted_of_run {timer : TimerPtr → Timer γ} {clock : TimePoint}
    (hs : Steps State.Step (.new timer) acts s)
    (ht : s.queue.tmpVec.head? = some (.deleteTimerInLoop t)) (hr : (s.timers.timer t).repeats)
    (e : State.Step s (.task clock) s') :
    s'.timers.timerMapOnce = s.timers.timerMapOnce ∧
      s'.timers.timerMapRepeat.entries = s.timers.timerMapRepeat.entries.filter (·.2 ≠ t) ∧
      ∀ acts' s'', Steps State.Step s' acts' s'' →
        t ∉ s''.timers.timerMapOnce.entries.map (·.2) ∧
        t ∉ s''.timers.timerMapRepeat.entries.map (·.2) ∧
        ∃ log, s''.timers.ran = s'.timers.ran ++ log ∧ t ∉ log.map (·.1) := by
  have hc := State.run_consistent hs
  have hc' := State.step_consistent hc e
  cases State.step_effect e
  case task task tasks htasks =>
    obtain rfl : task = .deleteTimerInLoop t := by simpa [htasks] using ht
    rw [State.Consistent, TaskQueue.pending, htasks] at hc
    refine ⟨deleteTimerInLoop_keeps.left, deleteTimerInLoop_repeat hc.wellFormed, ?_⟩
    intro acts' s'' e'
    have hg : Gone t { s with queue.tmpVec := tasks, timers := s.timers.deleteTimerInLoop t } :=
      Gone.of_delete (s := { s with queue.tmpVec := tasks }) hc hr
    obtain ⟨hg', hn⟩ := hg.run hc' e'
    have hm := hg'.entries
    rw [TimerQueue.entries, List.map_append, List.mem_append, not_or] at hm
    exact ⟨hm.left, hm.right, hn⟩

theorem deleted_of_one_timer :
    ∃ s s' : State Unit, Steps State.Step (.new fun _ => ⟨0, 0, ()⟩)
      [.add ⟨10, 10, ()⟩ 0, .queueDelete 0, .swap] s ∧
      State.Step s (.task 0) s' ∧ s'.timers.timerMapOnce = s.timers.timerMapOnce ∧
      s'.timers.timerMapRepeat.entries = s.timers.timerMapRepeat.entries.filter (·.2 ≠ 0) ∧
      ∀ acts' s'', Steps State.Step s' acts' s'' →
        0 ∉ s''.timers.timerMapOnce.entries.map (·.2) ∧
        0 ∉ s''.timers.timerMapRepeat.entries.map (·.2) ∧
        ∃ log, s''.timers.ran = s'.timers.ran ++ log ∧ 0 ∉ log.map (·.1) := by
  have ⟨s, hs, ht, hr, he⟩ : ∃ s : State Unit, Steps State.Step (.new fun _ => ⟨0, 0, ()⟩)
      [.add ⟨10, 10, ()⟩ 0, .queueDelete 0, .swap] s ∧
      s.queue.tmpVec.head? = some (.deleteTimerInLoop 0) ∧ (s.timers.timer 0).repeats ∧
      (s.step (.task 0)).isSome := by
    refine ⟨_, Steps.of_isSome ?run, ?_⟩
    all_goals decide +kernel
  have ⟨s', e⟩ := Option.isSome_iff_exists.mp he
  exact ⟨s, s', hs, e, deleted_of_run hs ht hr e⟩

end Bounce.Timers
