import Bounce.Execution.Timers.Consistent

namespace Bounce.Timers

variable {γ : Type} {s s' : State γ} {acts : List (Act γ)} {body : γ → List (Action γ)}
variable {now clock : TimePoint} {fuel : Nat}

open TimerQueue Multimap

def onceLog (q q' : TimerQueue γ) : List (TimerPtr × TimePoint) :=
  (q'.ran.drop q.ran.length).filter fun r => !(q'.timer r.1).repeats

structure Fires (body : γ → List (Action γ)) (now : TimePoint) (s s' : State γ) : Prop where
  due   : ∀ r ∈ onceLog s.timers s'.timers, r.2 ≤ now ∧ (s.timers.timer r.1).expiration = r.2
  all   : ∀ e ∈ s.timers.timerMapOnce.entries, e.1 ≤ now →
    (e.2, e.1) ∈ onceLog s.timers s'.timers ∧ e.2 ∉ s'.timers.timerMapOnce.entries.map (·.2)
  order : (onceLog s.timers s'.timers).Pairwise fun r₁ r₂ =>
    r₁.2 < r₂.2 ∨ r₁.2 = r₂.2 ∧ [r₁.1, r₂.1].Sublist s.inserted
  added : ∀ x ∈ s.timers.addedSince body s'.timers, ¬x.2.repeats →
    (x.2.expiration, x.1) ∈ s'.timers.timerMapOnce.entries ∧ x.1 ∉ s.timers.logged s'.timers

theorem onceLog_eq {q q' : TimerQueue γ} {tasks : List Task} {inserted : List TimerPtr}
    {run behind rest : List Entry} (h : Consistent tasks q inserted)
    (hr : Reads body now q run behind rest q') :
    onceLog q q' = (q.dueOnce now).map fun e => (e.2, e.1) := by
  rw [onceLog, hr.ran, List.drop_left, h.filter_ran hr]

theorem State.Consistent.fires (h : s.Consistent)
    (e : State.Step s (.read body now clock fuel) s') :
    Fires body now s s' := by
  cases State.step_effect e
  case read q' hq =>
    have ⟨run, behind, rest, hr⟩ := handleRead_reads h.wellFormed hq
    have hlog := onceLog_eq h hr
    have hc := h.read hr
    exact {
      due := by
        intro r hm
        rw [hlog] at hm
        obtain ⟨e, he, rfl⟩ := List.mem_map.mp hm
        have ⟨he, hk⟩ := List.mem_filter.mp he
        exact ⟨of_decide_eq_true hk, h.wellFormed.key e (List.mem_append_left _ he)⟩
      all := by
        intro e he hk
        have hd : e ∈ s.timers.dueOnce now := List.mem_filter.mpr ⟨he, decide_eq_true hk⟩
        have hf : e.2 ∈ fired q' := by
          rw [h.fired_read hr]
          exact List.mem_append_right _ (List.mem_map_of_mem hd)
        have hn := List.disjoint_of_nodup_append (hc.places.nodup_iff.mpr hc.nodup)
        exact ⟨hlog ▸ List.mem_map_of_mem (f := fun e : Entry => (e.2, e.1)) hd, fun hm => hn hm hf⟩
      order := by
        rw [hlog, List.pairwise_map]
        exact h.stable.sublist List.filter_sublist
      added := by
        intro x hx hrep
        rw [hr.addedSince] at hx
        refine ⟨?_, fun hm => ?_⟩
        · rw [hr.once, mem_insertEntries]
          exact .inr (mem_onceEntries.mpr ⟨x, hx, hrep, rfl⟩)
        · rw [hr.logged] at hm
          have ⟨e, he, heq⟩ := List.mem_map.mp hm
          cases List.mem_append.mp he
          case inl he =>
            have hlt := (h.of_dueOnce hr he).right.left
            exact (mem_added hx).left.not_gt (heq ▸ hlt)
          case inr he =>
            have hrun := (h.repeats_of_run hr he).left
            rw [heq, Consistent.repeats_new hr hx] at hrun
            exact hrep hrun
    }

theorem State.Consistent.read_ends (h : s.Consistent) (hb : ∀ c, repeated (body c) = [])
    (hf : s.timers.deletions = []) (ht : s.queue.tmpVec = []) :
    ∃ fuel s', State.Step s (.read body now clock fuel) s' := by
  have ha : ∀ x ∈ s.timers.repeatItems body now, x.1 ≤ now →
      Acc (Spawns body (s.timers.Front body now)) x := by
    intro x _ _
    constructor
    intro y hy
    have hm := hb x.2 ▸ hy.left
    contradiction
  have ⟨fuel, q', hr⟩ := (handleRead_isSome_iff clock h.wellFormed).mpr ha
  exact ⟨fuel, _, by simp only [State.Step, Steps.Of, State.step, State.free, hf, ht, hr]; rfl⟩

theorem State.ran_of_step {act : Act γ} (e : State.Step s act s')
    (hn : ∀ body now clock fuel, act ≠ .read body now clock fuel) :
    s'.timers.ran = s.timers.ran := by
  cases State.step_effect e
  case read body now clock fuel q hq => exact (hn body now clock fuel rfl).elim
  case add                           => exact addTimerInLoop_inserts.ran
  case task clock task tasks ht =>
    cases task
    case addTimerInLoop    => exact addTimerInLoop_inserts.ran
    case deleteTimerInLoop => exact deleteTimerInLoop_keeps.right.right.right.left
  all_goals rfl

theorem once_of_run {timer : TimerPtr → Timer γ} (hs : Steps State.Step (.new timer) acts s) :
    (fired s.timers).Nodup ∧ s.inserted.Nodup ∧
    (∀ t < s.timers.allocated, ¬(s.timers.timer t).repeats →
      .addTimerInLoop t ∈ s.queue.pending ∨ t ∈ s.timers.timerMapOnce.entries.map (·.2) ∨
        t ∈ fired s.timers) ∧
    (∀ act s', State.Step s act s' → (∀ body now clock fuel, act ≠ .read body now clock fuel) →
      s'.timers.ran = s.timers.ran) ∧
    (∀ body now clock fuel s', State.Step s (.read body now clock fuel) s' → Fires body now s s') ∧
    ∀ body now clock, (∀ c, repeated (body c) = []) → s.timers.deletions = [] →
      s.queue.tmpVec = [] →
      ∃ fuel s', State.Step s (.read body now clock fuel) s' := by
  have h := State.run_consistent hs
  have hn := h.places.nodup_iff.mpr h.nodup
  refine ⟨hn.of_append_right, h.nodup, ?_, fun _ _ => State.ran_of_step, fun _ _ _ _ _ => h.fires,
    fun _ _ _ => h.read_ends⟩
  intro t hlt hr
  cases h.kept t hlt hr
  case inl hm => exact .inr (List.mem_append.mp (h.places.mem_iff.mpr hm))
  case inr hm => exact .inl hm

-- Two timers of the same expiration are due, and the callback of the first one adds a timer with an
-- expiration in the past: the pass runs the two in the order of their insertion.
theorem fires_of_two_timers :
    ∃ s s', Steps State.Step (.new fun _ => ⟨0, 0, false⟩)
      [.add ⟨10, 0, true⟩ 0, .add ⟨10, 0, false⟩ 0] s ∧
      State.Step s (.read (fun adds => if adds then [.runAt 3 false 10] else []) 10 10 1) s' ∧
      Fires (fun adds => if adds then [.runAt 3 false 10] else []) 10 s s' := by
  have ⟨s, hs, hr⟩ : ∃ s, Steps State.Step (.new fun _ => ⟨0, 0, false⟩)
      [.add ⟨10, 0, true⟩ 0, .add ⟨10, 0, false⟩ 0] s ∧
      (s.step (.read (fun adds => if adds then [.runAt 3 false 10] else []) 10 10 1)).isSome := by
    refine ⟨_, Steps.of_isSome ?run, ?_⟩
    all_goals decide +kernel
  have ⟨s', e⟩ := Option.isSome_iff_exists.mp hr
  exact ⟨s, s', hs, e, (once_of_run hs).right.right.right.right.left _ _ _ _ _ e⟩

end Bounce.Timers
