import Bounce.Objects.TimerQueue.Theorems.Pass

namespace Bounce.TimerQueue

variable {γ : Type} {q q' : TimerQueue γ} {body : γ → List (Action γ)} {now clock : TimePoint}
variable {l₁ todo l₃ : List Entry} {e : Entry} {front : TimePoint → Prop}

open Multimap

-- A due repeat timer settles if its callback adds no repeat timer that is not due and still sorts
-- in front of all that are not due, and if the due ones that it adds behind it settle as well.
inductive Settles (body : γ → List (Action γ)) (now : TimePoint) (front : TimePoint → Prop) :
    TimePoint × γ → Prop
  | intro {x} : (∀ y ∈ repeated (body x.2), now < y.1 → ¬front y.1) →
      (∀ y ∈ repeated (body x.2), x.1 ≤ y.1 → y.1 ≤ now → Settles body now front y) →
      Settles body now front x

namespace Settles

variable {x y : TimePoint × γ}

theorem spawns (h : Settles body now front x) (hs : Spawns body front y x) :
    Settles body now front y ∧ y.1 ≤ now := by
  cases h
  case intro hq hd =>
    have hy : y.1 ≤ now := by
      by_contra hn
      exact hq y hs.left (not_le.mp hn) hs.right.right
    exact ⟨hd y hs.left hs.right.left hy, hy⟩

theorem acc (h : Settles body now front x) : Acc (Spawns body front) x := by
  induction h
  case intro x hq _ hi =>
    constructor
    intro y hs
    have hy : y.1 ≤ now := by
      by_contra hn
      exact hq y hs.left (not_le.mp hn) hs.right.right
    exact hi y hs.left hs.right.left hy

end Settles

theorem walk_ends (hf : ∀ k, inFront l₃ k ↔ front k) (h : Walking q l₁ todo l₃)
    (ha : ∀ e ∈ todo, Acc (Spawns body front) (q.item e)) (acc : List TimerPtr) :
    ∃ n q' acc', q.walk body (iterator l₃) n (iterator (todo ++ l₃)) acc = some (q', acc') := by
  have ha' : ∀ x ∈ (todo.map q.item : Multiset _), Acc (Spawns body front) x := by
    intro x hx
    have ⟨e, he, hx⟩ := List.mem_map.mp (Multiset.mem_coe.mp hx)
    exact hx ▸ ha e he
  refine Multiset.worklist_induction (P := fun s => ∀ (q : TimerQueue γ) l₁ todo l₃ acc,
    (∀ k, inFront l₃ k ↔ front k) → Walking q l₁ todo l₃ → (todo.map q.item : Multiset _) = s →
      ∃ n q' acc', q.walk body (iterator l₃) n (iterator (todo ++ l₃)) acc = some (q', acc'))
    ?_ ha' q l₁ todo l₃ acc hf h rfl
  intro s hi q l₁ todo l₃ acc hf h hs
  cases todo
  case nil => exact ⟨1, q, acc, walk_nil⟩
  case cons e todo =>
    have ⟨l₁', todo', l₃', new, h', hh, htodo, hn, htm⟩ := h.callback body
    have hf' : ∀ k, inFront l₃' k ↔ front k := by
      intro k
      rw [inFront_congr hh, hf]
    have hsp : ∀ y ∈ (new.map (q.execCallback body e.2).item : Multiset _),
        Spawns body front y (q.item e) := by
      intro y hy
      rw [hn, Multiset.mem_coe, List.mem_filter] at hy
      have ⟨hk, hfk⟩ := of_decide_eq_true hy.right
      exact ⟨hy.left, hk, (hf _).mp hfk⟩
    have hrest : todo.map q.item = todo.map (q.execCallback body e.2).item := by
      apply List.map_congr_left
      intro e' he'
      rw [item, item, htm _ (h.wellFormed.fresh e' (h.mem_entries (by simp [he'])))]
    have hs' : (todo'.map (q.execCallback body e.2).item : Multiset (TimePoint × γ)) =
        (todo.map q.item : Multiset (TimePoint × γ)) + new.map (q.execCallback body e.2).item := by
      rw [hrest, Multiset.coe_add, Multiset.coe_eq_coe, ← List.map_append]
      exact htodo.map _
    obtain ⟨n, q', acc', hw⟩ :=
      hi (q.item e) (todo.map q.item) _ (by rw [← hs]; rfl) hsp _ _ _ _ (acc ++ [e.2]) hf' h' hs'
    exact ⟨n + 1, q', acc', by rw [walk_cons h h' hh, hw]⟩

theorem walk_settles (hd : ∀ k ≤ now, front k) (hf : ∀ k, inFront l₃ k ↔ front k)
    (h : Walking q l₁ todo l₃) {n : Nat} {acc acc' : List TimerPtr}
    {log : List (TimerPtr × TimePoint)}
    (hw : q.walk body (iterator l₃) n (iterator (todo ++ l₃)) acc = some (q', acc'))
    (hl : q'.ran = q.ran ++ log) (hlog : ∀ r ∈ log, r.2 ≤ now) :
    ∀ e ∈ todo, Settles body now front (q.item e) := by
  have ⟨run, _, _, _, ht, _⟩ := walk_traversed hf h hw
  have hrun : ∀ e ∈ run, e.1 ≤ now := by
    intro e he
    refine hlog (e.2, e.1) ?_
    rw [← List.append_cancel_left (ht.ran.symm.trans hl)]
    exact List.mem_map_of_mem he
  -- The induction is on the chains of timers that the walk has run.
  have hset : ∀ x, Acc (Spawns body front) x → (∃ e ∈ run, q'.item e = x) →
      Settles body now front x := by
    intro x hx
    induction hx
    case intro x _ hi =>
      intro ⟨e, he, hex⟩
      subst hex
      constructor
      · intro y hy hlt hfy
        have ⟨e', he', hey⟩ := ht.spawned e he y ⟨hy, (hrun e he).trans hlt.le, hfy⟩
        exact hlt.not_ge (hey ▸ hrun e' he')
      · intro y hy hk hle
        have hs : Spawns body front y (q'.item e) := ⟨hy, hk, hd _ hle⟩
        exact hi y hs (ht.spawned e he y hs)
  intro e he
  have hr := ht.reaches e he
  have hit : q'.item e = q.item e := by
    rw [item, item, ht.performs.old _ (h.wellFormed.fresh e (h.mem_entries (by simp [he])))]
  exact hit ▸ hset _ (ht.acc e hr) ⟨e, hr, rfl⟩

def RunsDue (q : TimerQueue γ) (body : γ → List (Action γ)) (now clock : TimePoint) : Prop :=
  ∃ fuel q' log, q.handleRead body now clock fuel = some q' ∧ q'.ran = q.ran ++ log ∧
    (∀ e ∈ q.entries, (q.timer e.2).expiration ≤ now → e.2 ∈ log.map (·.1)) ∧
    (∀ r ∈ log, r.2 ≤ now) ∧ (log.map (·.1)).Nodup

theorem runsDue_of_settles (h : q.WellFormed)
    (hset : ∀ x ∈ q.repeatItems body now, x.1 ≤ now → Settles body now (q.Front body now) x) :
    q.RunsDue body now clock := by
  have h₀ : q.readFd.WellFormed := ⟨h.key, h.fresh, h.nodup⟩
  have ⟨todo, l₃, hs⟩ := runOnce_starts body now h₀
  generalize hq : q.readFd.runOnce body now = q₁ at hs
  have ht : ∀ e ∈ todo, Settles body now (q.Front body now) (q₁.item e) ∧ e.1 ≤ now := by
    intro e he
    have hd := hs.due e he
    exact ⟨hset (q₁.item e) ((hs.items (q₁.item e) hd).mpr ⟨e, he, rfl⟩) hd, hd⟩
  have ⟨n, q₂, ts, hw⟩ := walk_ends hs.front hs.walking (fun e he => (ht e he).left.acc) []
  have ⟨log, _, _, _, _, _, hwd⟩ :=
    walk_spec (P := fun x => Settles body now (q.Front body now) x ∧ x.1 ≤ now)
      (fun _ hx _ hy => hx.left.spawns hy) hs.front hs.walking ht hw
  have he := handleRead_eq clock n hq.symm hs
  rw [hw] at he
  refine ⟨n, _, (q.dueOnce now).map (fun e => (e.2, e.1)) ++ log, he, ?_, ?_, ?_, ?_⟩
  · have hr : q₂.ran = q.ran ++ (q.dueOnce now).map (fun e => (e.2, e.1)) ++ log := by
      rw [hwd.ran, hs.ran]
      rfl
    simpa [resetTimerfd, foldl_update_ran] using hr
  · intro e he hk
    rw [h.key e he] at hk
    rw [List.map_append, List.mem_append]
    cases List.mem_append.mp he
    case inl he =>
      have hd : e ∈ q.dueOnce now := List.mem_filter.mpr ⟨he, decide_eq_true hk⟩
      exact .inl (by simpa using ⟨_, hd⟩)
    case inr he =>
      exact .inr (List.mem_map_of_mem (hwd.reaches e (hs.present e he hk)))
  · intro r hr
    cases List.mem_append.mp hr
    case inl hr =>
      obtain ⟨e, he, hr⟩ := List.mem_map.mp hr
      exact hr ▸ of_decide_eq_true (List.mem_filter.mp he).right
    case inr hr =>
      obtain ⟨_, hc⟩ := hwd.reached r hr
      exact hc.right
  · rw [List.map_append]
    refine List.Nodup.append ?_ hwd.nodup ?_
    · have hn : ((q.dueOnce now).map (·.2)).Nodup :=
        h.nodup.sublist ((List.filter_sublist.trans (List.sublist_append_left _ _)).map _)
      rw [List.map_map]
      exact hn
    · intro t ht₁ ht₂
      obtain ⟨e, he, hte⟩ : ∃ e ∈ q.dueOnce now, e.2 = t := by simpa using ht₁
      subst hte
      obtain ⟨hlt, hm⟩ := hs.apart e he
      cases hwd.origin e.2 ht₂
      case inl ho => exact hm ho
      case inr ho => exact hlt.not_ge ho

theorem settles_of_runsDue (h : q.WellFormed) (hr : q.RunsDue body now clock) :
    ∀ x ∈ q.repeatItems body now, x.1 ≤ now → Settles body now (q.Front body now) x := by
  have h₀ : q.readFd.WellFormed := ⟨h.key, h.fresh, h.nodup⟩
  have ⟨todo, l₃, hs⟩ := runOnce_starts body now h₀
  generalize hq : q.readFd.runOnce body now = q₁ at hs
  have ⟨n, q', log, he, hran, _, hd, _⟩ := hr
  rw [handleRead_eq clock n hq.symm hs, Option.map_eq_some_iff] at he
  have ⟨⟨q₂, ts⟩, hw, he⟩ := he
  have ⟨log₂, _, _, _, _, _, hwd⟩ :=
    walk_spec (P := fun _ => True) (by simp) hs.front hs.walking (by simp) hw
  have hlog : log = (q.dueOnce now).map (fun e => (e.2, e.1)) ++ log₂ := by
    have hq₂ : q'.ran = q₂.ran := by
      rw [← he]
      exact foldl_update_ran
    rw [hq₂, hwd.ran, hs.ran, List.append_assoc] at hran
    exact (List.append_cancel_left hran).symm
  subst hlog
  have hf : ∀ k ≤ now, q.Front body now k := fun k hk _ _ hlt => hk.trans_lt hlt
  have hset := walk_settles hf hs.front hs.walking hw hwd.ran
    fun r hr => hd r (List.mem_append_right _ hr)
  intro x hx hk
  have ⟨e, he, hx⟩ := (hs.items x hk).mp hx
  exact hx ▸ hset e he

theorem runsDue_iff (h : q.WellFormed) :
    q.RunsDue body now clock ↔
      ∀ x ∈ q.repeatItems body now, x.1 ≤ now → Settles body now (q.Front body now) x where
  mp  := settles_of_runsDue h
  mpr := runsDue_of_settles h

theorem addTimer_wellFormed {timer : Timer γ} (h : q.WellFormed) :
    (q.addTimer timer clock).WellFormed := by
  exact (addTimer_adds q timer clock).wellFormed h

theorem runsDue_of_later :
    (((new fun _ => ⟨0, 0, false⟩).addTimer ⟨10, 10, false⟩ 0).addTimer ⟨20, 10, true⟩ 0).RunsDue
      (fun last => if last then [] else [.runEvery 10 30 true 10]) 10 10 := by
  refine (runsDue_iff (addTimer_wellFormed (addTimer_wellFormed new_wellFormed))).mpr ?_
  have hi : (((new fun _ => ⟨0, 0, false⟩).addTimer ⟨10, 10, false⟩ 0).addTimer
      ⟨20, 10, true⟩ 0).repeatItems (fun last => if last then []
        else [.runEvery 10 30 true 10]) 10 =
      [(10, false), (20, true)] := by
    decide +kernel
  have hr : repeated [Action.runEvery 10 30 true 10] = [(40, true)] := by
    decide +kernel
  simp only [hi, List.mem_cons, List.not_mem_nil, or_false]
  intro x hx hk
  obtain rfl | rfl := hx
  · constructor <;> intro y hy <;> obtain rfl := List.mem_singleton.mp (hr ▸ hy)
    · intro _ hf
      rw [Front, hi] at hf
      exact absurd (hf (20, true) (by simp) (by decide)) (by decide)
    · intro _ hk
      exact absurd hk (by decide)
  · exact absurd hk (by decide)

-- The callback of the only timer, which is due, adds a timer for 5 nanoseconds later: the pass runs
-- that timer as well.
theorem not_runsDue_of_sooner :
    ¬((new fun _ => ⟨0, 0, false⟩).addTimer ⟨10, 10, false⟩ 0).RunsDue
      (fun last => if last then [] else [.runEvery 10 5 true 10]) 10 10 := by
  intro hr
  have hs := settles_of_runsDue (addTimer_wellFormed new_wellFormed) hr
  have hi : ((new fun _ => ⟨0, 0, false⟩).addTimer ⟨10, 10, false⟩ 0).repeatItems
      (fun last => if last then [] else [.runEvery 10 5 true 10]) 10 = [(10, false)] := by
    decide +kernel
  simp only [hi, List.mem_singleton, forall_eq] at hs
  cases hs le_rfl
  case intro hq _ =>
    have hm : ((15, true) : TimePoint × Bool) ∈ repeated [Action.runEvery 10 5 true 10] := by
      decide +kernel
    refine hq (15, true) hm (by decide) ?_
    rw [Front, hi]
    intro x hx hlt
    exact absurd (List.mem_singleton.mp hx ▸ hlt) (by decide)

example : (((new fun _ => ⟨0, 0, false⟩).addTimer ⟨10, 10, false⟩ 0).handleRead
      (fun last => if last then [] else [.runEvery 10 5 true 10]) 10 10 3).map (·.ran) =
    some [(0, 10), (1, 15)] := by
  decide +kernel

end Bounce.TimerQueue
