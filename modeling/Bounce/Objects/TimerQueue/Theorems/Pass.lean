import Bounce.Objects.TimerQueue.Theorems.Performs

namespace Bounce.TimerQueue

variable {γ : Type} {q q' : TimerQueue γ} {body : γ → List (Action γ)} {now clock : TimePoint}
variable {todo l₃ : List Entry} {t : TimerPtr}

open Multimap

theorem foldl_callbacks (body : γ → List (Action γ)) {es : List Entry}
    (he : ∀ e ∈ es, e.2 < q.allocated) :
    Adds (q.actionsOf body es) (es.map fun e => (e.2, (q.timer e.2).expiration)) q
      (onceEntries (added q.allocated (q.actionsOf body es)))
      (repeatEntries (added q.allocated (q.actionsOf body es)))
      (es.foldl (fun q e => q.execCallback body e.2) q) := by
  induction es generalizing q
  case nil => exact .nil
  case cons e es hi =>
    have ⟨h₀, hes⟩ := List.forall_mem_cons.mp he
    have h₁ := execCallback_adds q body e.2
    have h₂ := hi (q := q.execCallback body e.2) fun e' he' => (hes e' he').trans_le h₁.allocated
    have ht : ∀ e' ∈ es, (q.execCallback body e.2).timer e'.2 = q.timer e'.2 := by
      intro e' he'
      exact h₁.timer _ (hes e' he')
    have hl : es.map (fun e' => (e'.2, ((q.execCallback body e.2).timer e'.2).expiration)) =
        es.map fun e' => (e'.2, (q.timer e'.2).expiration) := by
      apply List.map_congr_left
      intro e' he'
      rw [ht e' he']
    have ha := h₁.trans h₂
    rw [actionsOf_congr body ht, hl, ← onceEntries_append, ← repeatEntries_append,
      execCallback_allocated, addedBy, ← added_append] at ha
    exact ha

def dueOnce (q : TimerQueue γ) (now : TimePoint) : List Entry :=
  q.timerMapOnce.entries.filter (·.1 ≤ now)

def repeatItems (q : TimerQueue γ) (body : γ → List (Action γ)) (now : TimePoint) :
    List (TimePoint × γ) :=
  q.timerMapRepeat.entries.map q.item ++
    repeated ((q.dueOnce now).flatMap fun e => body (q.timer e.2).timeOutCb)

def Front (q : TimerQueue γ) (body : γ → List (Action γ)) (now k : TimePoint) : Prop :=
  ∀ x ∈ q.repeatItems body now, now < x.1 → k < x.1

structure Starts (q : TimerQueue γ) (body : γ → List (Action γ)) (now : TimePoint)
    (q₁ : TimerQueue γ) (todo l₃ : List Entry) : Prop where
  walking : Walking q₁ [] todo l₃
  front   : ∀ k, inFront l₃ k ↔ q.Front body now k
  items   : ∀ x, x.1 ≤ now → (x ∈ q.repeatItems body now ↔ ∃ e ∈ todo, q₁.item e = x)
  due     : ∀ e ∈ todo, e.1 ≤ now
  present : ∀ e ∈ q.timerMapRepeat.entries, e.1 ≤ now → e ∈ todo
  ran     : q₁.ran = q.ran ++ (q.dueOnce now).map fun e => (e.2, e.1)
  apart   : ∀ e ∈ q.dueOnce now, e.2 < q₁.allocated ∧ e.2 ∉ todo.map (·.2)
  fuel    : ∀ fuel, q₁.runRepeat body now fuel =
    (q₁.walk body (iterator l₃) fuel (iterator (todo ++ l₃)) []).map fun (q, toUpdate) =>
      toUpdate.foldl update { q with timerMapRepeat := q.timerMapRepeat.eraseBefore (iterator l₃) }

theorem runOnce_eq (body : γ → List (Action γ)) (now : TimePoint) (h : q.WellFormed) :
    ∃ q₀, q.runOnce body now =
      (q.dueOnce now).foldl (fun q e => q.execCallback body e.2) q₀ ∧
    q₀.timerMapOnce.entries = q.timerMapOnce.entries.dropWhile (·.1 ≤ now) ∧
    q₀.timerMapRepeat = q.timerMapRepeat ∧ q₀.timer = q.timer ∧ q₀.allocated = q.allocated ∧
    q₀.ran = q.ran ∧ q₀.WellFormed := by
  have hn : (q.timerMapOnce.entries.map (·.2)).Nodup := by
    have hn := h.nodup
    rw [entries, List.map_append] at hn
    exact hn.of_append_left
  have hb := before_iterator (q.timerMapOnce.upTo_append now) hn
  have ho := onward_iterator (q.timerMapOnce.upTo_append now) hn
  refine ⟨{ q with timerMapOnce := q.timerMapOnce.eraseBefore (q.timerMapOnce.upperBound now) },
    ?_, ho, rfl, rfl, rfl, rfl, ?_⟩
  · rw [runOnce, upperBound, hb, takeWhile_eq_filter]
    rfl
  · exact h.sublist ((List.dropWhile_sublist _).append_right _) rfl rfl

theorem runOnce_starts (body : γ → List (Action γ)) (now : TimePoint) (h : q.WellFormed) :
    ∃ todo l₃, Starts q body now (q.runOnce body now) todo l₃ := by
  have ⟨q₀, he, ho, hr, ht, hal, hran, hw⟩ := runOnce_eq body now h
  have hdue : ∀ e ∈ q.dueOnce now, e ∈ q.entries := by
    intro e he
    exact List.mem_append_left _ (List.mem_filter.mp he).left
  have ha := foldl_callbacks (q := q₀) body (fun e he => hal ▸ h.fresh e (hdue e he))
  rw [← he] at ha
  have hw₁ := ha.wellFormed hw
  have hitems : ((q.runOnce body now).timerMapRepeat.entries.map (q.runOnce body now).item).Perm
      (q.repeatItems body now) := by
    rw [ha.repeat', hr]
    refine (insertEntries_perm.map _).trans ?_
    rw [List.map_append, ha.items, repeatItems, actionsOf, ht]
    have hm : q.timerMapRepeat.entries.map (q.runOnce body now).item =
        q.timerMapRepeat.entries.map q.item := by
      apply List.map_congr_left
      intro e he
      rw [item, item, ha.timer _ (hal ▸ h.fresh e (List.mem_append_right _ he)), ht]
    rw [hm]
  have hup := (q.runOnce body now).timerMapRepeat.upTo_append now
  have hsub : ∀ e, e ∈ (q.runOnce body now).timerMapRepeat.entries.takeWhile (·.1 ≤ now) ↔
      e ∈ (q.runOnce body now).timerMapRepeat.entries ∧ e.1 ≤ now := by
    intro e
    rw [takeWhile_eq_filter, List.mem_filter, decide_eq_true_iff]
  refine ⟨_, _, ⟨hw₁, hup, ?_⟩, ?_, ?_, ?_, ?_, ?_, ?_, ?_⟩
  · intro e he
    rw [inFront_dropWhile]
    exact fun e' _ hlt => ((hsub e).mp he).right.trans_lt hlt
  · intro k
    rw [inFront_dropWhile, Front]
    constructor
    · intro hk x hx hlt
      obtain ⟨e, he, hx⟩ := List.mem_map.mp (hitems.mem_iff.mpr hx)
      subst hx
      exact hk e he hlt
    · intro hk e he
      exact hk ((q.runOnce body now).item e) (hitems.mem_iff.mp (List.mem_map_of_mem he))
  · intro x hx
    rw [← hitems.mem_iff, List.mem_map]
    constructor
    · rintro ⟨e, he, hxe⟩
      subst hxe
      exact ⟨e, (hsub e).mpr ⟨he, hx⟩, rfl⟩
    · rintro ⟨e, he, hxe⟩
      exact ⟨e, ((hsub e).mp he).left, hxe⟩
  · exact fun e he => ((hsub e).mp he).right
  · intro e he hk
    rw [hsub, ha.repeat', hr]
    exact ⟨insertEntries_perm.mem_iff.mpr (List.mem_append_left _ he), hk⟩
  · rw [ha.ran, hran, ht]
    congr 1
    apply List.map_congr_left
    intro e he
    rw [h.key e (hdue e he)]
  · intro e he
    have hlt := h.fresh e (hdue e he)
    refine ⟨hlt.trans_le (hal ▸ ha.allocated), ?_⟩
    intro hm
    obtain ⟨e', he', heq⟩ := List.mem_map.mp hm
    have he' := ((hsub e').mp he').left
    rw [ha.repeat', hr] at he'
    cases List.mem_append.mp (insertEntries_perm.mem_iff.mp he')
    case inl he' =>
      have hn := h.nodup
      rw [entries, List.map_append] at hn
      exact List.disjoint_of_nodup_append hn
        (List.mem_map_of_mem (List.mem_filter.mp he).left) (heq ▸ List.mem_map_of_mem he')
    case inr he' =>
      exact hlt.not_ge (heq ▸ hal ▸ (ha.fresh e' (List.mem_append_right _ he')).left)
  · intro fuel
    rw [runRepeat, first, upperBound, ← hup]

theorem foldl_update_ran {ts : List TimerPtr} : (ts.foldl update q).ran = q.ran := by
  induction ts generalizing q
  case nil => rfl
  case cons hi => exact hi

abbrev readFd (q : TimerQueue γ) : TimerQueue γ :=
  { q with timerFd := q.timerFd.read }

theorem handleRead_eq {q₁ : TimerQueue γ} (clock : TimePoint) (fuel : Nat)
    (hq : q₁ = q.readFd.runOnce body now)
    (hs : Starts q.readFd body now q₁ todo l₃) :
    q.handleRead body now clock fuel =
      (q₁.walk body (iterator l₃) fuel (iterator (todo ++ l₃)) []).map fun (q₂, ts) =>
        (ts.foldl update { q₂ with
          timerMapRepeat := q₂.timerMapRepeat.eraseBefore (iterator l₃) }).resetTimerfd clock := by
  rw [handleRead, ← hq, hs.fuel, Option.map_map]
  rfl

theorem update_wellFormed (h : q.WellFormed) (ht : t < q.allocated)
    (hn : t ∉ q.entries.map (·.2)) : (q.update t).WellFormed := by
  have hp : (q.update t).entries.Perm (((q.timer t).timerUpdate.expiration, t) :: q.entries) := by
    refine ((List.perm_orderedInsert _ _ _).append_left _).trans ?_
    exact List.perm_middle
  have hne : ∀ e ∈ q.entries, e.2 ≠ t := fun e he heq => hn (heq ▸ List.mem_map_of_mem he)
  exact {
    key := by
      intro e he
      cases List.mem_cons.mp (hp.mem_iff.mp he)
      case inl he => simp [update, he]
      case inr he => simpa [update, hne e he] using h.key e he
    fresh := by
      intro e he
      cases List.mem_cons.mp (hp.mem_iff.mp he)
      case inl he => exact he ▸ ht
      case inr he => exact h.fresh e he
    nodup := by
      rw [(hp.map _).nodup_iff]
      exact h.nodup.cons hn
  }

theorem foldl_update_wellFormed {ts : List TimerPtr} (h : q.WellFormed) (hts : ts.Nodup)
    (ht : ∀ t ∈ ts, t < q.allocated ∧ t ∉ q.entries.map (·.2)) :
    (ts.foldl update q).WellFormed := by
  induction ts generalizing q
  case nil => exact h
  case cons t ts hi =>
    have ⟨h₁, hts⟩ := List.nodup_cons.mp hts
    have ⟨h₂, ht⟩ := List.forall_mem_cons.mp ht
    refine hi (update_wellFormed h h₂.left h₂.right) hts ?_
    intro t' ht'
    have ⟨hlt, hn⟩ := ht t' ht'
    refine ⟨hlt, ?_⟩
    intro hm
    have ⟨e, he, heq⟩ := List.mem_map.mp hm
    cases List.mem_append.mp he
    case inl he => exact hn (heq ▸ List.mem_map_of_mem (List.mem_append_left _ he))
    case inr he =>
      cases (List.mem_orderedInsert _).mp he
      case inl he =>
        subst he heq
        exact h₁ ht'
      case inr he => exact hn (heq ▸ List.mem_map_of_mem (List.mem_append_right _ he))

def pass (body : γ → List (Action γ)) (now : TimePoint) (fuel : Nat) (q : TimerQueue γ) :
    Option (TimerQueue γ) :=
  (q.readFd.runOnce body now).runRepeat body now fuel

theorem handleRead_pass {fuel : Nat} :
    q.handleRead body now clock fuel = (q.pass body now fuel).map (·.resetTimerfd clock) :=
  rfl

theorem pass_wellFormed {fuel : Nat} (h : q.WellFormed) (hp : q.pass body now fuel = some q') :
    q'.WellFormed := by
  have h₀ : q.readFd.WellFormed := ⟨h.key, h.fresh, h.nodup⟩
  have ⟨todo, l₃, hs⟩ := runOnce_starts body now h₀
  rw [pass, hs.fuel, Option.map_eq_some_iff] at hp
  have ⟨⟨q₂, ts⟩, hw, he⟩ := hp
  have ⟨log, l₁', l₃', h₂, hh, hts, hwd⟩ :=
    walk_spec (P := fun _ => True) (by simp) hs.front hs.walking (by simp) hw
  have hi : iterator l₃ = iterator l₃' := by rw [iterator, iterator, hh]
  have hent : q₂.timerMapRepeat.entries = l₁' ++ l₃' := by simpa using h₂.entries
  have hnd : ((l₁' ++ l₃').map (·.2)).Nodup := by simpa using h₂.nodup
  have hon : (q₂.timerMapRepeat.eraseBefore (iterator l₃)).entries = l₃' := by
    rw [hi]
    exact onward_iterator hent (hent ▸ hnd)
  rw [← he]
  apply foldl_update_wellFormed
  · refine h₂.wellFormed.sublist ?_ rfl rfl
    rw [entries, hon, entries, hent]
    exact (List.sublist_append_right _ _).append_left _
  · simpa [hts] using hwd.nodup
  · intro t ht
    obtain ⟨e, he, heq⟩ := List.mem_map.mp (hwd.passed t (by simpa [hts] using ht))
    subst heq
    refine ⟨h₂.wellFormed.fresh e (h₂.mem_entries (by simp [he])), ?_⟩
    intro hm
    obtain ⟨e', he', heq⟩ := List.mem_map.mp hm
    have hn := h₂.wellFormed.nodup
    rw [entries, hent, List.map_append] at hn
    have hm₁ : e.2 ∈ (l₁' ++ l₃').map (·.2) := List.mem_map_of_mem (List.mem_append_left _ he)
    rw [entries, hon] at he'
    cases List.mem_append.mp he'
    case inl he' => exact List.disjoint_of_nodup_append hn (heq ▸ List.mem_map_of_mem he') hm₁
    case inr he' =>
      rw [List.map_append] at hnd
      exact List.disjoint_of_nodup_append hnd (List.mem_map_of_mem he)
        (heq ▸ List.mem_map_of_mem he')

theorem handleRead_wellFormed {fuel : Nat} (h : q.WellFormed)
    (hr : q.handleRead body now clock fuel = some q') : q'.WellFormed := by
  rw [handleRead_pass, Option.map_eq_some_iff] at hr
  obtain ⟨q₁, hp, rfl⟩ := hr
  exact resetTimerfd_wellFormed (pass_wellFormed h hp)

end Bounce.TimerQueue
