import Bounce.Objects.TimerQueue.Theorems.Expiry
import Bounce.Objects.TimerQueue.Theorems.Performs

namespace Bounce

variable {γ : Type}

def Timer.advance (t : Timer γ) (n : Nat) : Timer γ :=
  { t with expiration := t.expiration + Int64.ofNat n * t.duration }

theorem Timer.advance_zero (t : Timer γ) : t.advance 0 = t := by
  simp [advance]

theorem Timer.advance_timerUpdate (t : Timer γ) (n : Nat) :
    t.timerUpdate.advance n = t.advance (n + 1) := by
  have he : t.expiration + t.duration + Int64.ofNat n * t.duration =
      t.expiration + (Int64.ofNat n + 1) * t.duration := by
    grind
  rw [timerUpdate]
  split
  case isTrue    => simp [advance, Int64.ofNat_add, he]
  case isFalse h => simp [advance, not_not.mp h]

namespace TimerQueue

variable {q q' : TimerQueue γ} {body : γ → List (Action γ)} {now clock : TimePoint} {fuel : Nat}
variable {ts : List TimerPtr}

open Multimap

theorem foldl_update_timer (ts : List TimerPtr) (t : TimerPtr) :
    (ts.foldl update q).timer t = (q.timer t).advance (ts.count t) := by
  induction ts generalizing q
  case nil => exact (Timer.advance_zero _).symm
  case cons t' ts hi =>
    rw [List.foldl_cons, hi, List.count_cons]
    by_cases ht : t' = t
    case pos => simp [update, ht, Timer.advance_timerUpdate]
    case neg => simp [update, ht, Ne.symm ht]

theorem foldl_update_once : (ts.foldl update q).timerMapOnce = q.timerMapOnce := by
  induction ts generalizing q
  case nil => rfl
  case cons hi => exact hi

theorem foldl_update_allocated : (ts.foldl update q).allocated = q.allocated := by
  induction ts generalizing q
  case nil => rfl
  case cons hi => exact hi

theorem foldl_update_pointers :
    ((ts.foldl update q).timerMapRepeat.entries.map (·.2)).Perm
      (q.timerMapRepeat.entries.map (·.2) ++ ts) := by
  induction ts generalizing q
  case nil => simp
  case cons t ts hi =>
    have hp : ((q.update t).timerMapRepeat.entries.map (·.2)).Perm
        (t :: q.timerMapRepeat.entries.map (·.2)) := (List.perm_orderedInsert ..).map _
    exact hi.trans ((hp.append_right ts).trans List.perm_middle.symm)

inductive Reached (q : TimerQueue γ) (body : γ → List (Action γ)) (now : TimePoint) :
    TimePoint × γ → Prop
  | due {x} : x ∈ q.repeatItems body now → x.1 ≤ now → Reached q body now x
  | spawned {x y} : Reached q body now x → Spawns body (q.Front body now) y x → Reached q body now y

-- What one `handleRead` does: it runs the timers that run once and are due, and then the repeat
-- timers `run`. It removes these and the entries `behind`, and the entries `rest` stay in the map.
structure Reads (body : γ → List (Action γ)) (now : TimePoint) (q : TimerQueue γ)
    (run behind rest : List Entry) (q' : TimerQueue γ) : Prop where
  wellFormed : q'.WellFormed
  once       : q'.timerMapOnce.entries =
    insertEntries (q.timerMapOnce.entries.dropWhile (·.1 ≤ now))
    (onceEntries (added q.allocated (q'.actionsOf body (q.dueOnce now ++ run))))
  pointers   : (q'.timerMapRepeat.entries.map (·.2)).Perm (rest.map (·.2) ++ run.map (·.2))
  entries    : (run ++ behind ++ rest).Perm
    (q.timerMapRepeat.entries ++ q.newRepeats (q'.actionsOf body (q.dueOnce now ++ run)))
  allocated  : q'.allocated =
    q.allocated + (added q.allocated (q'.actionsOf body (q.dueOnce now ++ run))).length
  ran        : q'.ran = q.ran ++ (q.dueOnce now ++ run).map fun e => (e.2, e.1)
  old        : ∀ t < q.allocated, q'.timer t = (q.timer t).advance ((run.map (·.2)).count t)
  new        : ∀ x ∈ added q.allocated (q'.actionsOf body (q.dueOnce now ++ run)),
    q'.timer x.1 = x.2.advance ((run.map (·.2)).count x.1)
  reached    : ∀ x, q.Reached body now x ↔ ∃ e ∈ run, q'.item e = x
  behind     : behind = [] ↔ ∀ x, q.Reached body now x → ∀ y ∈ repeated (body x.2), x.1 ≤ y.1
  acc        : ∀ x, q.Reached body now x → Acc (Spawns body (q.Front body now)) x

theorem runOnce_performs (body : γ → List (Action γ)) (now : TimePoint) (h : q.WellFormed) :
    ∃ q₀ : TimerQueue γ, q₀.timerMapOnce.entries = q.timerMapOnce.entries.dropWhile (·.1 ≤ now) ∧
      q₀.timer = q.timer ∧ q₀.allocated = q.allocated ∧
      Performs (q.actionsOf body (q.dueOnce now)) q₀ (q.readFd.runOnce body now) ∧
      (q.readFd.runOnce body now).timerMapRepeat.entries = insertEntries q.timerMapRepeat.entries
        (q.newRepeats (q.actionsOf body (q.dueOnce now))) := by
  have ⟨q₀, he, ho, hr, ht, hal, _⟩ := runOnce_eq body now (q := q.readFd) ⟨h.key, h.fresh, h.nodup⟩
  have he : q.readFd.runOnce body now =
      (q.dueOnce now).foldl (fun q e => q.execCallback body e.2) q₀ := he
  have hdue : ∀ e ∈ q.dueOnce now, e.2 < q₀.allocated := by
    intro e he
    exact hal ▸ h.fresh e (List.mem_append_left _ (List.mem_filter.mp he).left)
  have hact : q₀.actionsOf body (q.dueOnce now) = q.actionsOf body (q.dueOnce now) := by
    rw [actionsOf, ht, actionsOf]
  refine ⟨q₀, ho, ht, hal, ?_, ?_⟩
  · exact he ▸ hact ▸ foldl_performs body hdue
  · rw [he, (foldl_callbacks body hdue).repeat', hr, hact, hal]

theorem handleRead_reads (h : q.WellFormed) (hr : q.handleRead body now clock fuel = some q') :
    ∃ run behind rest, Reads body now q run behind rest q' := by
  have h₀ : q.readFd.WellFormed := ⟨h.key, h.fresh, h.nodup⟩
  have ⟨todo, l₃, hs⟩ := runOnce_starts body now h₀
  have ⟨q₀, ho, ht₀, hal₀, hp₀, hr₀⟩ := runOnce_performs body now h
  generalize hq : q.readFd.runOnce body now = q₁ at hs hp₀ hr₀
  have hr' := hr
  rw [handleRead_eq clock fuel hq.symm hs, Option.map_eq_some_iff] at hr
  have ⟨⟨q₂, ts⟩, hw, he⟩ := hr
  have ⟨run, behind, l₁', rest, ht, hts⟩ := walk_traversed hs.front hs.walking hw
  subst hts
  have hw₂ := ht.walking.wellFormed
  have hent : q₂.timerMapRepeat.entries = l₁' ++ rest := by simpa using ht.walking.entries
  have hrest : (q₂.timerMapRepeat.eraseBefore (iterator l₃)).entries = rest := by
    have hi : iterator l₃ = iterator rest := by rw [iterator, iterator, ht.head]
    have hn := ht.walking.nodup
    rw [hi]
    exact onward_iterator hent (by simpa [hent] using hn)
  obtain ⟨q₃, hrest, ht₃, ho₃, hal₃, hran₃, he⟩ : ∃ q₃ : TimerQueue γ,
      q₃.timerMapRepeat.entries = rest ∧ q₃.timer = q₂.timer ∧ q₃.timerMapOnce = q₂.timerMapOnce ∧
      q₃.allocated = q₂.allocated ∧ q₃.ran = q₂.ran ∧
      ((run.map (·.2)).foldl update q₃).resetTimerfd clock = q' :=
    ⟨{ q₂ with timerMapRepeat := q₂.timerMapRepeat.eraseBefore (iterator l₃) }, hrest, rfl, rfl,
      rfl, rfl, he⟩
  have htimer : ∀ t, q'.timer t = (q₂.timer t).advance ((run.map (·.2)).count t) := by
    intro t
    rw [← he, ← ht₃]
    exact foldl_update_timer _ t
  have hitem : ∀ e, q'.item e = q₂.item e := by
    intro e
    rw [item, item, htimer]
    rfl
  have hact : ∀ es, q'.actionsOf body es = q₂.actionsOf body es := by
    intro es
    exact congrArg es.flatMap (funext fun e => by rw [htimer]; rfl)
  -- All callbacks of the pass, from the state behind the erasure on.
  have hdue : q₂.actionsOf body (q.dueOnce now) = q.actionsOf body (q.dueOnce now) := by
    apply actionsOf_congr
    intro e hm
    have hlt : e.2 < q₀.allocated :=
      hal₀ ▸ h.fresh e (List.mem_append_left _ (List.mem_filter.mp hm).left)
    rw [ht.performs.old _ (hlt.trans_le hp₀.le), hp₀.old _ hlt, ht₀]
  have hp : Performs (q'.actionsOf body (q.dueOnce now ++ run)) q₀ q₂ := by
    rw [hact, actionsOf, List.flatMap_append]
    exact (hdue.symm ▸ hp₀).trans ht.performs
  have hstart : ∀ e ∈ todo, q₂.item e = q₁.item e := by
    intro e hm
    rw [item, item, ht.performs.old _
      (hs.walking.wellFormed.fresh e (hs.walking.mem_entries (by simp [hm])))]
  have hreached : ∀ x, q.Reached body now x ↔ ∃ e ∈ run, q'.item e = x := by
    intro x
    simp only [hitem]
    constructor
    case mp =>
      intro hx
      induction hx
      case due x hx hk =>
        obtain ⟨e, hm, hx⟩ := (hs.items x hk).mp hx
        exact ⟨e, ht.reaches e hm, (hstart e hm).trans hx⟩
      case spawned y _ hsp hi =>
        obtain ⟨e, hm, hx⟩ := hi
        exact ht.spawned e hm y (hx ▸ hsp)
    case mpr =>
      rintro ⟨e, hm, hx⟩
      refine hx ▸ ht.reached (q.Reached body now) (fun _ _ => .spawned) ?_ e hm
      intro e hm
      have hk := hs.due e hm
      exact .due ((hs.items (q₁.item e) hk).mpr ⟨e, hm, rfl⟩) hk
  refine ⟨run, behind, rest, ?_⟩
  exact {
    wellFormed := handleRead_wellFormed h hr'
    once := by
      have hq' : q'.timerMapOnce = q₂.timerMapOnce := by
        rw [← he, ← ho₃]
        exact foldl_update_once
      rw [hq', hp.once, ho, hal₀]
    pointers := by
      rw [← he, ← hrest]
      exact foldl_update_pointers
    entries := by
      have hl : (run ++ behind).Perm l₁' := by simpa using ht.left.symm
      have hq₁ : todo ++ l₃ = insertEntries q.timerMapRepeat.entries
          (q.newRepeats (q.actionsOf body (q.dueOnce now))) := by
        rw [← List.nil_append todo, ← hs.walking.entries]
        exact hr₀
      have hnew : q.newRepeats (q'.actionsOf body (q.dueOnce now ++ run)) =
          q.newRepeats (q.actionsOf body (q.dueOnce now)) ++
            q₁.newRepeats (q₂.actionsOf body run) := by
        have hn := newRepeats_append hp₀ (q₂.actionsOf body run)
        rw [newRepeats, newRepeats, hal₀] at hn
        rw [hact, newRepeats, newRepeats, ← hn, actionsOf, List.flatMap_append, ← hdue]
        rfl
      have hent := ht.entries
      rw [List.nil_append, hq₁] at hent
      rw [hnew, ← List.append_assoc]
      exact (hl.append_right rest).trans (hent.trans (insertEntries_perm.append_right _))
    allocated := by
      have hq' : q'.allocated = q₂.allocated := by
        rw [← he, ← hal₃]
        exact foldl_update_allocated
      rw [hq', hp.allocated, hal₀]
    ran := by
      have hq' : q'.ran = q₂.ran := by
        rw [← he, ← hran₃]
        exact foldl_update_ran
      rw [hq', ht.ran, hs.ran, List.map_append, List.append_assoc]
      rfl
    old := by
      intro t hlt
      rw [htimer, hp.old t (hal₀ ▸ hlt), ht₀]
    new := by
      intro x hx
      rw [htimer, hp.new x (hal₀ ▸ hx)]
    reached := hreached
    behind := by
      rw [ht.behind]
      constructor
      case mp =>
        intro hb x hx y hy
        obtain ⟨e, hm, hx⟩ := (hreached x).mp hx
        rw [hitem] at hx
        subst hx
        exact hb e hm y hy
      case mpr =>
        intro hb e hm y hy
        exact hb _ ((hreached _).mpr ⟨e, hm, hitem e⟩) y hy
    acc := by
      intro x hx
      obtain ⟨e, hm, hx⟩ := (hreached x).mp hx
      exact hx ▸ hitem e ▸ ht.acc e hm
  }

def logged (q q' : TimerQueue γ) : List TimerPtr :=
  (q'.ran.drop q.ran.length).map (·.1)

def addedSince (q : TimerQueue γ) (body : γ → List (Action γ)) (q' : TimerQueue γ) :
    List (TimerPtr × Timer γ) :=
  added q.allocated ((q.logged q').flatMap fun t => body (q'.timer t).timeOutCb)

structure KeepsRepeat (q : TimerQueue γ) (body : γ → List (Action γ))
    (q' : TimerQueue γ) : Prop where
  pointers : (q'.timerMapRepeat.entries.map (·.2)).Perm (q.timerMapRepeat.entries.map (·.2) ++
    ((q.addedSince body q').filter (·.2.repeats)).map (·.1))
  nodup    : (q'.timerMapRepeat.entries.map (·.2)).Nodup
  key      : ∀ e ∈ q'.timerMapRepeat.entries, e.1 = (q'.timer e.2).expiration
  present  : ∀ e ∈ q.timerMapRepeat.entries,
    q'.timer e.2 = (q.timer e.2).advance ((q.logged q').count e.2)
  added    : ∀ x ∈ q.addedSince body q', x.2.repeats →
    q'.timer x.1 = x.2.advance ((q.logged q').count x.1)

namespace Reads

variable {run behind rest : List Entry}

theorem logged (h : Reads body now q run behind rest q') :
    q.logged q' = (q.dueOnce now ++ run).map (·.2) := by
  rw [TimerQueue.logged, h.ran, List.drop_left, List.map_map]
  rfl

theorem addedSince (h : Reads body now q run behind rest q') :
    q.addedSince body q' = TimerQueue.added q.allocated
      (q'.actionsOf body (q.dueOnce now ++ run)) := by
  rw [TimerQueue.addedSince, h.logged, List.flatMap_map]
  rfl

theorem count (h : Reads body now q run behind rest q') {t : TimerPtr}
    (ht : t ∉ (q.dueOnce now).map (·.2)) : (q.logged q').count t = (run.map (·.2)).count t := by
  rw [h.logged, List.map_append, List.count_append, List.count_eq_zero.mpr ht, Nat.zero_add]

theorem keepsRepeat (h : Reads body now q run behind rest q') (hq : q.WellFormed)
    (hb : behind = []) : q.KeepsRepeat body q' where
  pointers := by
    have he := h.entries.map (·.2)
    rw [hb, List.append_nil] at he
    rw [h.addedSince]
    refine h.pointers.trans (List.perm_append_comm.trans ?_)
    simpa [newRepeats, repeatEntries, Function.comp_def] using he
  nodup := by
    have hn := h.wellFormed.nodup
    rw [TimerQueue.entries, List.map_append] at hn
    exact hn.of_append_right
  key e he := (h.wellFormed.key e (List.mem_append_right _ he)).symm
  present e he := by
    have hn := hq.nodup
    rw [TimerQueue.entries, List.map_append] at hn
    rw [h.count, h.old e.2 (hq.fresh e (List.mem_append_right _ he))]
    intro hm
    exact List.disjoint_of_nodup_append hn ((List.filter_sublist.map _).subset hm)
      (List.mem_map_of_mem he)
  added x hx _ := by
    rw [h.addedSince] at hx
    rw [h.count, h.new x hx]
    intro hm
    obtain ⟨e, he, heq⟩ := List.mem_map.mp hm
    have hlt := hq.fresh e (List.mem_append_left _ (List.mem_filter.mp he).left)
    exact (mem_added hx).left.not_gt (heq ▸ hlt)

theorem behind_eq_nil (h : Reads body now q run behind rest q') (hk : q.KeepsRepeat body q') :
    behind = [] := by
  have h₁ := h.pointers.length_eq
  have h₂ := h.entries.length_eq
  have h₃ := hk.pointers.length_eq
  rw [h.addedSince] at h₃
  simp only [newRepeats, repeatEntries, List.length_append, List.length_map] at h₁ h₂ h₃
  exact List.eq_nil_of_length_eq_zero (by omega)

end Reads

theorem handleRead_isSome_iff (clock : TimePoint) (h : q.WellFormed) :
    (∃ fuel q', q.handleRead body now clock fuel = some q') ↔
      ∀ x ∈ q.repeatItems body now, x.1 ≤ now → Acc (Spawns body (q.Front body now)) x := by
  constructor
  case mp =>
    intro ⟨fuel, q', hr⟩ x hx hk
    have ⟨_, _, _, hr⟩ := handleRead_reads h hr
    exact hr.acc x (.due hx hk)
  case mpr =>
    intro ha
    have h₀ : q.readFd.WellFormed := ⟨h.key, h.fresh, h.nodup⟩
    have ⟨todo, l₃, hs⟩ := runOnce_starts body now h₀
    generalize hq : q.readFd.runOnce body now = q₁ at hs
    have ht : ∀ e ∈ todo, Acc (Spawns body (q.Front body now)) (q₁.item e) := by
      intro e he
      have hk := hs.due e he
      exact ha (q₁.item e) ((hs.items (q₁.item e) hk).mpr ⟨e, he, rfl⟩) hk
    have ⟨n, q₂, ts, hw⟩ := walk_ends hs.front hs.walking ht []
    have he := handleRead_eq clock n hq.symm hs
    rw [hw] at he
    exact ⟨n, _, he⟩

end TimerQueue
end Bounce
