import Bounce.Objects.TimerQueue.Basic

namespace Bounce.TimerQueue

variable {γ : Type} {q q' q₁ q₂ q₃ : TimerQueue γ} {timer : Timer γ} {t : TimerPtr}
variable {clock : TimePoint}
variable {body : γ → List (Action γ)} {log log₁ log₂ : List (TimerPtr × TimePoint)}

open Multimap

abbrev Entry := TimePoint × TimerPtr

def entries (q : TimerQueue γ) : List Entry :=
  q.timerMapOnce.entries ++ q.timerMapRepeat.entries

structure WellFormed (q : TimerQueue γ) : Prop where
  key   : ∀ e ∈ q.entries, (q.timer e.2).expiration = e.1
  fresh : ∀ e ∈ q.entries, e.2 < q.allocated
  nodup : (q.entries.map (·.2)).Nodup

theorem new_wellFormed {timer : TimerPtr → Timer γ} : (new timer).WellFormed where
  key   := by simp [entries, new, empty]
  fresh := by simp [entries, new, empty]
  nodup := by simp [entries, new, empty]

theorem WellFormed.sublist (h : q.WellFormed) (hs : q'.entries.Sublist q.entries)
    (ht : q'.timer = q.timer) (ha : q'.allocated = q.allocated) : q'.WellFormed where
  key e he   := ht ▸ h.key e (hs.subset he)
  fresh e he := ha ▸ h.fresh e (hs.subset he)
  nodup      := h.nodup.sublist (hs.map _)

theorem resetTimerfd_wellFormed (h : q.WellFormed) : (q.resetTimerfd clock).WellFormed :=
  ⟨h.key, h.fresh, h.nodup⟩

def repeated : List (Action γ) → List (TimePoint × γ)
  | []                          => []
  | .addTimer timer _ :: actions =>
    if timer.repeats then
      (timer.expiration, timer.timeOutCb) :: repeated actions
    else
      repeated actions
  | .deleteTimer _ :: actions    => repeated actions

theorem repeated_append {as₁ as₂ : List (Action γ)} :
    repeated (as₁ ++ as₂) = repeated as₁ ++ repeated as₂ := by
  induction as₁
  case nil => rfl
  case cons action _ hi =>
    cases action
    case addTimer timer _ => by_cases hr : timer.repeats <;> simp [repeated, hr, hi]
    case deleteTimer      => simpa [repeated] using hi

def item (q : TimerQueue γ) (e : Entry) : TimePoint × γ :=
  (e.1, (q.timer e.2).timeOutCb)

-- What the actions of a callback do to the maps: they add new entries, `os` for the timers that run
-- once and `rs` for the repeat timers.
structure Adds (actions : List (Action γ)) (log : List (TimerPtr × TimePoint)) (q : TimerQueue γ)
    (os rs : List Entry) (q' : TimerQueue γ) : Prop where
  once      : q'.timerMapOnce.entries = insertEntries q.timerMapOnce.entries os
  repeat'   : q'.timerMapRepeat.entries = insertEntries q.timerMapRepeat.entries rs
  items     : rs.map q'.item = repeated actions
  key       : ∀ e ∈ os ++ rs, (q'.timer e.2).expiration = e.1
  fresh     : ∀ e ∈ os ++ rs, q.allocated ≤ e.2 ∧ e.2 < q'.allocated
  nodup     : ((os ++ rs).map (·.2)).Nodup
  timer     : ∀ t < q.allocated, q'.timer t = q.timer t
  allocated : q.allocated ≤ q'.allocated
  ran       : q'.ran = q.ran ++ log

theorem Adds.nil : Adds [] [] q [] [] q := by
  constructor <;> simp [repeated, insertEntries]

theorem Adds.trans {as₁ as₂ : List (Action γ)} {os₁ os₂ rs₁ rs₂ : List Entry}
    (h₁ : Adds as₁ log₁ q₁ os₁ rs₁ q₂) (h₂ : Adds as₂ log₂ q₂ os₂ rs₂ q₃) :
    Adds (as₁ ++ as₂) (log₁ ++ log₂) q₁ (os₁ ++ os₂) (rs₁ ++ rs₂) q₃ := by
  have hm : ∀ e ∈ (os₁ ++ os₂) ++ (rs₁ ++ rs₂), e ∈ os₁ ++ rs₁ ∨ e ∈ os₂ ++ rs₂ := by
    intro e
    simp only [List.mem_append]
    tauto
  have ht : ∀ e ∈ os₁ ++ rs₁, q₃.timer e.2 = q₂.timer e.2 := by
    intro e he
    exact h₂.timer _ (h₁.fresh e he).right
  exact {
    once := by rw [h₂.once, h₁.once, insertEntries, insertEntries, insertEntries, List.foldl_append]
    repeat' := by
      rw [h₂.repeat', h₁.repeat', insertEntries, insertEntries, insertEntries, List.foldl_append]
    items := by
      have hr : rs₁.map q₃.item = rs₁.map q₂.item := by
        apply List.map_congr_left
        intro e he
        rw [item, item, ht e (List.mem_append_right _ he)]
      rw [List.map_append, hr, h₁.items, h₂.items, repeated_append]
    key := by
      intro e he
      cases hm e he
      case inl he => rw [ht e he, h₁.key e he]
      case inr he => exact h₂.key e he
    fresh := by
      intro e he
      cases hm e he
      case inl he => exact ⟨(h₁.fresh e he).left, (h₁.fresh e he).right.trans_le h₂.allocated⟩
      case inr he => exact ⟨h₁.allocated.trans (h₂.fresh e he).left, (h₂.fresh e he).right⟩
    nodup := by
      have hp : ((os₁ ++ os₂) ++ (rs₁ ++ rs₂)).Perm ((os₁ ++ rs₁) ++ (os₂ ++ rs₂)) := by
        rw [List.append_assoc, List.append_assoc]
        exact (List.perm_append_comm_assoc ..).append_left os₁
      rw [(hp.map _).nodup_iff, List.map_append]
      refine h₁.nodup.append h₂.nodup ?_
      intro t ht₁ ht₂
      obtain ⟨e₁, he₁, rfl⟩ := List.mem_map.mp ht₁
      obtain ⟨e₂, he₂, he⟩ := List.mem_map.mp ht₂
      exact (h₁.fresh e₁ he₁).right.not_ge (he ▸ (h₂.fresh e₂ he₂).left)
    timer := fun t ht => (h₂.timer t (ht.trans_le h₁.allocated)).trans (h₁.timer t ht)
    allocated := h₁.allocated.trans h₂.allocated
    ran := by rw [h₂.ran, h₁.ran, List.append_assoc]
  }

def added (t : TimerPtr) : List (Action γ) → List (TimerPtr × Timer γ)
  | []                           => []
  | .addTimer timer _ :: actions => (t, timer) :: added (t + 1) actions
  | .deleteTimer _ :: actions    => added t actions

def onceEntries (new : List (TimerPtr × Timer γ)) : List Entry :=
  (new.filter (!·.2.repeats)).map fun x => (x.2.expiration, x.1)

def repeatEntries (new : List (TimerPtr × Timer γ)) : List Entry :=
  (new.filter (·.2.repeats)).map fun x => (x.2.expiration, x.1)

theorem onceEntries_append {new₁ new₂ : List (TimerPtr × Timer γ)} :
    onceEntries (new₁ ++ new₂) = onceEntries new₁ ++ onceEntries new₂ := by
  simp [onceEntries]

theorem repeatEntries_append {new₁ new₂ : List (TimerPtr × Timer γ)} :
    repeatEntries (new₁ ++ new₂) = repeatEntries new₁ ++ repeatEntries new₂ := by
  simp [repeatEntries]

theorem mem_onceEntries {new : List (TimerPtr × Timer γ)} {e : Entry} :
    e ∈ onceEntries new ↔ ∃ x ∈ new, ¬x.2.repeats ∧ (x.2.expiration, x.1) = e := by
  simp [onceEntries, and_assoc]

theorem mem_repeatEntries {new : List (TimerPtr × Timer γ)} {e : Entry} :
    e ∈ repeatEntries new ↔ ∃ x ∈ new, x.2.repeats ∧ (x.2.expiration, x.1) = e := by
  simp [repeatEntries, and_assoc]

theorem added_pointers {actions : List (Action γ)} (t : TimerPtr) :
    (added t actions).map (·.1) = List.range' t (added t actions).length := by
  induction actions generalizing t
  case nil => rfl
  case cons action _ hi =>
    cases action
    case addTimer    => simp [added, hi, List.range'_succ]
    case deleteTimer => exact hi t

theorem added_append {as₁ as₂ : List (Action γ)} (t : TimerPtr) :
    added t (as₁ ++ as₂) = added t as₁ ++ added (t + (added t as₁).length) as₂ := by
  induction as₁ generalizing t
  case nil => rfl
  case cons action _ hi =>
    cases action
    case addTimer =>
      rw [List.cons_append, added, added, hi, Nat.add_right_comm]
      rfl
    case deleteTimer => exact hi t

theorem insertTimer_adds (q : TimerQueue γ) (timer : Timer γ) (clock : TimePoint) :
    Adds [.addTimer timer clock] [] q (onceEntries [(q.allocated, timer)])
      (repeatEntries [(q.allocated, timer)]) ((q.allocate timer).insertTimer q.allocated) := by
  by_cases hr : timer.repeats
  case pos =>
    constructor <;>
      simp +contextual [insertTimer, allocate, hr, insertEntries, Multimap.insert, repeated, item,
        onceEntries, repeatEntries, Nat.ne_of_lt]
  case neg =>
    constructor <;>
      simp +contextual [insertTimer, allocate, hr, insertEntries, Multimap.insert, repeated,
        onceEntries, repeatEntries, Nat.ne_of_lt]

theorem addTimer_adds (q : TimerQueue γ) (timer : Timer γ) (clock : TimePoint) :
    Adds [.addTimer timer clock] [] q (onceEntries [(q.allocated, timer)])
      (repeatEntries [(q.allocated, timer)]) (q.addTimer timer clock) := by
  have h := insertTimer_adds q timer clock
  simp only [addTimer, addTimerInLoop]
  split
  case isTrue =>
    exact ⟨h.once, h.repeat', h.items, h.key, h.fresh, h.nodup, h.timer, h.allocated, h.ran⟩
  case isFalse => exact h

@[simp]
theorem addTimer_allocated : (q.addTimer timer clock).allocated = q.allocated + 1 := by
  simp only [addTimer, addTimerInLoop, insertTimer]
  split <;> split <;> rfl

theorem addTimer_timer : (q.addTimer timer clock).timer q.allocated = timer := by
  simp only [addTimer, addTimerInLoop, insertTimer]
  split <;> split <;> simp [resetTimerfd, allocate]

theorem foldl_adds (q : TimerQueue γ) (actions : List (Action γ)) :
    Adds actions [] q (onceEntries (added q.allocated actions))
      (repeatEntries (added q.allocated actions)) (actions.foldl exec q) := by
  induction actions generalizing q
  case nil => exact .nil
  case cons action actions hi =>
    cases action
    case addTimer timer clock =>
      have h := (addTimer_adds q timer clock).trans (hi (q.addTimer timer clock))
      rwa [← onceEntries_append, ← repeatEntries_append, addTimer_allocated] at h
    case deleteTimer t =>
      have h := hi (q.deleteTimer t)
      exact ⟨h.once, h.repeat', h.items, h.key, h.fresh, h.nodup, h.timer, h.allocated, h.ran⟩

theorem foldl_allocated (q : TimerQueue γ) (actions : List (Action γ)) :
    (actions.foldl exec q).allocated = q.allocated + (added q.allocated actions).length := by
  induction actions generalizing q
  case nil => rfl
  case cons action actions hi =>
    cases action
    case addTimer timer clock =>
      rw [List.foldl_cons, exec, hi, addTimer_allocated, added, List.length_cons]
      exact Nat.add_right_comm ..
    case deleteTimer t => exact hi (q.deleteTimer t)

theorem foldl_timer (q : TimerQueue γ) (actions : List (Action γ)) :
    ∀ x ∈ added q.allocated actions, (actions.foldl exec q).timer x.1 = x.2 := by
  induction actions generalizing q
  case nil => simp [added]
  case cons action actions hi =>
    cases action
    case addTimer timer clock =>
      have hi := hi (q.addTimer timer clock)
      have ht := (foldl_adds (q.addTimer timer clock) actions).timer q.allocated (by simp)
      rw [addTimer_allocated] at hi
      exact List.forall_mem_cons.mpr ⟨ht.trans addTimer_timer, hi⟩
    case deleteTimer t => exact hi (q.deleteTimer t)

theorem Adds.entries_perm {actions : List (Action γ)} {os rs : List Entry}
    (h : Adds actions log q os rs q') : q'.entries.Perm (q.entries ++ (os ++ rs)) := by
  rw [entries, entries, h.once, h.repeat', List.append_assoc]
  refine (insertEntries_perm.append insertEntries_perm).trans ?_
  rw [List.append_assoc]
  exact (List.perm_append_comm_assoc ..).append_left _

theorem Adds.wellFormed {actions : List (Action γ)} {os rs : List Entry}
    (h : Adds actions log q os rs q') (hq : q.WellFormed) : q'.WellFormed := by
  have hp := h.entries_perm
  exact {
    key := by
      intro e he
      cases List.mem_append.mp (hp.mem_iff.mp he)
      case inl he => rw [h.timer _ (hq.fresh e he), hq.key e he]
      case inr he => exact h.key e he
    fresh := by
      intro e he
      cases List.mem_append.mp (hp.mem_iff.mp he)
      case inl he => exact (hq.fresh e he).trans_le h.allocated
      case inr he => exact (h.fresh e he).right
    nodup := by
      rw [(hp.map _).nodup_iff, List.map_append]
      refine hq.nodup.append h.nodup ?_
      intro t ht₁ ht₂
      obtain ⟨e₁, he₁, rfl⟩ := List.mem_map.mp ht₁
      obtain ⟨e₂, he₂, he⟩ := List.mem_map.mp ht₂
      exact (hq.fresh e₁ he₁).not_ge (he ▸ (h.fresh e₂ he₂).left)
  }

def addedBy (q : TimerQueue γ) (body : γ → List (Action γ)) (t : TimerPtr) :
    List (TimerPtr × Timer γ) :=
  added q.allocated (body (q.timer t).timeOutCb)

theorem execCallback_adds (q : TimerQueue γ) (body : γ → List (Action γ)) (t : TimerPtr) :
    Adds (body (q.timer t).timeOutCb) [(t, (q.timer t).expiration)] q
      (onceEntries (q.addedBy body t))
      (repeatEntries (q.addedBy body t)) (q.execCallback body t) := by
  have h := foldl_adds { q with ran := q.ran ++ [(t, (q.timer t).expiration)] }
    (body (q.timer t).timeOutCb)
  exact {
    h with
    ran := h.ran.trans (List.append_nil _)
  }

theorem execCallback_allocated :
    (q.execCallback body t).allocated = q.allocated + (q.addedBy body t).length :=
  foldl_allocated { q with ran := q.ran ++ [(t, (q.timer t).expiration)] } _

theorem execCallback_timer : ∀ x ∈ q.addedBy body t, (q.execCallback body t).timer x.1 = x.2 :=
  foldl_timer { q with ran := q.ran ++ [(t, (q.timer t).expiration)] } _

def actionsOf (q : TimerQueue γ) (body : γ → List (Action γ)) (es : List Entry) : List (Action γ) :=
  es.flatMap fun e => body (q.timer e.2).timeOutCb

theorem actionsOf_congr (body : γ → List (Action γ)) {es : List Entry}
    (h : ∀ e ∈ es, q'.timer e.2 = q.timer e.2) : q'.actionsOf body es = q.actionsOf body es := by
  apply List.flatMap_congr
  intro e he
  rw [h e he]

end Bounce.TimerQueue
