import Bounce.Execution.Timers.Basic
import Bounce.Objects.TimerQueue.Theorems.Operations

namespace Bounce.Timers

variable {γ : Type} {q q' : TimerQueue γ} {tasks : List Task} {inserted : List TimerPtr}
variable {t : TimerPtr}

open TimerQueue Multimap

def Task.timer : Task → TimerPtr
  | .addTimerInLoop t | .deleteTimerInLoop t => t

def Task.Apart (task₁ task₂ : Task) : Prop :=
  ∀ t, task₂ = .addTimerInLoop t → task₁.timer ≠ t

def fired (q : TimerQueue γ) : List TimerPtr :=
  (q.ran.map (·.1)).filter fun t => !(q.timer t).repeats

-- A timer queue with the tasks that are queued for it, and the timers that were inserted into the
-- map of the timers that run once: each of these is still in the map or has been run.
structure Consistent (tasks : List Task) (q : TimerQueue γ) (inserted : List TimerPtr) : Prop where
  wellFormed : q.WellFormed
  once       : ∀ e ∈ q.timerMapOnce.entries, ¬(q.timer e.2).repeats
  repeat'    : ∀ e ∈ q.timerMapRepeat.entries, (q.timer e.2).repeats
  known      : ∀ task ∈ tasks, task.timer < q.allocated
  apart      : tasks.Pairwise Task.Apart
  adds       : ∀ t, .addTimerInLoop t ∈ tasks → t ∉ q.entries.map (·.2) ∧ t ∉ inserted
  nodup      : inserted.Nodup
  single     : ∀ t ∈ inserted, t < q.allocated ∧ ¬(q.timer t).repeats
  ran        : ∀ r ∈ q.ran, r.1 < q.allocated
  places     : (q.timerMapOnce.entries.map (·.2) ++ fired q).Perm inserted
  stable     : Stable inserted q.timerMapOnce.entries
  kept       : ∀ t < q.allocated, ¬(q.timer t).repeats → t ∈ inserted ∨ .addTimerInLoop t ∈ tasks

theorem fired_congr (hr : q'.ran = q.ran)
    (ht : ∀ r ∈ q.ran, (q'.timer r.1).repeats = (q.timer r.1).repeats) : fired q' = fired q := by
  rw [fired, fired, hr]
  apply List.filter_congr
  intro t hm
  have ⟨r, hm, heq⟩ := List.mem_map.mp hm
  rw [← heq, ht r hm]

theorem allocate_timer (timer : Timer γ) (ht : t < q.allocated) :
    (q.allocate timer).timer t = q.timer t :=
  Function.update_of_ne ht.ne ..

namespace Consistent

theorem new {timer : TimerPtr → Timer γ} : Consistent [] (new timer) [] where
  wellFormed := new_wellFormed
  once       := by simp [TimerQueue.new, empty]
  repeat'    := by simp [TimerQueue.new, empty]
  known      := by simp
  apart      := .nil
  adds       := by simp
  nodup      := .nil
  single     := by simp
  ran        := by simp [TimerQueue.new]
  places     := by simp [TimerQueue.new, empty, fired]
  stable     := .nil
  kept       := by simp [TimerQueue.new]

theorem mem_once (h : Consistent tasks q inserted) {e : Entry} (he : e ∈ q.timerMapOnce.entries) :
    e.2 ∈ inserted :=
  h.places.mem_iff.mp (List.mem_append_left _ (List.mem_map_of_mem he))

theorem allocate (tasks₁ tasks₂ : List Task) (h : Consistent (tasks₁ ++ tasks₂) q inserted)
    (timer : Timer γ) :
    Consistent (tasks₁ ++ .addTimerInLoop q.allocated :: tasks₂) (q.allocate timer) inserted := by
  have hold : ∀ e ∈ q.entries, (q.allocate timer).timer e.2 = q.timer e.2 :=
    fun e he => allocate_timer timer (h.wellFormed.fresh e he)
  have hmem : ∀ task, task ∈ tasks₁ ++ .addTimerInLoop q.allocated :: tasks₂ ↔
      task = .addTimerInLoop q.allocated ∨ task ∈ tasks₁ ++ tasks₂ := by
    intro task
    simp only [List.mem_append, List.mem_cons]
    tauto
  exact {
    wellFormed := {
      key e he   := hold e he ▸ h.wellFormed.key e he
      fresh e he := (h.wellFormed.fresh e he).trans (Nat.lt_succ_self _)
      nodup      := h.wellFormed.nodup
    }
    once e he := hold e (List.mem_append_left _ he) ▸ h.once e he
    repeat' e he := hold e (List.mem_append_right _ he) ▸ h.repeat' e he
    known := by
      intro task hm
      cases (hmem task).mp hm
      case inl hm => exact hm ▸ Nat.lt_succ_self _
      case inr hm => exact (h.known task hm).trans (Nat.lt_succ_self _)
    apart := by
      have ⟨h₁, h₂, h₁₂⟩ := List.pairwise_append.mp h.apart
      refine List.pairwise_append.mpr ⟨h₁, List.pairwise_cons.mpr ⟨?_, h₂⟩, ?_⟩
      · intro task hm t ht
        have hlt := h.known task (List.mem_append_right _ hm)
        rw [ht] at hlt
        exact hlt.ne'
      · intro task hm task₂ hm₂
        cases List.mem_cons.mp hm₂
        case inl hm₂ =>
          intro t ht
          have hlt := h.known task (List.mem_append_left _ hm)
          cases hm₂ ▸ ht
          exact hlt.ne
        case inr hm₂ => exact h₁₂ task hm task₂ hm₂
    adds := by
      intro t hm
      cases (hmem _).mp hm
      case inl hm =>
        cases hm
        refine ⟨?_, fun hi => (h.single _ hi).left.false⟩
        intro hi
        have ⟨e, he, heq⟩ := List.mem_map.mp hi
        exact (h.wellFormed.fresh e he).ne heq
      case inr hm => exact h.adds t hm
    nodup := h.nodup
    single := by
      intro t hm
      have ⟨hlt, hr⟩ := h.single t hm
      exact ⟨hlt.trans (Nat.lt_succ_self _), by rwa [allocate_timer timer hlt]⟩
    ran r hr := (h.ran r hr).trans (Nat.lt_succ_self _)
    places := by
      have hf : fired (q.allocate timer) = fired q := by
        refine fired_congr (q := q) rfl ?_
        intro r hr
        rw [allocate_timer timer (h.ran r hr)]
      exact hf ▸ h.places
    stable := h.stable
    kept := by
      intro t hlt hr
      cases Nat.lt_succ_iff_lt_or_eq.mp hlt
      case inl hlt =>
        rw [allocate_timer timer hlt] at hr
        exact (h.kept t hlt hr).imp_right fun hm => (hmem _).mpr (.inr hm)
      case inr heq => exact .inr ((hmem _).mpr (.inl (heq ▸ rfl)))
  }

theorem insert (h : Consistent (.addTimerInLoop t :: tasks) q inserted) (hi : q.Inserts t q') :
    Consistent tasks q' (inserted ++ [t].filter fun t => !(q.timer t).repeats) := by
  have ⟨hn, hni⟩ := h.adds t List.mem_cons_self
  have hlt : t < q.allocated := h.known _ List.mem_cons_self
  have ⟨hapart, htasks⟩ := List.pairwise_cons.mp h.apart
  have hnew : ∀ t', .addTimerInLoop t' ∈ tasks → t' ≠ t :=
    fun t' hm heq => hapart _ hm t' rfl heq.symm
  have hf : fired q' = fired q := fired_congr hi.ran fun r _ => by rw [hi.timer]
  have ho := hi.once ▸ insertTimer_once (q := q) (t := t)
  have hr := hi.repeat' ▸ insertTimer_repeat (q := q) (t := t)
  have hadds : ∀ inserted' : List TimerPtr, (∀ t' ∈ inserted', t' = t ∨ t' ∈ inserted) →
      ∀ t', .addTimerInLoop t' ∈ tasks → t' ∉ q'.entries.map (·.2) ∧ t' ∉ inserted' := by
    intro inserted' hi' t' hm
    have ⟨h₁, h₂⟩ := h.adds t' (.tail _ hm)
    refine ⟨?_, fun hm' => ?_⟩
    · rw [(hi.entries.map _).mem_iff, List.map_cons, List.mem_cons, not_or]
      exact ⟨hnew t' hm, h₁⟩
    · cases hi' t' hm'
      case inl heq => exact hnew t' hm heq
      case inr hm' => exact h₂ hm'
  by_cases hrep : (q.timer t).repeats
  case pos =>
    rw [if_pos hrep] at ho hr
    rw [show [t].filter (fun t => !(q.timer t).repeats) = [] by simp [hrep], List.append_nil]
    exact {
      wellFormed := hi.wellFormed h.wellFormed hlt hn
      once e he  := by rw [hi.timer]; exact h.once e (ho ▸ he)
      repeat' e he := by
        rw [hi.timer]
        cases (List.mem_orderedInsert _).mp (hr ▸ he)
        case inl he => exact he ▸ hrep
        case inr he => exact h.repeat' e he
      known task hm := hi.allocated ▸ h.known task (.tail _ hm)
      apart      := htasks
      adds       := hadds _ fun _ => .inr
      nodup      := h.nodup
      single t hm := by rw [hi.allocated, hi.timer]; exact h.single t hm
      ran r hm   := by rw [hi.allocated]; exact h.ran r (hi.ran ▸ hm)
      places     := by rw [ho, hf]; exact h.places
      stable     := ho ▸ h.stable
      kept t' hlt' hr' := by
        rw [hi.timer] at hr'
        cases h.kept t' (hi.allocated ▸ hlt') hr'
        case inl hm => exact .inl hm
        case inr hm =>
          cases List.mem_cons.mp hm
          case inl heq => cases heq; contradiction
          case inr hm => exact .inr hm
    }
  case neg =>
    rw [if_neg hrep] at ho hr
    rw [show [t].filter (fun t => !(q.timer t).repeats) = [t] by simp [hrep]]
    exact {
      wellFormed := hi.wellFormed h.wellFormed hlt hn
      once e he  := by
        rw [hi.timer]
        cases (List.mem_orderedInsert _).mp (ho ▸ he)
        case inl he => exact he ▸ hrep
        case inr he => exact h.once e he
      repeat' e he := by rw [hi.timer]; exact h.repeat' e (hr ▸ he)
      known task hm := hi.allocated ▸ h.known task (.tail _ hm)
      apart      := htasks
      adds       := hadds _ fun t' hm => by simpa [or_comm] using hm
      nodup      := h.nodup.append (List.nodup_singleton t) (by simpa using hni)
      single t' hm := by
        rw [hi.allocated, hi.timer]
        cases List.mem_append.mp hm
        case inl hm => exact h.single t' hm
        case inr hm => exact List.mem_singleton.mp hm ▸ ⟨hlt, hrep⟩
      ran r hm   := by rw [hi.allocated]; exact h.ran r (hi.ran ▸ hm)
      places     := by
        rw [ho, hf]
        refine (((List.perm_orderedInsert ..).map _).append_right _).trans ?_
        exact (h.places.cons t).trans (List.perm_append_singleton t inserted).symm
      stable     := ho ▸ h.stable.insertEntry (fun _ => h.mem_once) ((q.timer t).expiration, t)
      kept t' hlt' hr' := by
        rw [hi.timer] at hr'
        cases h.kept t' (hi.allocated ▸ hlt') hr'
        case inl hm => exact .inl (List.mem_append_left _ hm)
        case inr hm =>
          cases List.mem_cons.mp hm
          case inl heq => cases heq; exact .inl (by simp)
          case inr hm => exact .inr hm
    }

theorem delete (h : Consistent (.deleteTimerInLoop t :: tasks) q inserted) :
    Consistent tasks (q.deleteTimerInLoop t) inserted := by
  have ⟨ho, ht, ha, hr, _⟩ := deleteTimerInLoop_keeps (q := q) (t := t)
  have hs := deleteTimerInLoop_entries (q := q) (t := t)
  have hf : fired (q.deleteTimerInLoop t) = fired q := fired_congr hr fun r _ => by rw [ht]
  exact {
    wellFormed := h.wellFormed.sublist hs ht ha
    once e he  := by rw [ht]; exact h.once e (ho ▸ he)
    repeat' e he := by
      rw [deleteTimerInLoop_repeat h.wellFormed] at he
      rw [ht]
      exact h.repeat' e (List.mem_filter.mp he).left
    known task hm := ha ▸ h.known task (.tail _ hm)
    apart      := (List.pairwise_cons.mp h.apart).right
    adds t' hm := by
      have ⟨h₁, h₂⟩ := h.adds t' (.tail _ hm)
      exact ⟨fun hm' => h₁ ((hs.map _).subset hm'), h₂⟩
    nodup      := h.nodup
    single t hm := by rw [ha, ht]; exact h.single t hm
    ran r hm   := by rw [ha]; exact h.ran r (hr ▸ hm)
    places     := by rw [ho, hf]; exact h.places
    stable     := ho ▸ h.stable
    kept t' hlt hr := by
      rw [ht] at hr
      exact (h.kept t' (ha ▸ hlt) hr).imp_right fun hm => by simpa using hm
  }

theorem queueDelete (h : Consistent tasks q inserted) (ht : t < q.allocated) :
    Consistent (tasks ++ [.deleteTimerInLoop t]) q inserted := {
  h with
  known := by
    intro task hm
    cases List.mem_append.mp hm
    case inl hm => exact h.known task hm
    case inr hm => exact List.mem_singleton.mp hm ▸ ht
  apart := by
    refine List.pairwise_append.mpr ⟨h.apart, List.pairwise_singleton _ _, ?_⟩
    intro _ _ task hm _ heq
    rw [List.mem_singleton.mp hm] at heq
    contradiction
  adds t' hm := h.adds t' (by simpa using hm)
  kept t' hlt hr := (h.kept t' hlt hr).imp_right (List.mem_append_left _)
}

theorem setDeletions (h : Consistent tasks q inserted) (ts : List TimerPtr) :
    Consistent tasks { q with deletions := ts } inserted :=
  ⟨⟨h.wellFormed.key, h.wellFormed.fresh, h.wellFormed.nodup⟩, h.once, h.repeat', h.known, h.apart,
    h.adds, h.nodup, h.single, h.ran, h.places, h.stable, h.kept⟩

section Read

variable {body : γ → List (Action γ)} {now clock : TimePoint} {fuel : Nat}
variable {run behind rest : List Entry}

theorem repeats_old (hr : Reads body now q run behind rest q') (ht : t < q.allocated) :
    (q'.timer t).repeats = (q.timer t).repeats := by
  rw [hr.old t ht]
  rfl

theorem repeats_new (hr : Reads body now q run behind rest q') {x : TimerPtr × Timer γ}
    (hx : x ∈ added q.allocated (q'.actionsOf body (q.dueOnce now ++ run))) :
    (q'.timer x.1).repeats = x.2.repeats := by
  rw [hr.new x hx]
  rfl

theorem onceFrom_eq (hr : Reads body now q run behind rest q') :
    State.onceFrom q' q.allocated =
      (onceEntries (added q.allocated (q'.actionsOf body (q.dueOnce now ++ run)))).map (·.2) := by
  rw [State.onceFrom, hr.allocated, Nat.add_sub_cancel_left, ← added_pointers, onceEntries,
    List.filter_map,
    List.map_map]
  refine congrArg (List.map _) (List.filter_congr fun x hx => ?_)
  rw [Function.comp_apply, repeats_new hr hx]

theorem repeats_of_mem (h : Consistent tasks q inserted) (hr : Reads body now q run behind rest q')
    {e : Entry} (he : e ∈ run ++ behind ++ rest) :
    (q'.timer e.2).repeats ∧ (e ∈ q.timerMapRepeat.entries ∨ q.allocated ≤ e.2) ∧
    e.2 < q'.allocated := by
  cases List.mem_append.mp (hr.entries.mem_iff.mp he)
  case inl he =>
    have hlt := h.wellFormed.fresh e (List.mem_append_right _ he)
    refine ⟨?_, .inl he, hr.allocated ▸ hlt.trans_le (Nat.le_add_right ..)⟩
    rw [repeats_old hr hlt]
    exact h.repeat' e he
  case inr he =>
    obtain ⟨x, hx, hrep, rfl⟩ := mem_repeatEntries.mp he
    have ⟨h₁, h₂⟩ := mem_added hx
    exact ⟨by rwa [repeats_new hr hx], .inr h₁, hr.allocated ▸ h₂⟩

theorem repeats_of_run (h : Consistent tasks q inserted) (hr : Reads body now q run behind rest q')
    {e : Entry} (he : e ∈ run) :
    (q'.timer e.2).repeats ∧ (e ∈ q.timerMapRepeat.entries ∨ q.allocated ≤ e.2) ∧
    e.2 < q'.allocated :=
  h.repeats_of_mem hr (List.mem_append_left _ (List.mem_append_left _ he))

theorem of_dueOnce (h : Consistent tasks q inserted) (hr : Reads body now q run behind rest q')
    {e : Entry} (he : e ∈ q.dueOnce now) :
    e ∈ q.timerMapOnce.entries ∧ e.2 < q.allocated ∧ ¬(q'.timer e.2).repeats := by
  have hm := (List.mem_filter.mp he).left
  have hlt := h.wellFormed.fresh e (List.mem_append_left _ hm)
  exact ⟨hm, hlt, repeats_old hr hlt ▸ h.once e hm⟩

theorem filter_ran (h : Consistent tasks q inserted) (hr : Reads body now q run behind rest q') :
    ((q.dueOnce now ++ run).map fun e => (e.2, e.1)).filter (fun r => !(q'.timer r.1).repeats) =
      (q.dueOnce now).map fun e => (e.2, e.1) := by
  have hdue : ((q.dueOnce now).map fun e => (e.2, e.1)).filter (fun r => !(q'.timer r.1).repeats) =
      (q.dueOnce now).map fun e => (e.2, e.1) := by
    rw [List.filter_eq_self]
    intro r hm
    obtain ⟨e, he, rfl⟩ := List.mem_map.mp hm
    simpa using (h.of_dueOnce hr he).right.right
  have hrun : (run.map fun e => (e.2, e.1)).filter (fun r => !(q'.timer r.1).repeats) = [] := by
    rw [List.filter_eq_nil_iff]
    intro r hm
    obtain ⟨e, he, rfl⟩ := List.mem_map.mp hm
    simpa using (h.repeats_of_run hr he).left
  rw [List.map_append, List.filter_append, hdue, hrun, List.append_nil]

theorem mem_of_read (h : Consistent tasks q inserted) (hr : Reads body now q run behind rest q')
    (ht : t ∈ q'.entries.map (·.2)) : t ∈ q.entries.map (·.2) ∨ q.allocated ≤ t := by
  rw [TimerQueue.entries, List.map_append] at ht
  cases List.mem_append.mp ht
  case inl ht =>
    obtain ⟨e, he, rfl⟩ := List.mem_map.mp ht
    rw [hr.once, mem_insertEntries] at he
    cases he
    case inl he =>
      have hm := (List.dropWhile_sublist _).subset he
      exact .inl (List.mem_map_of_mem (List.mem_append_left _ hm))
    case inr he =>
      obtain ⟨x, hx, _, rfl⟩ := mem_onceEntries.mp he
      exact .inr (mem_added hx).left
  case inr ht =>
    rw [hr.pointers.mem_iff, ← List.map_append] at ht
    obtain ⟨e, he, rfl⟩ := List.mem_map.mp ht
    have hm : e ∈ run ++ behind ++ rest := by
      simp only [List.mem_append] at he ⊢
      tauto
    exact (h.repeats_of_mem hr hm).right.left.imp_left fun hm =>
      List.mem_map_of_mem (List.mem_append_right _ hm)

theorem fired_read (h : Consistent tasks q inserted) (hr : Reads body now q run behind rest q') :
    fired q' = fired q ++ (q.dueOnce now).map (·.2) := by
  have hold : (q.ran.map (·.1)).filter (fun t => !(q'.timer t).repeats) = fired q := by
    apply List.filter_congr
    intro t ht
    obtain ⟨r, hm, rfl⟩ := List.mem_map.mp ht
    rw [repeats_old hr (h.ran r hm)]
  have hnew := congrArg (List.map Prod.fst) (h.filter_ran hr)
  rw [List.map_map] at hnew
  rw [fired, hr.ran, List.map_append, List.filter_append, hold, List.filter_map]
  exact congrArg (fired q ++ ·) hnew

theorem read (h : Consistent tasks q inserted) (hr : Reads body now q run behind rest q') :
    Consistent tasks q' (inserted ++ State.onceFrom q' q.allocated) := by
  have hle : q.allocated ≤ q'.allocated := hr.allocated ▸ Nat.le_add_right ..
  have hsub : (q.timerMapOnce.entries.dropWhile (·.1 ≤ now)).Sublist q.timerMapOnce.entries :=
    List.dropWhile_sublist _
  have hfrom : ∀ t, t ∈ State.onceFrom q' q.allocated ↔
      (q.allocated ≤ t ∧ t < q'.allocated) ∧ ¬(q'.timer t).repeats := by
    intro t
    simp [State.onceFrom, List.mem_range'_1, Nat.add_sub_cancel' hle]
  exact {
    wellFormed := hr.wellFormed
    once e he := by
      rw [hr.once, mem_insertEntries] at he
      cases he
      case inl he =>
        have hm := hsub.subset he
        rw [repeats_old hr (h.wellFormed.fresh e (List.mem_append_left _ hm))]
        exact h.once e hm
      case inr he =>
        obtain ⟨x, hx, hrep, rfl⟩ := mem_onceEntries.mp he
        rwa [repeats_new hr hx]
    repeat' e he := by
      have hm := List.mem_map_of_mem (f := Prod.snd) he
      rw [hr.pointers.mem_iff, ← List.map_append] at hm
      have ⟨e', he', heq⟩ := List.mem_map.mp hm
      have hm : e' ∈ run ++ behind ++ rest := by
        simp only [List.mem_append] at he' ⊢
        tauto
      exact heq ▸ (h.repeats_of_mem hr hm).left
    known task hm := (h.known task hm).trans_le hle
    apart := h.apart
    adds t hm := by
      have ⟨h₁, h₂⟩ := h.adds t hm
      have hlt : t < q.allocated := h.known _ hm
      refine ⟨fun hm' => ?_, fun hm' => ?_⟩
      · cases h.mem_of_read hr hm'
        case inl hm' => exact h₁ hm'
        case inr hge => exact hlt.not_ge hge
      · cases List.mem_append.mp hm'
        case inl hm' => exact h₂ hm'
        case inr hm' => exact hlt.not_ge ((hfrom t).mp hm').left.left
    nodup := by
      refine h.nodup.append ((List.nodup_range' ..).filter _) ?_
      intro t h₁ h₂
      exact (h.single t h₁).left.not_ge ((hfrom t).mp h₂).left.left
    single t hm := by
      cases List.mem_append.mp hm
      case inl hm =>
        have ⟨hlt, hrep⟩ := h.single t hm
        exact ⟨hlt.trans_le hle, by rwa [repeats_old hr hlt]⟩
      case inr hm => exact ((hfrom t).mp hm).imp_left And.right
    ran r hm := by
      rw [hr.ran, List.mem_append] at hm
      cases hm
      case inl hm => exact (h.ran r hm).trans_le hle
      case inr hm =>
        obtain ⟨e, he, rfl⟩ := List.mem_map.mp hm
        cases List.mem_append.mp he
        case inl he => exact (h.of_dueOnce hr he).right.left.trans_le hle
        case inr he => exact (h.repeats_of_run hr he).right.right
    places := by
      have hp := h.places
      have hsplit := q.timerMapOnce.upTo_append now
      rw [q.timerMapOnce.takeWhile_eq_filter] at hsplit
      rw [h.fired_read hr, hr.once, onceFrom_eq hr]
      refine ((insertEntries_perm.map _).append_right _).trans ?_
      rw [hsplit, List.map_append, List.append_assoc] at hp
      rw [List.map_append, List.append_assoc]
      refine (List.perm_append_comm_assoc ..).trans ?_
      refine (List.Perm.append_left _ ?_).trans (List.perm_append_comm.trans (hp.append_right _))
      rw [← List.append_assoc]
      exact List.perm_append_comm
    stable := by
      rw [hr.once, onceFrom_eq hr]
      have hs : Stable inserted (q.timerMapOnce.entries.dropWhile (·.1 ≤ now)) :=
        h.stable.sublist hsub
      exact hs.insertEntries fun e he => h.mem_once (hsub.subset he)
    kept t hlt hrep := by
      by_cases ht : t < q.allocated
      case pos =>
        rw [repeats_old hr ht] at hrep
        exact (h.kept t ht hrep).imp_left (List.mem_append_left _)
      case neg =>
        exact .inl (List.mem_append_right _ ((hfrom t).mpr ⟨⟨not_lt.mp ht, hlt⟩, hrep⟩))
  }

end Read
end Consistent
namespace State

variable {s s' : State γ} {act : Act γ} {acts : List (Act γ)}

abbrev Consistent (s : State γ) : Prop :=
  Timers.Consistent s.queue.pending s.timers s.inserted

theorem insert_consistent (h : Timers.Consistent (.addTimerInLoop t :: s.queue.pending)
    s.timers s.inserted)
    (clock : TimePoint) : (s.insert t clock).Consistent :=
  h.insert addTimerInLoop_inserts

theorem runTask_consistent {task : Task}
    (h : Timers.Consistent (task :: s.queue.pending) s.timers s.inserted) (clock : TimePoint) :
    (s.runTask clock task).Consistent := by
  cases task
  case addTimerInLoop    => exact insert_consistent h clock
  case deleteTimerInLoop => exact h.delete

theorem step_consistent (h : s.Consistent) (e : Step s act s') : s'.Consistent := by
  cases step_effect e
  case add timer clock =>
    exact insert_consistent (s := { s with timers := s.timers.allocate timer })
      (Timers.Consistent.allocate [] _ h timer) clock
  case queueAdd timer =>
    rw [State.Consistent, TaskQueue.push_pending]
    exact Timers.Consistent.allocate _ [] (by rwa [List.append_nil]) timer
  case queueDelete ht =>
    rw [State.Consistent, TaskQueue.push_pending]
    exact h.queueDelete ht
  case flush ts ht =>
    rw [State.Consistent, TaskQueue.push_pending]
    exact (h.queueDelete ht).setDeletions ts
  case read hq =>
    have ⟨_, _, _, hr⟩ := handleRead_reads h.wellFormed hq
    exact h.read hr
  case swap ht => rwa [State.Consistent, TaskQueue.swap_pending ht]
  case task clock task tasks ht =>
    refine runTask_consistent (s := { s with queue.tmpVec := tasks }) ?_ clock
    rwa [State.Consistent, TaskQueue.pending, ht] at h

theorem run_consistent {timer : TimerPtr → Timer γ} (e : Steps Step (new timer) acts s) :
    s.Consistent :=
  e.invariant step_consistent Consistent.new

end State
end Bounce.Timers
