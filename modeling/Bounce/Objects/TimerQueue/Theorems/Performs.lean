import Bounce.Objects.TimerQueue.Theorems.Walk

namespace Bounce.TimerQueue

variable {γ : Type} {q q' q₁ q₂ q₃ : TimerQueue γ} {body : γ → List (Action γ)} {now : TimePoint}
variable {actions as₁ as₂ : List (Action γ)} {l₁ todo l₃ : List Entry} {e : Entry} {t : TimerPtr}

open Multimap

theorem mem_added {x : TimerPtr × Timer γ} (h : x ∈ added t actions) :
    t ≤ x.1 ∧ x.1 < t + (added t actions).length := by
  have hx := List.mem_map_of_mem (f := Prod.fst) h
  rwa [added_pointers, List.mem_range'_1] at hx

structure Performs (actions : List (Action γ)) (q q' : TimerQueue γ) : Prop where
  once      : q'.timerMapOnce.entries =
    insertEntries q.timerMapOnce.entries (onceEntries (added q.allocated actions))
  allocated : q'.allocated = q.allocated + (added q.allocated actions).length
  old       : ∀ t < q.allocated, q'.timer t = q.timer t
  new       : ∀ x ∈ added q.allocated actions, q'.timer x.1 = x.2

namespace Performs

theorem refl : Performs [] q q := by
  constructor <;> simp [added, onceEntries, insertEntries]

theorem le (h : Performs actions q q') : q.allocated ≤ q'.allocated :=
  h.allocated ▸ Nat.le_add_right ..

theorem lt (h : Performs actions q q') {x : TimerPtr × Timer γ}
    (hx : x ∈ added q.allocated actions) :
    x.1 < q'.allocated :=
  h.allocated ▸ (mem_added hx).right

theorem trans (h₁ : Performs as₁ q₁ q₂) (h₂ : Performs as₂ q₂ q₃) :
    Performs (as₁ ++ as₂) q₁ q₃ where
  once := by
    rw [added_append, onceEntries_append, insertEntries, List.foldl_append, h₂.once, h₁.once,
      h₁.allocated]
    rfl
  allocated := by
    rw [added_append, List.length_append, h₂.allocated, h₁.allocated, Nat.add_assoc]
  old t ht := (h₂.old t (ht.trans_le h₁.le)).trans (h₁.old t ht)
  new x hx := by
    rw [added_append, List.mem_append, ← h₁.allocated] at hx
    cases hx
    case inl hx => rw [h₂.old _ (h₁.lt hx), h₁.new x hx]
    case inr hx => exact h₂.new x hx

end Performs

theorem execCallback_performs (q : TimerQueue γ) (body : γ → List (Action γ)) (t : TimerPtr) :
    Performs (body (q.timer t).timeOutCb) q (q.execCallback body t) where
  once      := (execCallback_adds q body t).once
  allocated := execCallback_allocated
  old       := (execCallback_adds q body t).timer
  new       := execCallback_timer

theorem foldl_performs (body : γ → List (Action γ)) {es : List Entry}
    (he : ∀ e ∈ es, e.2 < q.allocated) :
    Performs (q.actionsOf body es) q (es.foldl (fun q e => q.execCallback body e.2) q) := by
  induction es generalizing q
  case nil => exact .refl
  case cons e es hi =>
    have hes := (List.forall_mem_cons.mp he).right
    have h₁ := execCallback_performs q body e.2
    have h₂ := hi fun e' he' => (hes e' he').trans_le h₁.le
    rw [actionsOf_congr body fun e' he' => h₁.old _ (hes e' he')] at h₂
    exact h₁.trans h₂

abbrev newRepeats (q : TimerQueue γ) (actions : List (Action γ)) : List Entry :=
  repeatEntries (added q.allocated actions)

theorem newRepeats_append (h : Performs as₁ q q') (as₂ : List (Action γ)) :
    q.newRepeats (as₁ ++ as₂) = q.newRepeats as₁ ++ q'.newRepeats as₂ := by
  rw [newRepeats, newRepeats, newRepeats, added_append, repeatEntries_append, h.allocated]

-- What a walk leaves behind that comes to an end: it has run the callbacks of the entries `run`,
-- and the entries `behind` were put between the entries that it had passed.
structure Traversed (body : γ → List (Action γ)) (front : TimePoint → Prop) (q : TimerQueue γ)
    (l₁ todo l₃ : List Entry) (run behind : List Entry) (q' : TimerQueue γ) (l₁' l₃' : List Entry) :
    Prop where
  walking  : Walking q' l₁' [] l₃'
  head     : l₃'.head? = l₃.head?
  performs : Performs (q'.actionsOf body run) q q'
  ran      : q'.ran = q.ran ++ run.map fun e => (e.2, e.1)
  left     : l₁'.Perm (l₁ ++ (run ++ behind))
  entries  : (l₁' ++ l₃').Perm (l₁ ++ todo ++ l₃ ++ q.newRepeats (q'.actionsOf body run))
  reaches  : ∀ e ∈ todo, e ∈ run
  acc      : ∀ e ∈ run, Acc (Spawns body front) (q'.item e)
  reached  : ∀ P : TimePoint × γ → Prop, (∀ x y, P x → Spawns body front y x → P y) →
    (∀ e ∈ todo, P (q.item e)) → ∀ e ∈ run, P (q'.item e)
  spawned  : ∀ e ∈ run, ∀ y, Spawns body front y (q'.item e) → ∃ e' ∈ run, q'.item e' = y
  behind   : behind = [] ↔ ∀ e ∈ run, ∀ y ∈ repeated (body (q'.item e).2), e.1 ≤ y.1

theorem Walking.traversed {front : TimePoint → Prop} (h : Walking q l₁ [] l₃) :
    Traversed body front q l₁ [] l₃ [] [] q l₁ l₃ where
  walking  := h
  head     := rfl
  performs := .refl
  ran      := by simp
  left     := by simp
  entries  := by simp [actionsOf, added, repeatEntries]
  reaches  := by simp
  acc      := by simp
  reached  := by simp
  spawned  := by simp
  behind   := by simp

theorem inFront_of_le {k k' : TimePoint} (h : inFront l₃ k) (hk : k' ≤ k) : inFront l₃ k' :=
  inFront_iff.mpr fun e he => hk.trans_lt (inFront_iff.mp h e he)

theorem Walking.parts_perm (h : Walking q l₁ (e :: todo) l₃) (es : List Entry) :
    es.Perm (es.filter (·.1 < e.1) ++ es.filter (fun e' => e.1 ≤ e'.1 ∧ inFront l₃ e'.1) ++
      es.filter fun e' => !inFront l₃ e'.1) := by
  have h₁ := List.filter_append_perm (fun e' => decide (e'.1 < e.1)) es
  have h₂ :=
    List.filter_append_perm (fun e' => inFront l₃ e'.1) (es.filter fun e' => !decide (e'.1 < e.1))
  have hm : (es.filter fun e' => !decide (e'.1 < e.1)).filter (fun e' => inFront l₃ e'.1) =
      es.filter fun e' => e.1 ≤ e'.1 ∧ inFront l₃ e'.1 := by
    rw [List.filter_filter]
    apply List.filter_congr
    intro e' _
    by_cases hl : e'.1 < e.1
    case pos => simp [hl, hl.not_ge]
    case neg => simp [hl, not_lt.mp hl]
  have hr : (es.filter fun e' => !decide (e'.1 < e.1)).filter (fun e' => !inFront l₃ e'.1) =
      es.filter fun e' => !inFront l₃ e'.1 := by
    rw [List.filter_filter]
    apply List.filter_congr
    intro e' _
    have hf : e'.1 < e.1 → inFront l₃ e'.1 := fun hl => inFront_of_le (h.front e (by simp)) hl.le
    by_cases hl : e'.1 < e.1
    case pos => simp [hf hl]
    case neg => simp [hl]
  rw [hm, hr] at h₂
  rw [List.append_assoc]
  exact (h₁.symm.trans (h₂.symm.append_left _))

section Cons

variable {front : TimePoint → Prop} {l₁' todo' l₃' run behind l₁'' l₃'' new : List Entry}

theorem mem_repeated_iff (q : TimerQueue γ) (body : γ → List (Action γ)) (t : TimerPtr)
    (h : Performs actions (q.execCallback body t) q') {y : TimePoint × γ} :
    y ∈ repeated (body (q.timer t).timeOutCb) ↔
      ∃ e ∈ repeatEntries (q.addedBy body t), q'.item e = y := by
  have hi : (repeatEntries (q.addedBy body t)).map q'.item =
      repeated (body (q.timer t).timeOutCb) := by
    rw [← (execCallback_adds q body t).items]
    apply List.map_congr_left
    intro e he
    have ht := (execCallback_adds q body t).fresh e (List.mem_append_right _ he)
    rw [item, item, h.old _ ht.right]
  rw [← hi, List.mem_map]

theorem Traversed.cons (hf : ∀ k, inFront l₃ k ↔ front k) (h : Walking q l₁ (e :: todo) l₃)
    (hn : repeatEntries (q.addedBy body e.2) = new) (hh : l₃'.head? = l₃.head?)
    (hp₁ : l₁'.Perm (l₁ ++ new.filter (·.1 < e.1)))
    (hp₂ : todo'.Perm (todo ++ new.filter fun e' => e.1 ≤ e'.1 ∧ inFront l₃ e'.1))
    (hp₃ : l₃'.Perm (l₃ ++ new.filter fun e' => !inFront l₃ e'.1))
    (ht : Traversed body front (q.execCallback body e.2) (l₁' ++ [e]) todo' l₃' run behind q'
      l₁'' l₃'') :
    Traversed body front q l₁ (e :: todo) l₃ (e :: run) (new.filter (·.1 < e.1) ++ behind) q'
      l₁'' l₃'' := by
  have he := h.wellFormed.fresh e (h.mem_entries (by simp))
  have hp := execCallback_performs q body e.2
  have hq : q'.timer e.2 = q.timer e.2 :=
    (ht.performs.old _ (he.trans_le hp.le)).trans (hp.old _ he)
  have hi : q'.item e = (e.1, (q.timer e.2).timeOutCb) := by rw [item, hq]
  have hact : q'.actionsOf body (e :: run) =
      body (q.timer e.2).timeOutCb ++ q'.actionsOf body run := by
    rw [actionsOf, List.flatMap_cons, hq]
    rfl
  have hrun : ∀ y, Spawns body front y (q'.item e) → ∃ e' ∈ run, q'.item e' = y := by
    rintro y ⟨hy, hk, hfy⟩
    rw [hi, mem_repeated_iff q body e.2 ht.performs, hn] at hy
    obtain ⟨e', he', hy⟩ := hy
    have hm : e' ∈ new.filter fun e' => e.1 ≤ e'.1 ∧ inFront l₃ e'.1 := by
      refine List.mem_filter.mpr ⟨he', decide_eq_true ⟨?_, ?_⟩⟩
      · simpa [← hy, hi, item] using hk
      · simpa [← hy, item, hf] using hfy
    exact ⟨e', ht.reaches e' (hp₂.mem_iff.mpr (List.mem_append_right _ hm)), hy⟩
  exact {
    walking  := ht.walking
    head     := ht.head.trans hh
    performs := hact ▸ hp.trans ht.performs
    ran := by rw [ht.ran, (execCallback_adds q body e.2).ran,
      h.wellFormed.key e (h.mem_entries (by simp))]; simp
    left := by
      rw [List.perm_iff_count]
      intro a
      have h₁ := ht.left.count_eq a
      have h₂ := hp₁.count_eq a
      rw [← List.singleton_append (x := e)]
      simp only [List.count_append] at h₁ h₂ ⊢
      omega
    entries := by
      rw [hact, newRepeats_append hp, newRepeats, ← addedBy, hn, List.perm_iff_count]
      intro a
      have h₀ := (h.parts_perm new).count_eq a
      have h₁ := ht.entries.count_eq a
      have h₂ := hp₁.count_eq a
      have h₃ := hp₂.count_eq a
      have h₄ := hp₃.count_eq a
      rw [← List.singleton_append (x := e)]
      simp only [List.count_append] at h₀ h₁ h₂ h₃ h₄ ⊢
      omega
    reaches := by
      intro e' he'
      cases List.mem_cons.mp he'
      case inl he' => exact he' ▸ List.mem_cons_self
      case inr he' => exact .tail _ (ht.reaches e' (hp₂.mem_iff.mpr (List.mem_append_left _ he')))
    acc := by
      intro e' he'
      cases List.mem_cons.mp he'
      case inl he' =>
        subst he'
        constructor
        intro y hy
        obtain ⟨e'', he'', hy⟩ := hrun y hy
        exact hy ▸ ht.acc e'' he''
      case inr he' => exact ht.acc e' he'
    reached := by
      intro P hP ht₀
      obtain ⟨h₀, ht₀⟩ := List.forall_mem_cons.mp ht₀
      have he₀ : P (q'.item e) := by rwa [item, hq]
      refine List.forall_mem_cons.mpr ⟨he₀, ht.reached P hP ?_⟩
      intro e' he'
      cases List.mem_append.mp (hp₂.mem_iff.mp he')
      case inl he' =>
        rw [item, hp.old _ (h.wellFormed.fresh e' (h.mem_entries (by simp [he'])))]
        exact ht₀ e' he'
      case inr he' =>
        obtain ⟨hm, hk⟩ := List.mem_filter.mp he'
        obtain ⟨hk, hfk⟩ := of_decide_eq_true hk
        have hy := (mem_repeated_iff q body e.2 .refl).mpr ⟨e', hn ▸ hm, rfl⟩
        exact hP _ _ h₀ ⟨hy, hk, (hf _).mp hfk⟩
    spawned := by
      intro e' he' y hy
      cases List.mem_cons.mp he'
      case inl he' =>
        subst he'
        obtain ⟨e'', he'', hy⟩ := hrun y hy
        exact ⟨e'', .tail _ he'', hy⟩
      case inr he' =>
        obtain ⟨e'', he'', hy⟩ := ht.spawned e' he' y hy
        exact ⟨e'', .tail _ he'', hy⟩
    behind := by
      have hb : new.filter (·.1 < e.1) = [] ↔
          ∀ y ∈ repeated (body (q'.item e).2), e.1 ≤ y.1 := by
        rw [hi, List.filter_eq_nil_iff]
        constructor
        case mp =>
          intro hb y hy
          rw [mem_repeated_iff q body e.2 ht.performs, hn] at hy
          obtain ⟨e', he', hy⟩ := hy
          simpa [← hy, item] using hb e' he'
        case mpr =>
          intro hb e' he'
          have hle := hb _ ((mem_repeated_iff q body e.2 ht.performs).mpr ⟨e', hn ▸ he', rfl⟩)
          exact fun hl => (of_decide_eq_true hl).not_ge hle
      rw [List.append_eq_nil_iff, hb, ht.behind, List.forall_mem_cons]
  }

end Cons

theorem walk_traversed {front : TimePoint → Prop} (hf : ∀ k, inFront l₃ k ↔ front k)
    (h : Walking q l₁ todo l₃) {n : Nat} {acc acc' : List TimerPtr}
    (hw : q.walk body (iterator l₃) n (iterator (todo ++ l₃)) acc = some (q', acc')) :
    ∃ run behind l₁' l₃', Traversed body front q l₁ todo l₃ run behind q' l₁' l₃' ∧
      acc' = acc ++ run.map (·.2) := by
  induction n generalizing q l₁ todo l₃ acc
  case zero => contradiction
  case succ n hi =>
    cases todo
    case nil =>
      rw [List.nil_append, walk_nil] at hw
      cases hw
      exact ⟨[], [], l₁, l₃, h.traversed, by simp⟩
    case cons e todo =>
      have ⟨l₁', todo', l₃', h', hh, hp₁, hp₂, hp₃⟩ := h.adds (execCallback_adds q body e.2)
      rw [walk_cons h h' hh] at hw
      have hf' : ∀ k, inFront l₃' k ↔ front k := by
        intro k
        rw [inFront_congr hh, hf]
      have ⟨run, behind, l₁'', l₃'', ht, hacc⟩ := hi hf' h' hw
      exact ⟨e :: run, _, l₁'', l₃'', ht.cons hf h rfl hh hp₁ hp₂ hp₃, by simp [hacc]⟩

section Walked

variable {front : TimePoint → Prop} {P : TimePoint × γ → Prop} {run behind l₁' l₃' : List Entry}

theorem Traversed.nodup (ht : Traversed body front q l₁ todo l₃ run behind q' l₁' l₃') :
    ((l₁ ++ (run ++ behind)).map (·.2)).Nodup := by
  have hn := ht.walking.nodup
  rw [List.append_nil, List.map_append] at hn
  exact (ht.left.map _).nodup_iff.mp hn.of_append_left

theorem Traversed.origin (ht : Traversed body front q l₁ todo l₃ run behind q' l₁' l₃')
    (hf : ∀ k, inFront l₃ k ↔ front k) (h : Walking q l₁ todo l₃) :
    ∀ e ∈ run, e ∈ todo ∨ q.allocated ≤ e.2 := by
  intro e he
  have hm : e ∈ l₁ ++ todo ++ l₃ ++ q.newRepeats (q'.actionsOf body run) := by
    refine ht.entries.mem_iff.mp (List.mem_append_left _ (ht.left.mem_iff.mpr ?_))
    simp [he]
  simp only [List.mem_append] at hm
  obtain ((hm | hm) | hm) | hm := hm
  · have hn := ht.nodup
    rw [List.map_append] at hn
    exact absurd (List.mem_map_of_mem (List.mem_append_left _ he))
      (List.disjoint_of_nodup_append hn (List.mem_map_of_mem hm))
  · exact .inl hm
  · have hfe : front e.1 := ht.reached (fun x => front x.1) (fun _ _ _ hs => hs.right.right)
      (fun e' he' => (hf _).mp (h.front e' he')) e he
    have hs := q.timerMapRepeat.sorted
    rw [h.entries, List.pairwise_append] at hs
    cases l₃
    case nil => contradiction
    case cons b l =>
      have hb : e.1 < b.1 := inFront_iff.mp ((hf _).mpr hfe) b rfl
      cases List.mem_cons.mp hm
      case inl hm => exact absurd (hm ▸ hb) (lt_irrefl _)
      case inr hm => exact absurd ((List.pairwise_cons.mp hs.right.left).left e hm) hb.not_ge
  · have ⟨x, hx, _, hxe⟩ := mem_repeatEntries.mp hm
    exact .inr (hxe ▸ (mem_added hx).left)

structure Walked (P : TimePoint × γ → Prop) (q : TimerQueue γ) (l₁ todo : List Entry)
    (q' : TimerQueue γ) (l₁' : List Entry) (log : List (TimerPtr × TimePoint)) : Prop where
  ran       : q'.ran = q.ran ++ log
  reaches   : ∀ e ∈ todo, (e.2, e.1) ∈ log
  reached   : ∀ r ∈ log, ∃ c, P (r.2, c)
  nodup     : (log.map (·.1)).Nodup
  origin    : ∀ t ∈ log.map (·.1), t ∈ todo.map (·.2) ∨ q.allocated ≤ t
  left      : ∀ e ∈ l₁, e ∈ l₁'
  passed    : ∀ t ∈ log.map (·.1), t ∈ l₁'.map (·.2)
  timer     : ∀ t < q.allocated, q'.timer t = q.timer t
  allocated : q.allocated ≤ q'.allocated

theorem walk_spec (hp : ∀ x, P x → ∀ y, Spawns body front y x → P y)
    (hf : ∀ k, inFront l₃ k ↔ front k)
    (h : Walking q l₁ todo l₃) (ht : ∀ e ∈ todo, P (q.item e)) {n : Nat} {acc acc' : List TimerPtr}
    (hw : q.walk body (iterator l₃) n (iterator (todo ++ l₃)) acc = some (q', acc')) :
    ∃ log l₁' l₃', Walking q' l₁' [] l₃' ∧ l₃'.head? = l₃.head? ∧ acc' = acc ++ log.map (·.1) ∧
      Walked P q l₁ todo q' l₁' log := by
  have ⟨run, behind, l₁', l₃', hr, hacc⟩ := walk_traversed hf h hw
  have hlog : (run.map fun e => (e.2, e.1)).map (·.1) = run.map (·.2) := by
    rw [List.map_map]
    rfl
  refine ⟨run.map fun e => (e.2, e.1), l₁', l₃', hr.walking, hr.head, hlog ▸ hacc, ?_⟩
  exact {
    ran := hr.ran
    reaches := fun e he => List.mem_map_of_mem (hr.reaches e he)
    reached := by
      intro r hm
      have ⟨e, he, hm⟩ := List.mem_map.mp hm
      exact hm ▸ ⟨_, hr.reached P (fun x y hx => hp x hx y) ht e he⟩
    nodup := by
      have hn := hr.nodup
      rw [List.map_append, List.map_append] at hn
      exact hlog ▸ hn.of_append_right.of_append_left
    origin := by
      intro t hm
      have ⟨e, he, hm⟩ := List.mem_map.mp (hlog ▸ hm)
      exact hm ▸ (hr.origin hf h e he).imp_left List.mem_map_of_mem
    left := fun e he => hr.left.mem_iff.mpr (List.mem_append_left _ he)
    passed := by
      intro t hm
      have ⟨e, he, hm⟩ := List.mem_map.mp (hlog ▸ hm)
      exact hm ▸ List.mem_map_of_mem (hr.left.mem_iff.mpr (by simp [he]))
    timer := hr.performs.old
    allocated := hr.performs.le
  }

end Walked

end Bounce.TimerQueue
