import Mathlib.Data.List.Sort
import Mathlib.Data.List.TakeWhile

-- Maps with equal keys, in the order of their keys, with equal keys in the order of insertion.
structure Multimap (κ ν : Type*) [LinearOrder κ] where
  entries : List (κ × ν)
  sorted  : entries.Pairwise (·.1 ≤ ·.1)

namespace Multimap

variable {κ ν : Type*} [LinearOrder κ] {m : Multimap κ ν} {k : κ} {v : ν} {e : κ × ν}
variable {l l₁ l₂ : List (κ × ν)}

-- The place of a new entry is in front of the first entry with a greater key.
abbrev insertEntry (l : List (κ × ν)) (e : κ × ν) : List (κ × ν) :=
  l.orderedInsert (fun e₁ e₂ => e₁.1 < e₂.1) e

theorem insertEntry_append_left (l₁ : List (κ × ν)) (h : ∀ e₂ ∈ l₂.head?, e.1 < e₂.1) :
    insertEntry (l₁ ++ l₂) e = insertEntry l₁ e ++ l₂ := by
  induction l₁
  case nil =>
    cases l₂
    case nil => rfl
    case cons e₂ _ => simp [insertEntry, h e₂ rfl]
  case cons e₁ l₁ hi =>
    by_cases he : e.1 < e₁.1
    case pos => simp [insertEntry, he]
    case neg => simpa [insertEntry, he] using hi

theorem insertEntry_append_right (l₁ : List (κ × ν)) (h : ∀ e₁ ∈ l₁, e₁.1 ≤ e.1) :
    insertEntry (l₁ ++ l₂) e = l₁ ++ insertEntry l₂ e := by
  induction l₁
  case nil => rfl
  case cons e₁ l₁ hi =>
    have ⟨h₁, h₂⟩ := List.forall_mem_cons.mp h
    simpa [insertEntry, not_lt.mpr h₁] using hi h₂

theorem insertEntry_sorted (h : l.Pairwise (·.1 ≤ ·.1)) :
    (insertEntry l e).Pairwise (·.1 ≤ ·.1) := by
  induction l
  case nil => simp [insertEntry]
  case cons e₁ l hi =>
    have ⟨h₁, h₂⟩ := List.pairwise_cons.mp h
    by_cases he : e.1 < e₁.1
    case pos =>
      have ht : ∀ e₂ ∈ e₁ :: l, e.1 ≤ e₂.1 :=
        List.forall_mem_cons.mpr ⟨he.le, fun e₂ hm => he.le.trans (h₁ e₂ hm)⟩
      rw [insertEntry, List.orderedInsert, if_pos he]
      exact h.cons ht
    case neg =>
      have ht : ∀ e₂ ∈ insertEntry l e, e₁.1 ≤ e₂.1 := by
        intro e₂ hm
        rw [insertEntry, List.mem_orderedInsert] at hm
        cases hm
        case inl hm => exact hm ▸ not_lt.mp he
        case inr hm => exact h₁ e₂ hm
      rw [insertEntry, List.orderedInsert, if_neg he]
      exact (hi h₂).cons ht

def insertEntries (l es : List (κ × ν)) : List (κ × ν) :=
  es.foldl insertEntry l

theorem insertEntries_perm {es : List (κ × ν)} : (insertEntries l es).Perm (l ++ es) := by
  induction es generalizing l
  case nil => simp [insertEntries]
  case cons e es hi =>
    have hp : (insertEntry l e ++ es).Perm (e :: l ++ es) := by
      exact (List.perm_orderedInsert _ e l).append_right es
    exact hi.trans (hp.trans List.perm_middle.symm)

theorem mem_insertEntries {es : List (κ × ν)} : e ∈ insertEntries l es ↔ e ∈ l ∨ e ∈ es :=
  insertEntries_perm.mem_iff.trans List.mem_append

def Stable (vs : List ν) (l : List (κ × ν)) : Prop :=
  l.Pairwise fun e₁ e₂ => e₁.1 < e₂.1 ∨ e₁.1 = e₂.1 ∧ [e₁.2, e₂.2].Sublist vs

theorem Stable.mono {vs vs' : List ν} (h : Stable vs l) (hs : vs.Sublist vs') : Stable vs' l :=
  h.imp fun he => he.imp_right (And.imp_right (·.trans hs))

theorem Stable.insertEntry {vs : List ν} (h : Stable vs l) (hv : ∀ e ∈ l, e.2 ∈ vs) (e : κ × ν) :
    Stable (vs ++ [e.2]) (insertEntry l e) := by
  induction l
  case nil => exact List.pairwise_singleton _ _
  case cons e₁ l hi =>
    have ⟨h₁, h₂⟩ := List.pairwise_cons.mp h
    have ⟨hv₁, hv₂⟩ := List.forall_mem_cons.mp hv
    by_cases he : e.1 < e₁.1
    case pos =>
      have ht : ∀ e₂ ∈ e₁ :: l, e.1 < e₂.1 := by
        refine List.forall_mem_cons.mpr ⟨he, ?_⟩
        intro e₂ hm
        cases h₁ e₂ hm
        case inl hl => exact he.trans hl
        case inr hl => exact hl.left ▸ he
      rw [Multimap.insertEntry, List.orderedInsert, if_pos he]
      exact List.pairwise_cons.mpr ⟨fun e₂ hm => .inl (ht e₂ hm),
        h.mono (List.sublist_append_left ..)⟩
    case neg =>
      rw [Multimap.insertEntry, List.orderedInsert, if_neg he]
      refine List.pairwise_cons.mpr ⟨?_, hi h₂ hv₂⟩
      intro e₂ hm
      cases (List.mem_orderedInsert _).mp hm
      case inl hm =>
        subst hm
        cases lt_or_eq_of_le (not_lt.mp he)
        case inl hl => exact .inl hl
        case inr hl =>
          exact .inr ⟨hl, (List.singleton_sublist.mpr hv₁).append (List.Sublist.refl [e₂.2])⟩
      case inr hm =>
        exact (h₁ e₂ hm).imp_right (And.imp_right (·.trans (List.sublist_append_left ..)))

theorem Stable.insertEntries {vs : List ν} {es : List (κ × ν)} (h : Stable vs l)
    (hv : ∀ e ∈ l, e.2 ∈ vs) :
    Stable (vs ++ es.map (·.2)) (insertEntries l es) := by
  induction es generalizing l vs
  case nil => simpa [Multimap.insertEntries] using h
  case cons e es hi =>
    have hv' : ∀ e' ∈ Multimap.insertEntry l e, e'.2 ∈ vs ++ [e.2] := by
      intro e' hm
      cases (List.mem_orderedInsert _).mp hm
      case inl hm => simp [hm]
      case inr hm => exact List.mem_append_left _ (hv e' hm)
    have hs := hi (h.insertEntry hv e) hv'
    rwa [List.append_assoc] at hs

def inFront (l : List (κ × ν)) (k : κ) : Bool :=
  l.head?.all (k < ·.1)

theorem inFront_iff : inFront l k ↔ ∀ e ∈ l.head?, k < e.1 := by
  cases l <;> simp [inFront]

theorem insertEntry_append_perm {p : κ × ν → Bool} (es : List (κ × ν)) (h : p e) :
    (insertEntry l e ++ es.filter p).Perm (l ++ (e :: es).filter p) := by
  rw [List.filter_cons_of_pos h]
  exact ((List.perm_orderedInsert _ e l).append_right _).trans List.perm_middle.symm

-- What becomes of a list with a mark `e₀` when entries are added: they gather in front of the mark,
-- between the mark and the last part, and in the last part but not at its head.
theorem insertEntries_parts {e₀ : κ × ν} {l₃ : List (κ × ν)} (es : List (κ × ν))
    (h₁ : ∀ e ∈ l₁, e.1 ≤ e₀.1)
    (h₂ : ∀ e ∈ e₀ :: l₂, e₀.1 ≤ e.1 ∧ inFront l₃ e.1) :
    ∃ l₁' l₂' l₃', insertEntries (l₁ ++ e₀ :: l₂ ++ l₃) es = l₁' ++ e₀ :: l₂' ++ l₃' ∧
      l₁'.Perm (l₁ ++ es.filter (·.1 < e₀.1)) ∧
      l₂'.Perm (l₂ ++ es.filter (fun e => e₀.1 ≤ e.1 ∧ inFront l₃ e.1)) ∧
      l₃'.Perm (l₃ ++ es.filter (fun e => !inFront l₃ e.1)) ∧ l₃'.head? = l₃.head? := by
  induction es generalizing l₁ l₂ l₃
  case nil => exact ⟨l₁, l₂, l₃, rfl, by simp, by simp, by simp, rfl⟩
  case cons e es hi =>
    have h₀ := (h₂ e₀ List.mem_cons_self).right
    by_cases hf : inFront l₃ e.1
    case neg =>
      -- The entry is not in front of the head `b` of the last part.
      obtain _ | ⟨b, l₃⟩ := l₃
      case nil => simp [inFront] at hf
      case cons =>
        have hb : ∀ k, inFront (b :: l₃) k ↔ k < b.1 := by simp [inFront]
        have he : b.1 ≤ e.1 := not_lt.mp ((hb e.1).not.mp hf)
        have hr : ∀ e' ∈ l₁ ++ e₀ :: l₂, e'.1 ≤ e.1 := by
          intro e' hm
          have h₀ := ((hb _).mp h₀).le.trans he
          obtain hm | hm := List.mem_append.mp hm
          · exact (h₁ e' hm).trans h₀
          · exact ((hb _).mp (h₂ e' hm).right).le.trans he
        have hc : insertEntry (b :: l₃) e = b :: insertEntry l₃ e :=
          insertEntry_append_right [b] (by simpa using he)
        have h₂' : ∀ e' ∈ e₀ :: l₂, e₀.1 ≤ e'.1 ∧ inFront (insertEntry (b :: l₃) e) e'.1 := by
          simpa [hc, inFront] using h₂
        have ⟨l₁', l₂', l₃', h, hp₁, hp₂, hp₃, hh⟩ := hi h₁ h₂'
        refine ⟨l₁', l₂', l₃', ?_, ?_, ?_, ?_, ?_⟩
        · rwa [insertEntries, List.foldl_cons, insertEntry_append_right _ hr]
        · simpa [((hb _).mp h₀).le.trans he |>.not_gt] using hp₁
        · simpa [hc, inFront, he] using hp₂
        · have hp :=
            insertEntry_append_perm (l := b :: l₃) (p := fun e => !inFront (b :: l₃) e.1) es
            (by simpa using hf)
          exact hp₃.trans (by simpa only [hc, inFront, List.head?_cons] using hp)
        · rw [hh, hc]; rfl
    case pos =>
      have ha := insertEntry_append_left (l₁ ++ e₀ :: l₂) (inFront_iff.mp hf)
      by_cases hl : e.1 < e₀.1
      case pos =>
        have hm : insertEntry (l₁ ++ e₀ :: l₂) e = insertEntry l₁ e ++ e₀ :: l₂ :=
          insertEntry_append_left _ (by simpa using hl)
        have h₁' : ∀ e' ∈ insertEntry l₁ e, e'.1 ≤ e₀.1 := by
          intro e' he
          obtain rfl | he := (List.mem_orderedInsert _).mp he
          · exact hl.le
          · exact h₁ e' he
        have ⟨l₁', l₂', l₃', h, hp₁, hp₂, hp₃, hh⟩ := hi h₁' h₂
        refine ⟨l₁', l₂', l₃', ?_,
          hp₁.trans (insertEntry_append_perm es (by simpa using hl)), ?_, ?_, hh⟩
        · rwa [insertEntries, List.foldl_cons, ha, hm]
        · simpa [hl.not_ge] using hp₂
        · simpa [hf] using hp₃
      case neg =>
        have hl := not_lt.mp hl
        have hm : insertEntry (l₁ ++ e₀ :: l₂) e = l₁ ++ e₀ :: insertEntry l₂ e := by
          rw [insertEntry_append_right _ (fun e' he => (h₁ e' he).trans hl)]
          exact congrArg (l₁ ++ ·) (insertEntry_append_right [e₀] (by simpa using hl))
        have h₂' : ∀ e' ∈ e₀ :: insertEntry l₂ e, e₀.1 ≤ e'.1 ∧ inFront l₃ e'.1 := by
          intro e' he
          obtain rfl | he := List.mem_cons.mp he
          · exact ⟨le_rfl, h₀⟩
          · obtain rfl | he := (List.mem_orderedInsert _).mp he
            · exact ⟨hl, hf⟩
            · exact h₂ e' (.tail _ he)
        have ⟨l₁', l₂', l₃', h, hp₁, hp₂, hp₃, hh⟩ := hi h₁ h₂'
        refine ⟨l₁', l₂', l₃', ?_, ?_,
          hp₂.trans (insertEntry_append_perm es (by simp [hl, hf])), ?_, hh⟩
        · rwa [insertEntries, List.foldl_cons, ha, hm]
        · simpa [hl.not_gt] using hp₁
        · simpa [hf] using hp₃

def empty : Multimap κ ν :=
  ⟨[], .nil⟩

def insert (m : Multimap κ ν) (e : κ × ν) : Multimap κ ν :=
  ⟨insertEntry m.entries e, insertEntry_sorted m.sorted⟩

-- An iterator names the entry it is at by the value of the entry, and is `none` behind the last
-- one. The values of a map are pairwise distinct for this.
abbrev Iterator (ν : Type*) := Option ν

def iterator (l : List (κ × ν)) : Iterator ν :=
  l.head?.map (·.2)

-- `begin()`
def first (m : Multimap κ ν) : Iterator ν :=
  iterator m.entries

def lowerBound (m : Multimap κ ν) (k : κ) : Iterator ν :=
  iterator (m.entries.dropWhile (·.1 < k))

def upperBound (m : Multimap κ ν) (k : κ) : Iterator ν :=
  iterator (m.entries.dropWhile (·.1 ≤ k))

theorem upTo_append (m : Multimap κ ν) (k : κ) :
    m.entries = m.entries.takeWhile (·.1 ≤ k) ++ m.entries.dropWhile (·.1 ≤ k) :=
  List.takeWhile_append_dropWhile.symm

theorem lt_of_mem_dropWhile (h : l.Pairwise (·.1 ≤ ·.1)) :
    ∀ e ∈ l.dropWhile (·.1 ≤ k), k < e.1 := by
  induction l
  case nil => simp
  case cons e₁ l hi =>
    have ⟨h₁, h₂⟩ := List.pairwise_cons.mp h
    by_cases he : e₁.1 ≤ k
    case pos => simpa [he] using hi h₂
    case neg =>
      intro e hm
      rw [List.dropWhile_cons_of_neg (by simpa using he)] at hm
      cases hm
      case head        => exact not_le.mp he
      case tail hm => exact (not_le.mp he).trans_le (h₁ e hm)

theorem le_of_mem_takeWhile (h : e ∈ l.takeWhile (·.1 ≤ k)) : e.1 ≤ k :=
  of_decide_eq_true (List.mem_takeWhile_imp (p := fun e : κ × ν => decide (e.1 ≤ k)) h)

theorem takeWhile_eq_filter (m : Multimap κ ν) (k : κ) :
    m.entries.takeWhile (·.1 ≤ k) = m.entries.filter (·.1 ≤ k) := by
  have hf : (m.entries.dropWhile (·.1 ≤ k)).filter (·.1 ≤ k) = [] := by
    rw [List.filter_eq_nil_iff]
    intro e he
    simpa using lt_of_mem_dropWhile m.sorted e he
  have ht : (m.entries.takeWhile (·.1 ≤ k)).filter (·.1 ≤ k) = m.entries.takeWhile (·.1 ≤ k) := by
    rw [List.filter_eq_self]
    intro e he
    exact decide_eq_true (le_of_mem_takeWhile he)
  conv_rhs => rw [m.upTo_append k, List.filter_append, hf, ht, List.append_nil]

theorem inFront_dropWhile (m : Multimap κ ν) (k k' : κ) :
    inFront (m.entries.dropWhile (·.1 ≤ k)) k' ↔ ∀ e ∈ m.entries, k < e.1 → k' < e.1 := by
  have hs := m.sorted.sublist (List.dropWhile_sublist (·.1 ≤ k))
  rw [inFront_iff]
  constructor
  case mp =>
    intro h e he hk
    rw [m.upTo_append k, List.mem_append] at he
    cases he
    case inl he => exact absurd (le_of_mem_takeWhile he) hk.not_ge
    case inr he =>
      cases hd : m.entries.dropWhile (·.1 ≤ k)
      case nil => simp [hd] at he
      case cons b l =>
        rw [hd] at h he hs
        have hb : k' < b.1 := h b rfl
        cases he
        case head        => exact hb
        case tail hm => exact hb.trans_le ((List.pairwise_cons.mp hs).left e hm)
  case mpr =>
    intro h e he
    have hm := List.mem_of_mem_head? he
    exact h e ((List.dropWhile_sublist _).subset hm) (lt_of_mem_dropWhile m.sorted e hm)

theorem mem_takeWhile_of_le {p : κ × ν → Bool} (h : l.Pairwise (·.1 ≤ ·.1)) (he : e ∈ l)
    (hp : ∀ e' ∈ l, e'.1 ≤ e.1 → p e') : e ∈ l.takeWhile p := by
  induction l
  case nil => contradiction
  case cons e₁ l hi =>
    have ⟨h₁, h₂⟩ := List.pairwise_cons.mp h
    have ⟨hp₁, hp₂⟩ := List.forall_mem_cons.mp hp
    cases he
    case head => simp [hp₁ le_rfl]
    case tail he =>
      rw [List.takeWhile_cons_of_pos (hp₁ (h₁ e he))]
      exact .tail _ (hi h₂ he hp₂)

variable [DecidableEq ν]

def before (m : Multimap κ ν) (it : Iterator ν) : List (κ × ν) :=
  m.entries.takeWhile (some ·.2 ≠ it)

def onward (m : Multimap κ ν) (it : Iterator ν) : List (κ × ν) :=
  m.entries.dropWhile (some ·.2 ≠ it)

-- `++it`
def next (m : Multimap κ ν) (it : Iterator ν) : Iterator ν :=
  iterator (m.onward it).tail

-- `erase(begin(), last)`
def eraseBefore (m : Multimap κ ν) (last : Iterator ν) : Multimap κ ν :=
  ⟨m.onward last, m.sorted.sublist (List.dropWhile_sublist _)⟩

def erase (m : Multimap κ ν) (it : Iterator ν) : Multimap κ ν :=
  ⟨m.entries.eraseP (some ·.2 = it), m.sorted.sublist List.eraseP_sublist⟩

omit [LinearOrder κ] in
theorem eraseP_eq_filter (hn : (l.map (·.2)).Nodup) (v : ν) :
    l.eraseP (some ·.2 = some v) = l.filter (·.2 ≠ v) := by
  induction l
  case nil => rfl
  case cons e l hi =>
    have ⟨h₁, h₂⟩ := List.nodup_cons.mp hn
    by_cases he : e.2 = v
    case pos =>
      have hl : ∀ e' ∈ l, e'.2 ≠ v := by
        intro e' hm heq
        exact h₁ (List.mem_map.mpr ⟨e', hm, heq.trans he.symm⟩)
      rw [List.eraseP_cons_of_pos (by simp [he]), List.filter_cons_of_neg (by simp [he])]
      exact (List.filter_eq_self.mpr fun e' hm => decide_eq_true (hl e' hm)).symm
    case neg =>
      rw [List.eraseP_cons_of_neg (by simp [he]), List.filter_cons_of_pos (by simp [he])]
      exact congrArg (e :: ·) (hi h₂)

theorem erase_entries (hn : (m.entries.map (·.2)).Nodup) (v : ν) :
    (m.erase (some v)).entries = m.entries.filter (·.2 ≠ v) :=
  eraseP_eq_filter hn v

section Split

variable (h : m.entries = l₁ ++ l₂) (hn : (m.entries.map (·.2)).Nodup)
include h hn

omit [DecidableEq ν] in
theorem ne_iterator (he : e ∈ l₁) : some e.2 ≠ iterator l₂ := by
  rw [h, List.map_append] at hn
  intro hs
  cases l₂
  case nil => contradiction
  case cons e₂ l₂ =>
    have hd := List.disjoint_of_nodup_append hn
    exact hd (List.mem_map_of_mem he) (by simp [Option.some.inj hs])

theorem before_iterator : m.before (iterator l₂) = l₁ := by
  have ha : ∀ e ∈ l₁, decide (some e.2 ≠ iterator l₂) = true := by
    intro e he
    exact decide_eq_true (ne_iterator h hn he)
  rw [before, h, List.takeWhile_append_of_pos ha]
  cases l₂
  case nil => simp
  case cons => simp [iterator]

theorem onward_iterator : m.onward (iterator l₂) = l₂ := by
  have ha : ∀ e ∈ l₁, decide (some e.2 ≠ iterator l₂) = true := by
    intro e he
    exact decide_eq_true (ne_iterator h hn he)
  rw [onward, h, List.dropWhile_append_of_pos ha]
  cases l₂
  case nil => rfl
  case cons => simp [iterator]

theorem next_iterator : m.next (iterator l₂) = iterator l₂.tail := by
  rw [next, onward_iterator h hn]

end Split
end Multimap
