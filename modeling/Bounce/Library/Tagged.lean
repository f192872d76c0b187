import Mathlib.Data.List.Chain

variable {κ α : Type*} [DecidableEq κ] {c d : κ} {a : α} {l l' : List (κ × α)} {as : List α}
variable {P : α → Prop}

-- Lists that are shared by several owners, where the tag of an entry is its owner.
namespace Tagged

def only (c : κ) (l : List (κ × α)) : List α :=
  l.filterMap fun x => if x.1 = c then some x.2 else none

def tag (c : κ) (as : List α) : List (κ × α) :=
  as.map (c, ·)

@[simp]
theorem only_nil : only c ([] : List (κ × α)) = [] :=
  rfl

@[simp]
theorem only_append : only c (l ++ l') = only c l ++ only c l' :=
  List.filterMap_append

@[simp]
theorem only_cons_self : only c ((c, a) :: l) = a :: only c l := by
  simp [only]

theorem only_cons_of_ne (h : d ≠ c) : only c ((d, a) :: l) = only c l := by
  simp [only, h]

@[simp]
theorem only_tag : only c (tag c as) = as := by
  induction as
  case nil          => rfl
  case cons a as hi => rw [tag, List.map_cons, only_cons_self, ← tag, hi]

theorem only_tag_of_ne (h : d ≠ c) : only c (tag d as) = [] := by
  induction as
  case nil          => rfl
  case cons a as hi => rw [tag, List.map_cons, only_cons_of_ne h, ← tag, hi]

theorem mem_only : a ∈ only c l ↔ (c, a) ∈ l := by
  simp only [only, List.mem_filterMap, Prod.exists, Option.ite_none_right_eq_some,
    Option.some.injEq]
  constructor
  case mp =>
    rintro ⟨d, b, hm, rfl, rfl⟩
    exact hm
  case mpr => exact fun h => ⟨c, a, h, rfl, rfl⟩

theorem only_eq_nil (h : ∀ x ∈ l, x.1 ≠ c) : only c l = [] :=
  List.eq_nil_iff_forall_not_mem.mpr fun _ hm => h _ (mem_only.mp hm) rfl

omit [DecidableEq κ] in
theorem mem_tag {x : κ × α} (h : x ∈ tag c as) : x.1 = c ∧ x.2 ∈ as := by
  have ⟨a, hm, he⟩ := List.mem_map.mp h
  exact he ▸ ⟨rfl, hm⟩

-- An owner's entry is only put on an entry of another owner if `P` holds of that one.
def Layered (P : α → Prop) (l : List (κ × α)) : Prop :=
  l.IsChain fun x y => x.1 = y.1 ∨ P y.2

namespace Layered

omit [DecidableEq κ] in
theorem nil : Layered P ([] : List (κ × α)) :=
  List.IsChain.nil

omit [DecidableEq κ] in
theorem push (h : Layered P l) (ht : ∀ x ∈ l.head?, c = x.1 ∨ P x.2) :
    Layered P (tag c as ++ l) := by
  induction as
  case nil => exact h
  case cons a as hi =>
    refine List.isChain_cons.mpr ⟨fun x hx => ?_, hi⟩
    cases as
    case nil  => exact ht x hx
    case cons => exact .inl (Option.some.inj hx ▸ rfl)

omit [DecidableEq κ] in
theorem resume (h : Layered P ((c, a) :: l)) : Layered P (tag c as ++ l) :=
  have ⟨ht, hl⟩ := List.isChain_cons.mp h
  push hl ht

theorem only_of_ne (h : Layered P ((d, a) :: l)) (hd : d ≠ c) :
    only c l = [] ∨ ∃ b as, only c l = b :: as ∧ P b := by
  induction l generalizing d a
  case nil => exact .inl rfl
  case cons x l hi =>
    obtain ⟨e, b⟩ := x
    have ⟨ht, hl⟩ := List.isChain_cons.mp h
    by_cases he : e = c
    case pos =>
      subst he
      exact .inr ⟨b, only e l, only_cons_self, (ht _ rfl).resolve_left hd⟩
    case neg =>
      rw [only_cons_of_ne he]
      exact hi hl he

theorem top_of_only (h : Layered P l) (ho : only c l = a :: as) (ha : ¬P a) :
    ∃ l', l = (c, a) :: l' := by
  cases l
  case nil => contradiction
  case cons x l =>
    obtain ⟨d, b⟩ := x
    by_cases hd : d = c
    case pos =>
      subst hd
      rw [only_cons_self, List.cons.injEq] at ho
      exact ⟨l, by rw [ho.left]⟩
    case neg =>
      rw [only_cons_of_ne hd] at ho
      obtain hn | ⟨b', as', hn, hp⟩ := h.only_of_ne hd
      · exact nomatch hn.symm.trans ho
      · exact absurd ((List.cons.inj (hn.symm.trans ho)).left ▸ hp) ha

end Layered
end Tagged
