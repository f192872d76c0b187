import Mathlib.Logic.Hydra

variable {α : Type*} {r : α → α → Prop} {P : Multiset α → Prop} {s : Multiset α}

-- A list of work where each item that is done may put new items on the list comes to an end, if no
-- item starts an infinite chain of such items.
theorem Multiset.worklist_induction
    (hp : ∀ s, (∀ x rest new, s = x ::ₘ rest → (∀ y ∈ new, r y x) → P (rest + new)) → P s)
    (hs : ∀ x ∈ s, Acc r x) : P s := by
  let r' : α → α → Prop := fun y x => r y x ∧ Acc r x
  have hr : Std.Irrefl r' := by
    constructor
    intro x ⟨hx, ha⟩
    induction ha
    case intro _ hi => exact hi _ hx hx
  have ha : Acc (Relation.CutExpand r') s := by
    apply Relation.acc_of_singleton
    intro x hx
    exact (Subrelation.accessible And.left (hs x hx)).cutExpand
  induction ha
  case intro s _ hi =>
    apply hp
    intro x rest new hx hn
    subst hx
    have hx := hs x (mem_cons_self x rest)
    apply hi
    · refine ⟨new, x, fun y hy => ⟨hn y hy, hx⟩, ?_⟩
      rw [add_right_comm, ← singleton_add, add_comm {x} rest]
    · intro y hy
      cases mem_add.mp hy
      case inl hy => exact hs y (mem_cons_of_mem hy)
      case inr hy => exact hx.inv (hn y hy)
