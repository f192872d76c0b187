import Mathlib.Algebra.GroupWithZero.Nat
import Mathlib.Data.List.Forall2
import Mathlib.Logic.Relation

variable {σ τ α β : Type*}

-- The runs of a labelled transition relation: the labels taken, between the states at both ends.
inductive Steps (R : σ → α → σ → Prop) : σ → List α → σ → Prop
  | refl {s} : Steps R s [] s
  | step {s₁ s₂ s₃ a as} : R s₁ a s₂ → Steps R s₂ as s₃ → Steps R s₁ (a :: as) s₃

namespace Steps

variable {R R' : σ → α → σ → Prop} {s s₁ s₂ s₃ : σ} {a : α} {as as₁ as₂ : List α}

def Of (step : σ → α → Option σ) (s₁ : σ) (a : α) (s₂ : σ) : Prop :=
  step s₁ a = some s₂

def When (c : σ → α → Prop) (R : σ → α → σ → Prop) (s₁ : σ) (a : α) (s₂ : σ) : Prop :=
  c s₁ a ∧ R s₁ a s₂

theorem single (h : R s₁ a s₂) : Steps R s₁ [a] s₂ :=
  .step h .refl

theorem append (e₁ : Steps R s₁ as₁ s₂) (e₂ : Steps R s₂ as₂ s₃) : Steps R s₁ (as₁ ++ as₂) s₃ := by
  induction e₁
  case refl => exact e₂
  case step h _ hi => exact .step h (hi e₂)

theorem split (e : Steps R s₁ (as₁ ++ as₂) s₃) : ∃ s₂, Steps R s₁ as₁ s₂ ∧ Steps R s₂ as₂ s₃ := by
  induction as₁ generalizing s₁
  case nil => exact ⟨_, .refl, e⟩
  case cons hi =>
    cases e
    case step h e =>
      have ⟨s₂, e₁, e₂⟩ := hi e
      exact ⟨s₂, .step h e₁, e₂⟩

theorem mono (hr : ∀ {s₁ a s₂}, R s₁ a s₂ → R' s₁ a s₂) (e : Steps R s₁ as s₂) :
    Steps R' s₁ as s₂ := by
  induction e
  case refl => exact .refl
  case step h _ hi => exact .step (hr h) hi

theorem forget {c : σ → α → Prop} (e : Steps (When c R) s₁ as s₂) : Steps R s₁ as s₂ :=
  e.mono And.right

theorem invariant {P : σ → Prop} (hp : ∀ {s₁ a s₂}, P s₁ → R s₁ a s₂ → P s₂)
    (e : Steps R s₁ as s₂) (h : P s₁) : P s₂ := by
  induction e
  case refl => exact h
  case step hr _ hi => exact hi (hp h hr)

theorem simulate {P : σ → Prop} {Q : τ → α → τ → Prop} (f : σ → τ)
    (hp : ∀ {s₁ a s₂}, P s₁ → R s₁ a s₂ → P s₂)
    (hf : ∀ {s₁ a s₂}, P s₁ → R s₁ a s₂ → Q (f s₁) a (f s₂))
    (e : Steps R s₁ as s₂) (h : P s₁) : Steps Q (f s₁) as (f s₂) := by
  induction e
  case refl => exact .refl
  case step hr _ hi => exact .step (hf h hr) (hi (hp h hr))

theorem simulate_weakly {P : σ → Prop} {Q : τ → β → τ → Prop} {L : α → β → Prop} (f : σ → τ)
    (hp : ∀ {s₁ a s₂}, P s₁ → R s₁ a s₂ → P s₂)
    (hf : ∀ {s₁ a s₂}, P s₁ → R s₁ a s₂ → f s₂ = f s₁ ∨ ∃ b, L a b ∧ Q (f s₁) b (f s₂))
    (e : Steps R s₁ as s₂) (h : P s₁) :
    ∃ bs, List.SublistForall₂ (fun b a => L a b) bs as ∧ Steps Q (f s₁) bs (f s₂) := by
  induction e
  case refl => exact ⟨[], .nil, .refl⟩
  case step hr _ hi =>
    have ⟨bs, hl, e⟩ := hi (hp h hr)
    obtain hn | ⟨b, hb, hq⟩ := hf h hr
    · exact ⟨bs, .cons_right hl, hn ▸ e⟩
    · exact ⟨b :: bs, .cons hb hl, .step hq e⟩

theorem of_foldlM {step : σ → α → Option σ} (h : as.foldlM step s₁ = some s₂) :
    Steps (Of step) s₁ as s₂ := by
  induction as generalizing s₁
  case nil =>
    cases h
    exact .refl
  case cons hi =>
    rw [List.foldlM_cons, Option.bind_eq_bind, Option.bind_eq_some_iff] at h
    have ⟨_, h₁, h₂⟩ := h
    exact .step h₁ (hi h₂)

theorem of_isSome {step : σ → α → Option σ} (h : (as.foldlM step s₁).isSome) :
    Steps (Of step) s₁ as ((as.foldlM step s₁).get h) :=
  of_foldlM (Option.some_get h).symm

def guard (c : σ → α → Prop) [∀ s a, Decidable (c s a)] (step : σ → α → Option σ) (s : σ) (a : α) :
    Option σ :=
  if c s a then step s a else none

theorem of_guard {step : σ → α → Option σ} {c : σ → α → Prop} [∀ s a, Decidable (c s a)]
    (h : guard c step s₁ a = some s₂) : When c (Of step) s₁ a s₂ := by
  by_cases hc : c s₁ a
  case pos => exact ⟨hc, by rwa [guard, if_pos hc] at h⟩
  case neg => simp [guard, hc] at h

def Tally [Add β] (f : σ → α → σ → β) (R : σ → α → σ → Prop) (x₁ : σ × β) (a : α)
    (x₂ : σ × β) : Prop :=
  R x₁.1 a x₂.1 ∧ x₂.2 = x₁.2 + f x₁.1 a x₂.1

theorem tally [Add β] (f : σ → α → σ → β) (e : Steps R s₁ as s₂) (n : β) :
    ∃ m, Steps (Tally f R) (s₁, n) as (s₂, m) := by
  induction e generalizing n
  case refl => exact ⟨n, .refl⟩
  case step s₁ s₂ _ a _ h _ hi =>
    have ⟨m, e⟩ := hi (n + f s₁ a s₂)
    have h : Tally f R (s₁, n) a (s₂, n + f s₁ a s₂) := ⟨h, rfl⟩
    exact ⟨m, .step h e⟩

-- What the steps of a run cost is limited by a potential that they take it from, other than what
-- their labels give to it.
theorem cost_le {φ : σ → Nat} {w f : α → Nat} (h : ∀ {s₁ a s₂}, R s₁ a s₂ → φ s₂ + w a ≤ φ s₁ + f a)
    (e : Steps R s₁ as s₂) : (as.map w).sum + φ s₂ ≤ φ s₁ + (as.map f).sum := by
  induction e
  case refl => simp
  case step hr _ hi =>
    have h := h hr
    rw [List.map_cons, List.map_cons, List.sum_cons, List.sum_cons]
    omega

theorem length_le {φ : σ → Nat} {f : α → Nat} (h : ∀ {s₁ a s₂}, R s₁ a s₂ → φ s₂ + 1 ≤ φ s₁ + f a)
    (e : Steps R s₁ as s₂) : as.length + φ s₂ ≤ φ s₁ + (as.map f).sum := by
  simpa using e.cost_le (w := fun _ => 1) (f := f) (φ := φ) fun hr => h hr

end Steps
