import Bounce.Execution.Connection.Theorems.Places

namespace Bounce.Connection.Ownership

variable {θ : Type} [DecidableEq θ]

-- A connection's threads and loops, with the rest of its owners: the functors of the present batch
-- that have been run, which `doTheTasks` keeps until its end, and the threads that have a
-- `shared_ptr` of their own.
structure State (θ : Type) extends Connection.State θ where
  ran  : θ → List (Task θ)
  held : θ → Bool

namespace State

def Owned (s : State θ) : Prop :=
  s.toState.Shared ∨ (∃ t, ∃ f ∈ s.ran t, f.shared) ∨ ∃ t, s.held t

-- A thread calls a connection through its own `shared_ptr`, or through the argument of a callback.
def MayCall (s : State θ) : Connection.Act θ → Prop
  | .call t _ => s.held t ∨ s.stack t ≠ []
  | _         => True

def after (s : State θ) (act : Connection.Act θ) (s' : Connection.State θ) : State θ where
  toState := s'
  ran     :=
    match act with
    | .task t   => Function.update s.ran t (s.ran t ++ (s.queue t).tmpVec.take 1)
    | .finish t => Function.update s.ran t []
    | _         => s.ran
  held    := s.held

def hold (s : State θ) (t : θ) (b : Bool) : State θ :=
  { s with held := Function.update s.held t b }

end State

inductive Act (θ : Type)
  | step (act : Connection.Act θ)
  | hold (thread : θ)
  | drop (thread : θ)

inductive Step (cfg : Callbacks) (own base : θ) : State θ → Act θ → State θ → Prop
  | step {s act s'} :
    s.MayCall act → Connection.Step cfg own base s.toState act s' →
    Step cfg own base s (.step act) (s.after act s')
  | hold {s t} :
    s.Owned → s.conn.known → s.Callable t → Step cfg own base s (.hold t) (s.hold t true)
  | drop {s t} :
    s.Callable t → Step cfg own base s (.drop t) (s.hold t false)

-- The functor of `connectComplete` may be the one that is being run.
structure Initial (own : θ) (s : State θ) : Prop where
  initial : Connection.Initial own s.toState
  ran     : ∀ t, ∀ f ∈ s.ran t, f = .connectComplete
  held    : ∀ t, s.held t = false

def State.new (own : θ) (initSize : Nat) (fd : Int) : State θ where
  toState := .new own initSize fd
  ran _   := []
  held _  := false

theorem State.new_initial {own : θ} {initSize : Nat} {fd : Int} :
    Initial own (new own initSize fd) where
  initial := Connection.State.new_initial
  ran     := by simp [new]
  held _  := rfl

namespace State

instance [Fintype θ] {s : State θ} : Decidable s.Owned :=
  inferInstanceAs (Decidable (_ ∨ _))

instance {s : State θ} : ∀ act, Decidable (s.MayCall act)
  | .call _ _ => inferInstanceAs (Decidable (_ ∨ _))
  | .exec _ _ | .poll _ _ | .dispatch _ | .swap _ | .task _ | .finish _ => .isTrue trivial

def step [Fintype θ] (cfg : Callbacks) (own base : θ) (s : State θ) : Act θ → Option (State θ)
  | .step act => if s.MayCall act then (s.toState.step cfg own base act).map (s.after act) else none
  | .hold t   =>
    match s.stack t with
    | [] | .user :: _ => if s.Owned ∧ s.conn.trace ≠ [] then some (s.hold t true) else none
    | _               => none
  | .drop t   =>
    match s.stack t with
    | [] | .user :: _ => some (s.hold t false)
    | _               => none

theorem step_sound [Fintype θ] {cfg : Callbacks} {own base : θ} {s s' : State θ} {act : Act θ}
    (h : s.step cfg own base act = some s') : Step cfg own base s act s' := by
  cases act <;> simp only [step] at h
  case step act =>
    split at h
    case isFalse => contradiction
    case isTrue hc =>
      rw [Option.map_eq_some_iff] at h
      have ⟨_, he, h⟩ := h
      exact h ▸ .step hc (Connection.State.step_sound he)
  case hold t =>
    split at h
    case h_3    => contradiction
    case h_1 hs =>
      split at h
      case isTrue hc => cases h; exact .hold hc.left hc.right (.inl hs)
      case isFalse   => contradiction
    case h_2 hs =>
      split at h
      case isTrue hc => cases h; exact .hold hc.left hc.right (.inr ⟨_, hs⟩)
      case isFalse   => contradiction
  case drop t =>
    split at h
    case h_1 hs => cases h; exact .drop (.inl hs)
    case h_2 hs => cases h; exact .drop (.inr ⟨_, hs⟩)
    case h_3    => contradiction

end State
end Bounce.Connection.Ownership
