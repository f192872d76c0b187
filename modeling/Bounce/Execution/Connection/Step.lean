import Mathlib.Data.Fintype.Basic
import Bounce.Execution.Connection.Basic

namespace Bounce.Connection

variable {θ : Type} [DecidableEq θ]

-- Where the thread of a loop is: in `::poll`, in the handlers of the active channels, of which the
-- connection's one may still be to come, or in `doTheTasks`.
inductive Phase
  | poll
  | dispatch (ready : Option Events)
  | tasks
  deriving DecidableEq

-- One connection, with the threads and the loops that take part in it. `mapped` says that it is in
-- the connection map of the server.
structure State (θ : Type) where
  conn   : Connection θ
  stack  : θ → List (Code θ)
  queue  : θ → TaskQueue (Task θ)
  phase  : θ → Phase
  mapped : Bool

inductive Act (θ : Type)
  | call (thread : θ) (api : Api)
  | exec (thread : θ) (answer : Answer)
  | poll (thread : θ) (ready : Option Events)
  | dispatch (thread : θ)
  | swap (thread : θ)
  | task (thread : θ)
  | finish (thread : θ)

def Task.home (own base : θ) : Task θ → θ
  | .removeConnectionInLoop => base
  | _                       => own

-- The functors that are bound to a `shared_ptr`, where the other ones are bound to `this`.
def Task.shared : Task θ → Bool
  | .sendInLoop _ _ | .shutdownInLoop _ => false
  | _                                   => true

-- The codes that come with a `shared_ptr`: the functor that is being run, the `last_life` of
-- `handleClose`, or the argument of a callback.
def Code.shared : Code θ → Bool
  | .task f | .queue f                 => f.shared
  | .closeCb | .removeChannel | .user  => true
  | _                                  => false

def Reported (events revents : Events) : Prop :=
  revents &&& ~~~(events ||| Events.POLLERR ||| Events.POLLHUP ||| Events.POLLNVAL) = 0 ∧
  revents ≠ 0

instance {events revents : Events} : Decidable (Reported events revents) :=
  inferInstanceAs (Decidable (_ ∧ _))

namespace State

def Callable (s : State θ) (t : θ) : Prop :=
  s.stack t = [] ∨ ∃ rest, s.stack t = .user :: rest

def Shared (s : State θ) : Prop :=
  s.mapped ∨ (∃ t, ∃ code ∈ s.stack t, code.shared) ∨ ∃ t, ∃ f ∈ (s.queue t).pending, f.shared

instance [Fintype θ] {s : State θ} : Decidable s.Shared :=
  inferInstanceAs (Decidable (_ ∨ _))

def resume (s : State θ) (t : θ) (r : Connection θ × List (Code θ))
    (rest : List (Code θ)) : State θ :=
  { s with conn := r.1, stack := Function.update s.stack t (r.2 ++ rest) }

def setPhase (s : State θ) (t : θ) (p : Phase) : State θ :=
  { s with phase := Function.update s.phase t p }

def setQueue (s : State θ) (t : θ) (q : TaskQueue (Task θ)) : State θ :=
  { s with queue := Function.update s.queue t q }

end State

-- The steps, where `own` is the thread of the connection's loop, and `base` of the server's.
inductive Step (cfg : Callbacks) (own base : θ) : State θ → Act θ → State θ → Prop
  | call {s t api} :
    s.conn.known → s.Callable t →
    Step cfg own base s (.call t api) (s.resume t (s.conn.call own t api) (s.stack t))
  | exec {s t code rest answer r} :
    s.stack t = code :: rest → s.conn.run cfg base t code answer = some r →
    Step cfg own base s (.exec t answer) (s.resume t r rest)
  | queue {s t task rest} :
    s.stack t = .queue task :: rest →
    Step cfg own base s (.exec t .none)
      ((s.setQueue (task.home own base) ((s.queue (task.home own base)).push task)).resume t
        (s.conn, []) rest)
  | remove {s t rest} :
    s.stack t = .task .removeConnectionInLoop :: rest →
    Step cfg own base s (.exec t .none)
      (State.resume { s with mapped := false } t
        (s.conn, if s.mapped then [.queue .destroyConnection] else []) rest)
  | poll {s t ready} :
    s.phase t = .poll → s.stack t = [] →
    (∀ r ∈ ready, t = own ∧ s.conn.channel.visible ∧ Reported s.conn.channel.events r) →
    Step cfg own base s (.poll t ready) (s.setPhase t (.dispatch ready))
  | dispatch {s t revents} :
    s.phase t = .dispatch (some revents) → s.stack t = [] →
    Step cfg own base s (.dispatch t)
      ((s.setPhase t (.dispatch none)).resume t (s.conn, handleChannel revents) [])
  | swap {s t} :
    s.phase t = .dispatch none → s.stack t = [] →
    Step cfg own base s (.swap t) ((s.setPhase t .tasks).setQueue t (s.queue t).swap)
  | task {s t task tasks} :
    s.phase t = .tasks → s.stack t = [] → (s.queue t).tmpVec = task :: tasks →
    Step cfg own base s (.task t)
      ((s.setQueue t { s.queue t with tmpVec := tasks }).resume t (s.conn, [.task task]) [])
  | finish {s t} :
    s.phase t = .tasks → s.stack t = [] → (s.queue t).tmpVec = [] →
    Step cfg own base s (.finish t) (s.setPhase t .poll)

namespace State

def step (cfg : Callbacks) (own base : θ) (s : State θ) : Act θ → Option (State θ)
  | .call t api =>
    match s.stack t with
    | [] | .user :: _ =>
      if s.conn.trace = [] then none else some (s.resume t (s.conn.call own t api) (s.stack t))
    | _ => none
  | .exec t answer =>
    match s.stack t, answer with
    | .queue task :: rest, .none =>
      some ((s.setQueue (task.home own base) ((s.queue (task.home own base)).push task)).resume t
        (s.conn, []) rest)
    | .task .removeConnectionInLoop :: rest, .none =>
      some (State.resume { s with mapped := false } t
        (s.conn, if s.mapped then [.queue .destroyConnection] else []) rest)
    | code :: rest, answer => (s.conn.run cfg base t code answer).map fun r => s.resume t r rest
    | [], _ => none
  | .poll t ready =>
    if s.phase t = .poll ∧ s.stack t = [] ∧
        ready.all fun r => t = own ∧ s.conn.channel.visible ∧ Reported s.conn.channel.events r then
      some (s.setPhase t (.dispatch ready))
    else
      none
  | .dispatch t =>
    match s.phase t, s.stack t with
    | .dispatch (some revents), [] =>
      some ((s.setPhase t (.dispatch none)).resume t (s.conn, handleChannel revents) [])
    | _, _ => none
  | .swap t =>
    if s.phase t = .dispatch none ∧ s.stack t = [] then
      some ((s.setPhase t .tasks).setQueue t (s.queue t).swap)
    else
      none
  | .task t =>
    match s.phase t, s.stack t, (s.queue t).tmpVec with
    | .tasks, [], task :: tasks =>
      some ((s.setQueue t { s.queue t with tmpVec := tasks }).resume t (s.conn, [.task task]) [])
    | _, _, _ => none
  | .finish t =>
    if s.phase t = .tasks ∧ s.stack t = [] ∧ (s.queue t).tmpVec = [] then
      some (s.setPhase t .poll)
    else
      none

theorem step_sound {cfg : Callbacks} {own base : θ} {s s' : State θ} {act : Act θ}
    (h : s.step cfg own base act = some s') : Step cfg own base s act s' := by
  cases act <;> simp only [step] at h
  case call t api =>
    split at h
    case h_1 hs =>
      split at h
      case isTrue     => contradiction
      case isFalse hk => cases h; exact .call hk (.inl hs)
    case h_2 hs =>
      split at h
      case isTrue     => contradiction
      case isFalse hk => cases h; exact .call hk (.inr ⟨_, hs⟩)
    case h_3 => contradiction
  case exec t answer =>
    split at h
    case h_1 hs => cases h; exact .queue hs
    case h_2 hs => cases h; exact .remove hs
    case h_3 hs _ _ =>
      rw [Option.map_eq_some_iff] at h
      have ⟨r, hr, he⟩ := h
      exact he ▸ .exec hs hr
    case h_4 => contradiction
  case poll t ready =>
    split at h
    case isTrue hp =>
      cases h
      refine .poll hp.left hp.right.left fun r hr => ?_
      simpa using Option.all_eq_true _ _ |>.mp hp.right.right r hr
    case isFalse   => contradiction
  case dispatch t =>
    split at h
    case h_1 hp hs => cases h; exact .dispatch hp hs
    case h_2       => contradiction
  case swap t =>
    split at h
    case isTrue hp => cases h; exact .swap hp.left hp.right
    case isFalse   => contradiction
  case task t =>
    split at h
    case h_1 hp hs ht => cases h; exact .task hp hs ht
    case h_2          => contradiction
  case finish t =>
    split at h
    case isTrue hp => cases h; exact .finish hp.left hp.right.left hp.right.right
    case isFalse   => contradiction

theorem steps_of_isSome {cfg : Callbacks} {own base : θ} {s : State θ} {acts : List (Act θ)}
    (h : (acts.foldlM (step cfg own base) s).isSome) :
    Steps (Step cfg own base) s acts ((acts.foldlM (step cfg own base) s).get h) :=
  (Steps.of_isSome h).mono step_sound

theorem steps_of_guard {cfg : Callbacks} {own base : θ} {s : State θ} {acts : List (Act θ)}
    {c : State θ → Act θ → Prop} [∀ s act, Decidable (c s act)]
    (h : (acts.foldlM (Steps.guard c (step cfg own base)) s).isSome) :
    Steps (Steps.When c (Step cfg own base)) s acts
      ((acts.foldlM (Steps.guard c (step cfg own base)) s).get h) :=
  (Steps.of_isSome h).mono fun hg => (Steps.of_guard hg).imp id step_sound

end State

-- The states right behind the first two lines of `connectComplete`, in any phases of the loops.
structure Initial (own : θ) (s : State θ) : Prop where
  conn   : ∃ initSize fd, s.conn =
    { new initSize fd with toTcpConnection := (TcpConnection.new initSize fd).connectComplete }
  stack  : s.stack = Function.update (fun _ => []) own [.callback .connect false]
  queue  : s.queue = fun _ => .empty
  phase  : ∀ t r, s.phase t ≠ .dispatch (some r)
  mapped : s.mapped = true

def State.new (own : θ) (initSize : Nat) (fd : Int) : State θ where
  conn   :=
    { Connection.new initSize fd with
      toTcpConnection := (TcpConnection.new initSize fd).connectComplete }
  stack  := Function.update (fun _ => []) own [.callback .connect false]
  queue  := fun _ => .empty
  phase  := fun _ => .dispatch none
  mapped := true

theorem State.new_initial {own : θ} {initSize : Nat} {fd : Int} :
    Initial own (new own initSize fd) where
  conn   := ⟨initSize, fd, rfl⟩
  stack  := rfl
  queue  := rfl
  phase  := by simp [new]
  mapped := rfl

end Bounce.Connection
