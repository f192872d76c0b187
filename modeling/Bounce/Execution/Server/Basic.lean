import Bounce.Library.Tagged
import Bounce.Execution.Connection.Step
import Std.Data.TreeMap

namespace Bounce.Server

open Connection (Code Answer Api Reported doTaskInThread handleChannel)
open Tagged (only tag)

variable {θ : Type} [DecidableEq θ]

-- Where the thread of a loop is: in `::poll`, in the handlers of the active channels, with those of
-- connections that have still to be handled, or in `doTheTasks`.
inductive Phase
  | poll
  | dispatch (batch : List (Nat × Events))
  | tasks
  deriving DecidableEq

-- A server, its loops and its connections, which are numbered as they are created. What the threads
-- have to do, and what is queued for them, is kept with the number of its connection. A connection
-- is `held` if the user has kept a `shared_ptr` of it.
structure State (θ : Type) where
  created       : Nat
  loop          : Nat → θ
  conn          : Nat → Connection θ
  held          : Nat → Bool
  connectionMap : Std.TreeMap Int Nat
  stack         : θ → List (Nat × Code θ)
  queue         : θ → TaskQueue (Nat × Connection.Task θ)
  phase         : θ → Phase

inductive Act (θ : Type)
  | accept (loop : θ) (fd : Int)
  | hold (c : Nat)
  | drop (c : Nat)
  | call (thread : θ) (c : Nat) (api : Api)
  | exec (thread : θ) (answer : Answer)
  | poll (thread : θ) (batch : List (Nat × Events))
  | dispatch (thread : θ)
  | swap (thread : θ)
  | task (thread : θ)
  | finish (thread : θ)

def Phase.of (c : Nat) : Phase → Connection.Phase
  | .poll           => .poll
  | .dispatch batch => .dispatch (batch.lookup c)
  | .tasks          => .tasks

namespace State

def new (base : θ) : State θ where
  created       := 0
  loop          := fun _ => base
  conn          := fun _ => .new 0 0
  held          := fun _ => false
  connectionMap := ∅
  stack         := fun _ => []
  queue         := fun _ => .empty
  phase         := fun _ => .poll

def getFd (s : State θ) (c : Nat) : Int :=
  (s.conn c).socket.fd

def view (s : State θ) (c : Nat) : Connection.State θ where
  conn   := s.conn c
  stack  := fun t => only c (s.stack t)
  queue  := fun t => ⟨only c (s.queue t).taskVec, only c (s.queue t).tmpVec⟩
  phase  := fun t => (s.phase t).of c
  mapped := s.connectionMap[s.getFd c]? == some c

-- A connection is destroyed, and its descriptor closed, with its last `shared_ptr`. In the source,
-- a functor of a batch is kept up to the end of the batch. Here, it is not kept after its run.
def Alive (s : State θ) (c : Nat) : Prop :=
  c < s.created ∧ ((s.view c).Shared ∨ s.held c)

instance [Fintype θ] {s : State θ} {c : Nat} : Decidable (s.Alive c) :=
  inferInstanceAs (Decidable (_ ∧ _))

def Callable (s : State θ) (t : θ) : Prop :=
  s.stack t = [] ∨ ∃ c rest, s.stack t = (c, .user) :: rest

def resume (s : State θ) (t : θ) (c : Nat) (r : Connection θ × List (Code θ))
    (rest : List (Nat × Code θ)) : State θ :=
  { s with
    conn  := Function.update s.conn c r.1
    stack := Function.update s.stack t (tag c r.2 ++ rest) }

def setPhase (s : State θ) (t : θ) (p : Phase) : State θ :=
  { s with phase := Function.update s.phase t p }

def setQueue (s : State θ) (t : θ) (q : TaskQueue (Nat × Connection.Task θ)) : State θ :=
  { s with queue := Function.update s.queue t q }

def setHeld (s : State θ) (c : Nat) (held : Bool) : State θ :=
  { s with held := Function.update s.held c held }

-- `newConnection` on the thread of the server's loop, up to the functor of `connectComplete`.
def newConnection (initSize : Nat) (base : θ) (s : State θ) (loop : θ) (fd : Int) : State θ :=
  let c := s.created
  { s with
    created       := c + 1
    loop          := Function.update s.loop c loop
    conn          := Function.update s.conn c (.new initSize fd)
    held          := Function.update s.held c false
    connectionMap := s.connectionMap.insertIfNew fd c
    stack         := Function.update s.stack base [(c, doTaskInThread loop base .connectComplete)] }

section NewConnection

variable {initSize : Nat} {base loop : θ} {s : State θ} {fd : Int} {c : Nat}

@[simp]
theorem newConnection_loop : (s.newConnection initSize base loop fd).loop s.created = loop :=
  Function.update_self ..

theorem newConnection_loop_of_ne (h : c ≠ s.created) :
    (s.newConnection initSize base loop fd).loop c = s.loop c :=
  Function.update_of_ne h ..

@[simp]
theorem newConnection_getFd : (s.newConnection initSize base loop fd).getFd s.created = fd := by
  simp [getFd, newConnection, Connection.new, TcpConnection.new, Socket.new]

theorem newConnection_getFd_of_ne (h : c ≠ s.created) :
    (s.newConnection initSize base loop fd).getFd c = s.getFd c := by
  simp [getFd, newConnection, h]

end NewConnection

def removeConnectionInLoop (s : State θ) (c : Nat) : State θ × List (Code θ) :=
  match s.connectionMap[s.getFd c]? with
  | some _ =>
    ({ s with connectionMap := s.connectionMap.erase (s.getFd c) }, [.queue .destroyConnection])
  | none   => (s, [])

end State

-- The steps, where `base` is the thread of the server's loop. The loop of a new connection is any
-- one that the pool may answer, and its descriptor any one that is not open. Between its
-- connections, a loop takes care of other channels, which are the acceptor's, its own and the
-- user's ones.
inductive Step (cfg : Callbacks) (initSize : Nat) (base : θ) : State θ → Act θ → State θ → Prop
  | accept {s loop fd} :
    s.phase base ≠ .poll → s.stack base = [] → 0 ≤ fd → (∀ c, s.Alive c → s.getFd c ≠ fd) →
    Step cfg initSize base s (.accept loop fd) (s.newConnection initSize base loop fd)
  | hold {s c} :
    s.Alive c → Step cfg initSize base s (.hold c) (s.setHeld c true)
  | drop {s c} :
    Step cfg initSize base s (.drop c) (s.setHeld c false)
  | call {s t c api} :
    s.Alive c → (s.conn c).known → s.Callable t →
    Step cfg initSize base s (.call t c api)
      (s.resume t c ((s.conn c).call (s.loop c) t api) (s.stack t))
  | exec {s t c code rest answer r} :
    s.stack t = (c, code) :: rest → (s.conn c).run cfg base t code answer = some r →
    Step cfg initSize base s (.exec t answer) (s.resume t c r rest)
  | queue {s t c f rest} :
    s.stack t = (c, .queue f) :: rest →
    Step cfg initSize base s (.exec t .none)
      ((s.setQueue (f.home (s.loop c) base) ((s.queue (f.home (s.loop c) base)).push (c, f))).resume
        t c (s.conn c, []) rest)
  | remove {s t c rest} :
    s.stack t = (c, .task .removeConnectionInLoop) :: rest →
    Step cfg initSize base s (.exec t .none)
      ((s.removeConnectionInLoop c).1.resume t c (s.conn c, (s.removeConnectionInLoop c).2) rest)
  | poll {s t batch} :
    s.phase t = .poll → s.stack t = [] → (batch.map (·.1)).Nodup →
    (∀ x ∈ batch, x.1 < s.created ∧ s.loop x.1 = t ∧ (s.conn x.1).channel.visible ∧
      Reported (s.conn x.1).channel.events x.2) →
    Step cfg initSize base s (.poll t batch) (s.setPhase t (.dispatch batch))
  | dispatch {s t c revents batch} :
    s.phase t = .dispatch ((c, revents) :: batch) → s.stack t = [] →
    Step cfg initSize base s (.dispatch t)
      ((s.setPhase t (.dispatch batch)).resume t c (s.conn c, handleChannel revents) [])
  | swap {s t} :
    s.phase t = .dispatch [] → s.stack t = [] →
    Step cfg initSize base s (.swap t) ((s.setPhase t .tasks).setQueue t (s.queue t).swap)
  | task {s t c f tasks} :
    s.phase t = .tasks → s.stack t = [] → (s.queue t).tmpVec = (c, f) :: tasks →
    Step cfg initSize base s (.task t)
      ((s.setQueue t { s.queue t with tmpVec := tasks }).resume t c (s.conn c, [.task f]) [])
  | finish {s t} :
    s.phase t = .tasks → s.stack t = [] → (s.queue t).tmpVec = [] →
    Step cfg initSize base s (.finish t) (s.setPhase t .poll)

namespace State

def step [Fintype θ] (cfg : Callbacks) (initSize : Nat) (base : θ) (s : State θ) :
    Act θ → Option (State θ)
  | .accept loop fd =>
    if s.phase base ≠ .poll ∧ s.stack base = [] ∧ 0 ≤ fd ∧ ∀ c < s.created, s.Alive c →
      s.getFd c ≠ fd then
      some (s.newConnection initSize base loop fd)
    else
      none
  | .hold c => if s.Alive c then some (s.setHeld c true) else none
  | .drop c => some (s.setHeld c false)
  | .call t c api =>
    match s.stack t with
    | [] | (_, .user) :: _ =>
      if s.Alive c ∧ (s.conn c).trace ≠ [] then
        some (s.resume t c ((s.conn c).call (s.loop c) t api) (s.stack t))
      else
        none
    | _ => none
  | .exec t answer =>
    match s.stack t, answer with
    | (c, .queue f) :: rest, .none =>
      some ((s.setQueue (f.home (s.loop c) base)
        ((s.queue (f.home (s.loop c) base)).push (c, f))).resume
        t c (s.conn c, []) rest)
    | (c, .task .removeConnectionInLoop) :: rest, .none =>
      some ((s.removeConnectionInLoop c).1.resume t c (s.conn c,
        (s.removeConnectionInLoop c).2) rest)
    | (c, code) :: rest, answer =>
      ((s.conn c).run cfg base t code answer).map fun r => s.resume t c r rest
    | [], _ => none
  | .poll t batch =>
    if s.phase t = .poll ∧ s.stack t = [] ∧ (batch.map (·.1)).Nodup ∧
        batch.all fun x => x.1 < s.created ∧ s.loop x.1 = t ∧ (s.conn x.1).channel.visible ∧
          Reported (s.conn x.1).channel.events x.2 then
      some (s.setPhase t (.dispatch batch))
    else
      none
  | .dispatch t =>
    match s.phase t, s.stack t with
    | .dispatch ((c, revents) :: batch), [] =>
      some ((s.setPhase t (.dispatch batch)).resume t c (s.conn c, handleChannel revents) [])
    | _, _ => none
  | .swap t =>
    if s.phase t = .dispatch [] ∧ s.stack t = [] then
      some ((s.setPhase t .tasks).setQueue t (s.queue t).swap)
    else
      none
  | .task t =>
    match s.phase t, s.stack t, (s.queue t).tmpVec with
    | .tasks, [], (c, f) :: tasks =>
      some ((s.setQueue t { s.queue t with tmpVec := tasks }).resume t c (s.conn c, [.task f]) [])
    | _, _, _ => none
  | .finish t =>
    if s.phase t = .tasks ∧ s.stack t = [] ∧ (s.queue t).tmpVec = [] then
      some (s.setPhase t .poll)
    else
      none

theorem step_sound [Fintype θ] {cfg : Callbacks} {initSize : Nat} {base : θ} {s s' : State θ}
    {act : Act θ}
    (h : s.step cfg initSize base act = some s') : Step cfg initSize base s act s' := by
  cases act <;> simp only [step] at h
  case accept loop fd =>
    split at h
    case isTrue hp =>
      cases h
      exact .accept hp.left hp.right.left hp.right.right.left fun c ha =>
        hp.right.right.right c ha.left ha
    case isFalse => contradiction
  case hold c =>
    split at h
    case isTrue ha => cases h; exact .hold ha
    case isFalse   => contradiction
  case drop c => cases h; exact .drop
  case call t c api =>
    split at h
    case h_1 hs =>
      split at h
      case isTrue hk => cases h; exact .call hk.left hk.right (.inl hs)
      case isFalse   => contradiction
    case h_2 hs =>
      split at h
      case isTrue hk => cases h; exact .call hk.left hk.right (.inr ⟨_, _, hs⟩)
      case isFalse   => contradiction
    case h_3 => contradiction
  case exec t answer =>
    split at h
    case h_1 hs => cases h; exact .queue hs
    case h_2 hs => cases h; exact .remove hs
    case h_3 hs _ _ =>
      rw [Option.map_eq_some_iff] at h
      have ⟨r, hr, he⟩ := h
      exact he ▸ .exec hs hr
    case h_4 => contradiction
  case poll t batch =>
    split at h
    case isTrue hp =>
      cases h
      refine .poll hp.left hp.right.left hp.right.right.left fun x hx => ?_
      simpa using List.all_eq_true.mp hp.right.right.right x hx
    case isFalse => contradiction
  case dispatch t =>
    split at h
    case h_1 hp hs => cases h; exact .dispatch hp hs
    case h_2       => contradiction
  case swap t =>
    split at h
    case isTrue hp => cases h; exact .swap hp.left hp.right
    case isFalse   => contradiction
  case task t =>
    split at h
    case h_1 hp hs ht => cases h; exact .task hp hs ht
    case h_2          => contradiction
  case finish t =>
    split at h
    case isTrue hp => cases h; exact .finish hp.left hp.right.left hp.right.right
    case isFalse   => contradiction

theorem steps_of_guard [Fintype θ] {cfg : Callbacks} {initSize : Nat} {base : θ} {s : State θ}
    {acts : List (Act θ)} {c : State θ → Act θ → Prop} [∀ s act, Decidable (c s act)]
    (h : (acts.foldlM (Steps.guard c (step cfg initSize base)) s).isSome) :
    Steps (Steps.When c (Step cfg initSize base)) s acts
      ((acts.foldlM (Steps.guard c (step cfg initSize base)) s).get h) :=
  (Steps.of_isSome h).mono fun hg => (Steps.of_guard hg).imp id step_sound

end State
end Bounce.Server
