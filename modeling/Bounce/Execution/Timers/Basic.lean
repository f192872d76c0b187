import Bounce.Library.Steps
import Bounce.Objects.EventLoop.Basic
import Bounce.Objects.TimerQueue.Theorems.Kept

namespace Bounce.Timers

variable {γ : Type}

inductive Task
  | addTimerInLoop (timer : TimerPtr)
  | deleteTimerInLoop (timer : TimerPtr)
  deriving DecidableEq

-- A timer queue with the queue of its loop. The timers that run once are listed in `inserted` in
-- the order in which they got into their map.
structure State (γ : Type) where
  timers   : TimerQueue γ
  queue    : TaskQueue Task
  inserted : List TimerPtr

-- The steps of a run: `addTimer` on the thread of the loop and on another one, `deleteTimer` on any
-- thread, `handleRead` with what the callbacks do this time, and what `doTheTasks` does. A callback
-- that calls `deleteTimer` queues a task, which `flush` puts between the tasks of other threads.
inductive Act (γ : Type)
  | add (timer : Timer γ) (clock : TimePoint)
  | queueAdd (timer : Timer γ)
  | queueDelete (timer : TimerPtr)
  | flush
  | read (body : γ → List (Action γ)) (now clock : TimePoint) (fuel : Nat)
  | swap
  | task (clock : TimePoint)

namespace State

def new (timer : TimerPtr → Timer γ) : State γ where
  timers   := .new timer
  queue    := .empty
  inserted := []

def onceFrom (q : TimerQueue γ) (t : TimerPtr) : List TimerPtr :=
  (List.range' t (q.allocated - t)).filter fun t => !(q.timer t).repeats

def insert (s : State γ) (t : TimerPtr) (clock : TimePoint) : State γ :=
  { s with
    timers   := s.timers.addTimerInLoop t clock
    inserted := s.inserted ++ [t].filter fun t => !(s.timers.timer t).repeats }

def runTask (s : State γ) (clock : TimePoint) : Task → State γ
  | .addTimerInLoop t    => s.insert t clock
  | .deleteTimerInLoop t => { s with timers := s.timers.deleteTimerInLoop t }

-- The thread of the loop is not inside of a callback that still has tasks to queue.
def free (s : State γ) : Bool :=
  s.timers.deletions.isEmpty

def step (s : State γ) : Act γ → Option (State γ)
  | .add timer clock =>
    if s.free then
      some ({ s with timers := s.timers.allocate timer }.insert s.timers.allocated clock)
    else
      none
  | .queueAdd timer =>
    some { s with
      timers := s.timers.allocate timer
      queue  := s.queue.push (.addTimerInLoop s.timers.allocated) }
  | .queueDelete t =>
    if t < s.timers.allocated then
      some { s with queue := s.queue.push (.deleteTimerInLoop t) }
    else
      none
  | .flush =>
    match s.timers.deletions with
    | []      => none
    | t :: ts =>
      if t < s.timers.allocated then
        some { s with
          timers.deletions := ts
          queue := s.queue.push (.deleteTimerInLoop t) }
      else
        none
  | .read body now clock fuel =>
    if s.free ∧ s.queue.tmpVec = [] then
      (s.timers.handleRead body now clock fuel).map fun q =>
        -- A callback inserts its timers one after another, each with the next pointer.
        { s with timers := q, inserted := s.inserted ++ onceFrom q s.timers.allocated }
    else
      none
  | .swap =>
    if s.free ∧ s.queue.tmpVec = [] then
      some { s with queue := s.queue.swap }
    else
      none
  | .task clock =>
    match s.queue.tmpVec with
    | []            => none
    | task :: tasks =>
      if s.free then
        some ({ s with queue.tmpVec := tasks }.runTask clock task)
      else
        none

abbrev Step : State γ → Act γ → State γ → Prop :=
  Steps.Of step

inductive Effect (s : State γ) : Act γ → State γ → Prop
  | add {timer clock} :
    Effect s (.add timer clock)
      ({ s with timers := s.timers.allocate timer }.insert s.timers.allocated clock)
  | queueAdd {timer} :
    Effect s (.queueAdd timer)
      { s with
        timers := s.timers.allocate timer
        queue  := s.queue.push (.addTimerInLoop s.timers.allocated) }
  | queueDelete {t} :
    t < s.timers.allocated →
    Effect s (.queueDelete t) { s with queue := s.queue.push (.deleteTimerInLoop t) }
  | flush {t ts} :
    t < s.timers.allocated →
    Effect s .flush { s with timers.deletions := ts, queue := s.queue.push (.deleteTimerInLoop t) }
  | read {body now clock fuel q} :
    s.timers.handleRead body now clock fuel = some q →
    Effect s (.read body now clock fuel)
      { s with timers := q, inserted := s.inserted ++ onceFrom q s.timers.allocated }
  | swap :
    s.queue.tmpVec = [] → Effect s .swap { s with queue := s.queue.swap }
  | task {clock task tasks} :
    s.queue.tmpVec = task :: tasks →
    Effect s (.task clock) ({ s with queue.tmpVec := tasks }.runTask clock task)

theorem step_effect {s s' : State γ} {act : Act γ} (e : Step s act s') : Effect s act s' := by
  cases act <;> simp only [Step, Steps.Of, step] at e
  case add =>
    rw [Option.ite_none_right_eq_some] at e
    obtain ⟨_, rfl⟩ := e.imp_right Option.some.inj
    exact .add
  case queueAdd =>
    obtain rfl := Option.some.inj e
    exact .queueAdd
  case queueDelete =>
    rw [Option.ite_none_right_eq_some] at e
    obtain ⟨ht, rfl⟩ := e.imp_right Option.some.inj
    exact .queueDelete ht
  case flush =>
    split at e
    case h_1 => contradiction
    case h_2 =>
      rw [Option.ite_none_right_eq_some] at e
      obtain ⟨ht, rfl⟩ := e.imp_right Option.some.inj
      exact .flush ht
  case read =>
    rw [Option.ite_none_right_eq_some, Option.map_eq_some_iff] at e
    obtain ⟨_, q, hq, rfl⟩ := e
    exact .read hq
  case swap =>
    rw [Option.ite_none_right_eq_some] at e
    obtain ⟨⟨_, ht⟩, rfl⟩ := e.imp_right Option.some.inj
    exact .swap ht
  case task =>
    split at e
    case h_1 => contradiction
    case h_2 ht =>
      rw [Option.ite_none_right_eq_some] at e
      obtain ⟨_, rfl⟩ := e.imp_right Option.some.inj
      exact .task ht

end State
end Bounce.Timers
