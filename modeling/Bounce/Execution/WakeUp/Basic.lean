import Bounce.Library.Steps
import Bounce.Objects.EventLoop.Basic

namespace Bounce.WakeUp

variable {θ τ : Type} [DecidableEq θ]

-- Where the loop's own thread is: before `loop`, blocked in `::poll`, in the handlers of the active
-- channels (with or without `weakupCallback` to come), or in `doTheTasks`, where `begin` is behind
-- the store to the flag and `run` is behind the swap, inside of a task or between two of them.
inductive Stage
  | start
  | poll
  | handle (weakup : Bool)
  | begin
  | run (inTask : Bool)
  deriving DecidableEq

inductive Call
  | idle
  | pushed
  | waking
  deriving DecidableEq

structure State (θ τ : Type) where
  loop  : EventLoop θ τ
  stage : Stage
  call  : θ → Call

def State.new (own : θ) : State θ τ where
  loop  := .new own
  stage := .start
  call  := fun _ => .idle

inductive Act (θ τ : Type)
  | push (thread : θ) (task : τ)
  | test (thread : θ)
  | write (thread : θ)
  | enter
  | ready (other : Bool)
  | weakup
  | begin
  | swap
  | task
  | endTask
  | finish

namespace State

def setCall (s : State θ τ) (thread : θ) (call : Call) : State θ τ :=
  { s with call := Function.update s.call thread call }

-- The code that runs on the loop's own thread at a stage may queue tasks: the code before the call
-- of `loop`, a handler, and a task.
def callable (s : State θ τ) : Bool :=
  match s.stage with
  | .start | .handle _ | .run true => true
  | _ => false

def loopStep (own : θ) (s : State θ τ) : Act θ τ → Option (State θ τ)
  | .enter =>
    match s.stage with
    | .start => some { s with stage := .poll, loop.threadId := own }
    | _      => none
  | .ready other =>
    -- The wait is without a limit, so that it ends only if a descriptor is readable.
    match s.stage with
    | .poll =>
      if other ∨ 0 < s.loop.weakupFd then
        some { s with stage := .handle (0 < s.loop.weakupFd) }
      else
        none
    | _ => none
  | .weakup =>
    match s.stage with
    | .handle true => some { s with stage := .handle false, loop.weakupFd := 0 }
    | _            => none
  | .begin =>
    match s.stage with
    | .handle false => some { s with stage := .begin, loop.doingTheTasks := true }
    | _             => none
  | .swap =>
    match s.stage with
    | .begin => some { s with stage := .run false, loop.queue := s.loop.queue.swap }
    | _      => none
  | .task =>
    match s.stage, s.loop.queue.tmpVec with
    | .run false, _ :: tasks =>
      some { s with stage := .run true, loop.queue.tmpVec := tasks }
    | _, _ => none
  | .endTask =>
    match s.stage with
    | .run true => some { s with stage := .run false }
    | _         => none
  | .finish =>
    match s.stage, s.loop.queue.tmpVec with
    | .run false, [] => some { s with stage := .poll, loop.doingTheTasks := false }
    | _, _           => none
  | _ => none

def step (own : θ) (s : State θ τ) : Act θ τ → Option (State θ τ)
  | .push thread task =>
    if s.call thread = .idle ∧ (thread = own → s.callable) then
      some ({ s with loop.queue := s.loop.queue.push task }.setCall thread .pushed)
    else
      none
  | .test thread =>
    if s.call thread = .pushed then
      some (s.setCall thread (if s.loop.wakes thread then .waking else .idle))
    else
      none
  | .write thread =>
    if s.call thread = .waking then
      some ({ s with loop.weakupFd := s.loop.weakupFd + 1 }.setCall thread .idle)
    else
      none
  | act => if s.call own = .idle then s.loopStep own act else none

structure Stranded (s : State θ τ) : Prop where
  stage    : s.stage = .poll
  weakupFd : s.loop.weakupFd = 0
  idle     : ∀ thread, s.call thread = .idle
  tasks    : s.loop.queue.taskVec ≠ []

end State
end Bounce.WakeUp
