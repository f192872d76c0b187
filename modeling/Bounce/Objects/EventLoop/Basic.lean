import Mathlib.Logic.Function.Basic

namespace Bounce

-- The tasks of an event loop: `task_vec_`, and the rest of the batch that `doTheTasks` has taken
-- from it. Each operation is one step, as `mutex_` is held for it or only the loop sees the batch.
structure TaskQueue (τ : Type) where
  taskVec : List τ
  tmpVec  : List τ
  deriving DecidableEq

namespace TaskQueue

variable {τ : Type}

def empty : TaskQueue τ :=
  ⟨[], []⟩

def push (q : TaskQueue τ) (task : τ) : TaskQueue τ :=
  { q with taskVec := q.taskVec ++ [task] }

def swap (q : TaskQueue τ) : TaskQueue τ :=
  ⟨[], q.taskVec⟩

def pending (q : TaskQueue τ) : List τ :=
  q.tmpVec ++ q.taskVec

theorem push_pending (q : TaskQueue τ) (task : τ) :
    (q.push task).pending = q.pending ++ [task] := by
  simp [pending, push]

theorem swap_pending {q : TaskQueue τ} (h : q.tmpVec = []) : q.swap.pending = q.pending := by
  simp [pending, swap, h]

end TaskQueue

-- The part of an event loop that decides about wake-ups, with the counter behind `weakup_fd_`.
structure EventLoop (θ τ : Type) where
  threadId      : θ
  doingTheTasks : Bool
  queue         : TaskQueue τ
  weakupFd      : Nat

namespace EventLoop

variable {θ τ : Type}

def new (thread : θ) : EventLoop θ τ where
  threadId      := thread
  doingTheTasks := false
  queue         := .empty
  weakupFd      := 0

def wakes [DecidableEq θ] (l : EventLoop θ τ) (thread : θ) : Bool :=
  thread ≠ l.threadId && !l.doingTheTasks

end EventLoop
end Bounce
