import Mathlib.Data.List.Basic

namespace Bounce

-- A `std::function` is empty, or it is a function of the user, or it has been bound to another one,
-- which it calls.
inductive StdFunction
  | empty
  | user
  | bind (f : StdFunction)
  deriving DecidableEq

namespace StdFunction

def isSet : StdFunction → Bool
  | empty => false
  | _     => true

def bad : StdFunction → Bool
  | empty  => true
  | user   => false
  | bind f => f.bad

end StdFunction

namespace LoopThreadPool

def threadLoop (threadCb : StdFunction) : List StdFunction :=
  if threadCb.isSet then [threadCb] else []

def start (threadNum : Nat) (threadCb : StdFunction) : List StdFunction :=
  (List.range threadNum).flatMap fun _ => threadLoop threadCb

end LoopThreadPool

namespace TcpServer

def start (threadNum : Nat) (threadInitCb : StdFunction) : List StdFunction :=
  LoopThreadPool.start threadNum (if threadInitCb.isSet then .bind threadInitCb else .empty)

theorem start_not_bad {threadInitCb f : StdFunction} {threadNum : Nat}
    (h : threadInitCb.isSet → ¬threadInitCb.bad) (hf : f ∈ start threadNum threadInitCb) :
    ¬f.bad := by
  simp only [start, LoopThreadPool.start, List.mem_flatMap] at hf
  have ⟨_, _, hf⟩ := hf
  by_cases hs : threadInitCb.isSet
  case pos =>
    rw [if_pos hs] at hf
    obtain rfl := List.mem_singleton.mp hf
    exact h hs
  case neg =>
    rw [if_neg hs] at hf
    contradiction

end TcpServer
end Bounce
