import Bounce.Library.Steps
import Bounce.Objects.TcpServer.Basic

namespace Bounce

variable {ι θ : Type} [DecidableEq ι] [DecidableEq θ]

namespace Accepting

-- A server takes a connection from `accept4`, or from a connector that has queued it, and the loops
-- run the tasks that they have been given. The calls on channels are the ones that handlers, the
-- calls of the user and `destroyConnection` make.
inductive Act (ι θ : Type)
  | accept (fd : Int)
  | newConnection (fd : Int)
  | swap (loop : θ)
  | connectComplete (loop : θ)
  | call (loop : θ) (call : PollPoller.Call (ι ⊕ Nat))
  | remove (fd : Int)

end Accepting

open Accepting

namespace TcpServer

def Owns (s : TcpServer ι θ) (loop : θ) : ι ⊕ Nat → Prop
  | .inl _ => True
  | .inr c => c < s.created ∧ s.loop c = loop

instance {s : TcpServer ι θ} {loop : θ} : ∀ c, Decidable (s.Owns loop c)
  | .inl _ => .isTrue trivial
  | .inr _ => inferInstanceAs (Decidable (_ ∧ _))

-- Nothing follows a step that ends in undefined behavior.
def step (base : θ) (s : TcpServer ι θ) : Act ι θ → Option (TcpServer ι θ)
  | .accept fd        => if fd = -1 ∨ 0 ≤ fd then s.handleAccept base fd else none
  | .newConnection fd => if 0 ≤ fd then s.newConnection base fd else none
  | .swap loop =>
    if (s.queue loop).tmpVec = [] then
      some { s with queue := Function.update s.queue loop (s.queue loop).swap }
    else
      none
  | .connectComplete loop =>
    match (s.queue loop).tmpVec with
    | []      => none
    | c :: cs => connectComplete
      { s with queue := Function.update s.queue loop { s.queue loop with tmpVec := cs } } c
  | .call loop call =>
    if s.Owns loop call.channel then
      match call.exec (s.poller loop) with
      | .ok p    => some { s with poller := Function.update s.poller loop p }
      | .error _ => none
    else
      none
  | .remove fd => some (s.removeConnectionInLoop fd)

end TcpServer
end Bounce
