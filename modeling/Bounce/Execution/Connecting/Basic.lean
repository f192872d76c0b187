import Bounce.Library.Steps
import Bounce.Objects.Connector.Basic

namespace Bounce.Connecting

variable {α : Type}

-- A connector with the tasks that other threads have queued for it, by their addresses.
structure State (α : Type) where
  connector : Connector α
  started   : Bool
  tasks     : List α

inductive Act (α : Type)
  | connect (addr : α) (o : Opened)
  | post (addr : α)
  | task (o : Opened)
  | ready (fd : Int) (revents : Events) (r : SockError)

-- What the system may answer: `::connect` fails without a descriptor, and no descriptor of a
-- pending attempt is given out again, as it is open.
def Possible (c : Connector α) (o : Opened) : Prop :=
  (o.fd < 0 → o.connected.isFailed) ∧ (0 ≤ o.fd → ∀ a ∈ c.connMap, a.fd ≠ o.fd)

instance {c : Connector α} {o : Opened} : Decidable (Possible c o) :=
  inferInstanceAs (Decidable (_ ∧ _))

namespace State

def new (errorCb : Bool) : State α where
  connector := .new errorCb
  started   := true
  tasks     := []

def step (s : State α) : Act α → Option (State α)
  | .connect addr o =>
    if s.started then
      if Possible s.connector o then some { s with connector := s.connector.connectInLoop addr o }
        else none
    else
      some s
  | .post addr => some (if s.started then { s with tasks := s.tasks ++ [addr] } else s)
  | .task o =>
    match s.tasks with
    | []            => none
    | addr :: tasks =>
      if Possible s.connector o then
        some { s with connector := s.connector.connectInLoop addr o, tasks := tasks }
      else
        none
  | .ready fd revents r =>
    (s.connector.connMap.find? (·.fd = fd)).map fun a =>
      { s with connector := s.connector.handleChannel a revents r }

end State

end Bounce.Connecting
