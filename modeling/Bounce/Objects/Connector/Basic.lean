import Bounce.Objects.PollPoller.Watch

namespace Bounce

-- The answer of `::connect`: an errno if it fails, where `EINPROGRESS` is a case of its own.
inductive Connected
  | success
  | inProgress
  | failed (errno : Int)
  deriving DecidableEq

inductive SockError
  | failed
  | error (error : Int)
  deriving DecidableEq

-- The answers in one run of `connectInLoop`: the descriptor from `::socket`, or -1, the answer of
-- `::connect` on it, and the one of `getsockopt` if this is called.
structure Opened where
  fd        : Int
  connected : Connected
  sockError : SockError
  deriving DecidableEq

namespace Connected

def isFailed : Connected → Bool
  | failed _ => true
  | _        => false

end Connected

namespace SockError

def value : SockError → Int
  | failed  => 0
  | error e => e

end SockError

-- What is bound to the write callback of a channel. The numbers tell attempts apart that have been
-- given the same descriptor, and are not in the source.
structure Attempt (α : Type) where
  number : Nat
  fd     : Int
  addr   : α
  deriving DecidableEq

-- The `addr` of `handleWrite` is a reference: to the argument of `connectInLoop`, or to the copy
-- that is bound to the write callback of a channel.
inductive Ref (α : Type)
  | argument (addr : α)
  | bound (number : Nat)

-- The connector with its history: the attempts that it has made, the ones that it has handed to
-- `setNewConnection`, the ones whose descriptor it has closed, and the calls of its error callback.
-- An address that has been read is `none` if its memory had been freed. The channels are the ones
-- that `connectInLoop` has created, by the number of their attempt.
structure Connector (α : Type) where
  errorCb  : Bool
  connMap  : List (Attempt α)
  channel  : Nat → Watch
  attempts : List (Attempt α)
  handed   : List (Attempt α × Option α)
  closed   : List (Attempt α)
  errors   : List (Attempt α × Option α × Int)

namespace Connector

variable {α : Type}

def new (errorCb : Bool) : Connector α where
  errorCb  := errorCb
  connMap  := []
  channel  := fun _ => .new 0
  attempts := []
  handed   := []
  closed   := []
  errors   := []

-- A bound address lives as long as the channel, and only `conn_map_` owns that.
def read (c : Connector α) : Ref α → Option α
  | .argument addr => some addr
  | .bound number  => (c.connMap.find? (·.number = number)).map (·.addr)

def setNewConnection (c : Connector α) (a : Attempt α) (addr : Ref α) : Connector α :=
  { c with handed := c.handed ++ [(a, c.read addr)] }

-- `conn_map_.insert`, and the two calls on the channel behind it.
def insert (c : Connector α) (a : Attempt α) : Connector α :=
  { c with
    connMap := if c.connMap.any (·.fd = a.fd) then c.connMap else c.connMap ++ [a]
    channel := Function.update c.channel a.number (c.channel a.number).enableWriting }

-- `remove` of the channel that has been found, and `conn_map_.erase`, which destroys the channel.
def erase (c : Connector α) (found : Attempt α) : Connector α :=
  { c with
    connMap := c.connMap.eraseP (·.fd = found.fd)
    channel := Function.update c.channel found.number (c.channel found.number).remove }

-- Of the attempt, only the descriptor is an argument. The address is read behind `erase`.
def handleWrite (c : Connector α) (a : Attempt α) (addr : Ref α) (r : SockError) : Connector α :=
  match c.connMap.find? (·.fd = a.fd) with
  | none => c.setNewConnection a addr
  | some found =>
    let c := c.erase found
    if r = .error 0 then
      c.setNewConnection a addr
    else
      { c with
        closed := c.closed ++ [a]
        errors := if c.errorCb then c.errors ++ [(a, c.read addr, r.value)] else c.errors }

def connectInLoop (c : Connector α) (addr : α) (o : Opened) : Connector α :=
  let a : Attempt α := ⟨c.attempts.length, o.fd, addr⟩
  let c := { c with
    attempts := c.attempts ++ [a]
    channel  := Function.update c.channel a.number (.new a.fd) }
  match o.connected with
  | .success    => c.handleWrite a (.argument addr) o.sockError
  | .inProgress => c.insert a
  | .failed _   => c

-- `handleChannel` of a channel with nothing but a write callback, which is bound to this attempt.
def handleChannel (c : Connector α) (a : Attempt α) (revents : Events) (r : SockError) :
    Connector α :=
  if (revents &&& Events.POLLOUT).any then c.handleWrite a (.bound a.number) r else c

end Connector
end Bounce
