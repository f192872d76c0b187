import Bounce.Library.Steps
import Bounce.Objects.EventLoop.Basic
import Bounce.Objects.TcpConnection.Basic

namespace Bounce

inductive Callback
  | connect
  | message
  | error
  deriving DecidableEq

namespace Connection

abbrev Message := List Byte

-- The functors that are queued for a connection. The thread that has called `send` or `shutdown` is
-- kept with its task.
inductive Task (θ : Type)
  | connectComplete
  | sendInLoop (message : Message) (origin : θ)
  | shutdownInLoop (origin : θ)
  | forceCloseInLoop
  | writeComplete
  | removeConnectionInLoop
  | destroyConnection
  deriving DecidableEq

-- What a thread has still to do for a connection, cut where it accesses `state_` or a task queue. A
-- callback is `guarded` if it is tested before its call, and leaves code of the user to be run.
inductive Code (θ : Type)
  | task (task : Task θ)
  | queue (task : Task θ)
  | store (state : ConnectState)
  | handleClose (forced : Bool)
  | handleError
  | handleRead
  | handleWrite
  | checkState
  | callback (cb : Callback) (guarded : Bool)
  | closeCb
  | removeChannel
  | user
  | badFunctionCall
  deriving DecidableEq

inductive Answer
  | none
  | sent (r : Sent)
  | read (r : Readv)

-- What the user may call on a connection, where `retrieve` is on its input buffer.
inductive Api
  | send (message : Message)
  | shutdown
  | forceClose
  | retrieve (len : Nat)

inductive Event
  | callback (cb : Callback) (state : ConnectState)
  | handleClose
  | closeCb
  deriving DecidableEq

structure Run (θ : Type) where
  origin  : θ
  message : Message
  fate    : TcpConnection.Fate
  deriving DecidableEq

end Connection

open Connection

def Callbacks.has (cfg : Callbacks) : Callback → Bool
  | .connect => cfg.connect
  | .message => cfg.message
  | .error   => cfg.error

-- A connection with its history: the events of its user, the messages that `send` has accepted, and
-- the runs of `sendInLoop`.
structure Connection (θ : Type) extends TcpConnection where
  trace    : List Event
  accepted : List (θ × Message)
  ran      : List (Run θ)
  deriving DecidableEq

namespace Connection

variable {θ : Type}

def new (initSize : Nat) (fd : Int) : Connection θ where
  toTcpConnection := .new initSize fd
  trace    := []
  accepted := []
  ran      := []

def log (c : Connection θ) (e : Event) : Connection θ :=
  { c with trace := c.trace ++ [e] }

-- The user has got hold of the connection, in the first call of the connect callback.
def known (c : Connection θ) : Prop :=
  c.trace ≠ []

variable [DecidableEq θ]

def doTaskInThread (loop t : θ) (task : Task θ) : Code θ :=
  if t = loop then .task task else .queue task

-- The first access of a call to the state, where `own` is the thread of `loop_`.
def call (own t : θ) (c : Connection θ) : Api → Connection θ × List (Code θ)
  | .send message =>
    if c.state = .connected then
      ({ c with accepted := c.accepted ++ [(t, message)] },
        [doTaskInThread own t (.sendInLoop message t)])
    else
      (c, [])
  | .shutdown =>
    if c.state ≠ .disconnected then
      (c, [.store .disconnecting, doTaskInThread own t (.shutdownInLoop t)])
    else
      (c, [])
  | .forceClose =>
    if c.state ≠ .disconnected then
      (c, [.store .disconnecting, doTaskInThread own t .forceCloseInLoop])
    else
      (c, [])
  | .retrieve len => ({ c with inputBuffer := c.inputBuffer.retrieve len }, [])

-- `handleChannel`, with the channel's callbacks in place of their calls.
def handleChannel (revents : Events) : List (Code θ) :=
  let close := (revents &&& Events.POLLHUP).any && !(revents &&& Events.POLLIN).any
  let error := (revents &&& (Events.POLLERR ||| Events.POLLNVAL)).any
  let read  := (revents &&& (Events.POLLIN ||| Events.POLLPRI ||| Events.POLLRDHUP)).any
  let write := (revents &&& Events.POLLOUT).any
  (if close then [.handleClose false] else []) ++ (if error then [.handleError] else []) ++
    (if read then [.handleRead] else []) ++ (if write then [.handleWrite] else [])

def runTask (cfg : Callbacks) (c : Connection θ) :
    Task θ → Answer → Option (Connection θ × List (Code θ))
  | .connectComplete, .none =>
    some ({ c with toTcpConnection := c.connectComplete }, [.callback .connect false])
  | .sendInLoop message origin, .sent r =>
    if r.ret ≤ message.length then
      let (c', fate) := c.sendInLoop message r
      some ({ c with toTcpConnection := c', ran := c.ran ++ [⟨origin, message, fate⟩] },
        if fate = .finished ∧ cfg.writeComplete then [.queue .writeComplete] else [])
    else
      none
  | .shutdownInLoop _, .none => some ({ c with toTcpConnection := c.shutdownInLoop }, [])
  | .forceCloseInLoop, .none =>
    some (c, if c.state ≠ .disconnected then [.handleClose true] else [])
  | .writeComplete, .none => some (c, [.user])
  | .destroyConnection, .none =>
    if c.state = .connected then
      some (c, [.store .disconnected, .callback .connect true, .removeChannel])
    else
      some (c, [.removeChannel])
  | _, _ => none

-- A code of the connection on thread `t`, where `base` is the thread of the server's loop. The
-- codes it leaves are done before the ones that follow it.
def run (cfg : Callbacks) (base t : θ) (c : Connection θ) :
    Code θ → Answer → Option (Connection θ × List (Code θ))
  | .task task, answer => c.runTask cfg task answer
  | .store state, .none => some ({ c with state := state }, [])
  | .handleClose _, .none =>
    some ({ c with toTcpConnection := c.handleClose }.log .handleClose,
      [.callback .connect true, .closeCb])
  | .handleError, .none => some (c, [.callback .error true])
  | .handleRead, .read r =>
    some ({ c with toTcpConnection := c.handleRead r },
      if 0 < r.ret then [.callback .message true]
      else if r.ret = 0 then [.handleClose false]
      else [])
  | .handleWrite, .sent r =>
    if r.ret ≤ c.outputBuffer.readableBytes then
      let (c', finished) := c.handleWrite r
      some ({ c with toTcpConnection := c' },
        if finished then
          (if cfg.writeComplete then [.queue .writeComplete] else []) ++ [.checkState]
        else
          [])
    else
      none
  | .checkState, .none =>
    if c.state = .disconnecting then
      some ({ c with toTcpConnection := c.shutdownInLoop }, [])
    else
      some (c, [])
  | .callback cb guarded, .none =>
    if cfg.has cb then
      some (c.log (.callback cb c.state), [.user])
    else
      some (c, if guarded then [] else [.badFunctionCall])
  | .closeCb, .none => some (c.log .closeCb, [doTaskInThread base t .removeConnectionInLoop])
  | .removeChannel, .none => some ({ c with channel := c.channel.remove }, [])
  | .user, .none => some (c, [])
  | _, _ => none

end Connection
end Bounce
