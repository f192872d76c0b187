import Bounce.Execution.Distribution
import Bounce.Objects.TcpServer.Start

namespace Bounce.Starting

-- Where the thread is that calls `start`: in front of the head of the loop, at the head, and on the
-- way through the body, where `waiting` is in `condition_.wait`, without the mutex.
inductive Main
  | entry
  | head
  | lock
  | test
  | waiting
  | woken
  | push
  | reset
  | unlock
  | done
  deriving DecidableEq

inductive Worker
  | construct
  | lock
  | push
  | init
  | unlock
  | notify
  | callback
  | loop
  deriving DecidableEq

inductive Thread
  | main
  | worker (k : Nat)
  deriving DecidableEq

-- A pool that is being started, where `i` is the counter of `start`. The threads are numbered as
-- they are run, and `called` are the loops that `thread_cb_` has been called with.
structure State (θ : Type) where
  pool       : Distribution.LoopThreadPool θ
  main       : Main
  i          : Nat
  workers    : List Worker
  mutex      : Option Thread
  loopInited : Bool
  threads    : List Nat
  called     : List θ

-- `spurious` is a return of the wait without a notification.
inductive Act
  | main
  | worker (k : Nat)
  | spurious
  deriving DecidableEq

namespace State

variable {θ : Type}

def new (threadNum : UInt32) : State θ where
  pool       := .new threadNum
  main       := .entry
  i          := 0
  workers    := []
  mutex      := none
  loopInited := false
  threads    := []
  called     := []

def goto (s : State θ) (m : Main) : State θ :=
  { s with main := m }

def setWorker (s : State θ) (k : Nat) (w : Worker) : State θ :=
  { s with workers := s.workers.set k w }

-- `std::mutex` blocks a thread until the mutex is free.
def acquire (s : State θ) (t : Thread) : Option (State θ) :=
  if s.mutex = none then some { s with mutex := some t } else none

def release (s : State θ) : State θ :=
  { s with mutex := none }

-- `notify_one`, where only the main thread ever waits.
def notify (s : State θ) : State θ :=
  if s.main = .waiting then s.goto .woken else s

-- The wait gives the mutex back in the step in which it blocks.
def stepMain (s : State θ) : Option (State θ) :=
  match s.main with
  | .entry   => some { s with pool := { s.pool with started := true }, main := .head }
  | .head    =>
    if s.i < s.pool.threadNum.toNat then
      some { s with workers := s.workers ++ [.construct], main := .lock }
    else
      some (s.goto .done)
  | .lock    => (s.acquire .main).map (goto · .test)
  | .test    => some (if s.loopInited then s.goto .push else s.release.goto .waiting)
  | .waiting => none
  | .woken   => (s.acquire .main).map (goto · .test)
  | .push    => some { s with threads := s.threads ++ [s.i], main := .reset }
  | .reset   => some { s with loopInited := false, main := .unlock }
  | .unlock  => some { s.release with i := s.i + 1, main := .head }
  | .done    => none

def stepWorker (threadCb : StdFunction) (loop : Nat → θ) (s : State θ) (k : Nat) :
    Option (State θ) :=
  match s.workers[k]? with
  | some .construct => some (s.setWorker k .lock)
  | some .lock      => (s.acquire (.worker k)).map (setWorker · k .push)
  | some .push      =>
    some (State.setWorker
      { s with pool := { s.pool with loops := s.pool.loops ++ [loop k] } } k .init)
  | some .init      => some (State.setWorker { s with loopInited := true } k .unlock)
  | some .unlock    => some (s.release.setWorker k .notify)
  | some .notify    => some (s.notify.setWorker k .callback)
  | some .callback  =>
    some (State.setWorker
      { s with called := if threadCb.isSet then s.called ++ [loop k] else s.called } k .loop)
  | some .loop      => none
  | none            => none

def step (threadCb : StdFunction) (loop : Nat → θ) (s : State θ) : Act → Option (State θ)
  | .main     => s.stepMain
  | .worker k => s.stepWorker threadCb loop k
  | .spurious => if s.main = .waiting then some (s.goto .woken) else none

end State
end Bounce.Starting
