import Bounce.Objects.EventLoop.Basic
import Bounce.Objects.PollPoller.Watch

namespace Bounce

structure LoopThreadPool (θ : Type) where
  loops         : List θ
  nextLoopIndex : Nat

namespace LoopThreadPool

variable {θ : Type}

-- The source reads the loop without a test on the index.
def getLoopForNewConnection (p : LoopThreadPool θ) : Option θ × LoopThreadPool θ :=
  let idx := if p.nextLoopIndex ≥ p.loops.length then 0 else p.nextLoopIndex
  (p.loops[idx]?, { p with nextLoopIndex := idx + 1 })

end LoopThreadPool

-- A server with the pollers of its loops. Connections are numbered as they are created, and a loop
-- has channels of its own, `ι`, and the ones of its connections.
structure TcpServer (ι θ : Type) where
  threadPool    : LoopThreadPool θ
  connectionMap : Std.TreeMap Int Nat
  created       : Nat
  loop          : Nat → θ
  poller        : θ → PollPoller (ι ⊕ Nat)
  -- The connections whose `connectComplete` has been queued, by their loops, and the ones whose
  -- connect callback has been called.
  queue         : θ → TaskQueue Nat
  connected     : List Nat

namespace TcpServer

variable {ι θ : Type} [DecidableEq ι] [DecidableEq θ]

-- `enableReading` of the connection's channel, and the connect callback. There is no result if the
-- update of the poller ends in undefined behavior.
def connectComplete (s : TcpServer ι θ) (c : Nat) : Option (TcpServer ι θ) :=
  match PollPoller.Call.exec (s.poller (s.loop c)) (.enableReading (.inr c)) with
  | .ok p    => some { s with
      poller    := Function.update s.poller (s.loop c) p
      connected := s.connected ++ [c] }
  | .error _ => none

def connLoop (s : TcpServer ι θ) (base : θ) : θ × LoopThreadPool θ :=
  if s.threadPool.loops.length = 0 then
    (base, s.threadPool)
  else
    let (loop, pool) := s.threadPool.getLoopForNewConnection
    (loop.getD base, pool)

-- The part of `newConnection` in front of the call of `doTaskInThread`.
def insert (s : TcpServer ι θ) (base : θ) (fd : Int) : TcpServer ι θ :=
  let (loop, pool) := s.connLoop base
  { s with
    threadPool    := pool
    connectionMap := s.connectionMap.insertIfNew fd s.created
    created       := s.created + 1
    loop          := Function.update s.loop s.created loop
    poller        := Function.update s.poller loop
      ((s.poller loop).set (.inr s.created) (.new fd)) }

def newConnection (s : TcpServer ι θ) (base : θ) (fd : Int) : Option (TcpServer ι θ) :=
  let loop := (s.connLoop base).1
  let c := s.created
  let s := s.insert base fd
  if loop = base then
    s.connectComplete c
  else
    some { s with queue := Function.update s.queue loop ((s.queue loop).push c) }

-- The answer of `accept4` is passed on as it is.
def handleAccept (s : TcpServer ι θ) (base : θ) (fd : Int) : Option (TcpServer ι θ) :=
  s.newConnection base fd

-- The part of `removeConnectionInLoop` that changes the map.
def removeConnectionInLoop (s : TcpServer ι θ) (fd : Int) : TcpServer ι θ :=
  { s with connectionMap := s.connectionMap.erase fd }

end TcpServer
end Bounce
