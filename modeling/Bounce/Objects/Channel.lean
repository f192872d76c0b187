import Mathlib.Logic.Function.Basic

namespace Bounce

abbrev Events := BitVec 16

namespace Events

def POLLIN    : Events := 0x0001
def POLLPRI   : Events := 0x0002
def POLLOUT   : Events := 0x0004
def POLLERR   : Events := 0x0008
def POLLHUP   : Events := 0x0010
def POLLNVAL  : Events := 0x0020
def POLLRDHUP : Events := 0x2000

def any (e : Events) : Bool :=
  e != 0

end Events

open Events

structure PollFd where
  fd      : Int
  events  : Events
  revents : Events
  deriving DecidableEq

-- A channel has its callbacks in its owner, which is where this development has them, too.
structure Channel where
  fd      : Int
  events  : Events
  revents : Events
  index   : Nat
  deriving DecidableEq

namespace Channel

def kNoneEvent  : Events := 0
def kReadEvent  : Events := POLLIN ||| POLLPRI
def kWriteEvent : Events := POLLOUT

def new (fd : Int) : Channel where
  fd      := fd
  events  := 0
  revents := 0
  index   := 0

def setRevents (c : Channel) (revents : Events) : Channel :=
  { c with revents := revents }

def setIndex (c : Channel) (index : Nat) : Channel :=
  { c with index := index }

-- The calls that change the events, without the `update` at their end.
def enableReading (c : Channel) : Channel :=
  { c with events := c.events ||| kReadEvent }

def disableReading (c : Channel) : Channel :=
  { c with events := c.events &&& ~~~kReadEvent }

def enableWriting (c : Channel) : Channel :=
  { c with events := c.events ||| kWriteEvent }

def disableWriting (c : Channel) : Channel :=
  { c with events := c.events &&& ~~~kWriteEvent }

def disableAll (c : Channel) : Channel :=
  { c with events := kNoneEvent }

def isNoneEvent (c : Channel) : Bool :=
  c.events == kNoneEvent

end Channel
end Bounce
