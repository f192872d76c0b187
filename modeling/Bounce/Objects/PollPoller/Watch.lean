import Bounce.Objects.PollPoller.Basic

namespace Bounce

-- A channel as `::poll` sees it: what a poller is for, without the tables that it is made of.
structure Watch where
  fd     : Int
  events : Events
  slot   : Option PollFd
  deriving DecidableEq

namespace Watch

open Channel (kNoneEvent kReadEvent kWriteEvent)

def new (fd : Int) : Watch where
  fd     := fd
  events := 0
  slot   := none

-- The first update shows the descriptor to `::poll`, a later one hides it if there are no events.
def update (w : Watch) : Watch :=
  let hidden := w.slot.isSome && w.events == kNoneEvent
  { w with
    slot := some { fd := if hidden then -w.fd - 1 else w.fd, events := w.events, revents := 0 } }

def remove (w : Watch) : Watch :=
  { w with slot := none }

def enableReading (w : Watch) : Watch :=
  { w with events := w.events ||| kReadEvent }.update

def disableReading (w : Watch) : Watch :=
  { w with events := w.events &&& ~~~kReadEvent }.update

def enableWriting (w : Watch) : Watch :=
  { w with events := w.events ||| kWriteEvent }.update

def disableWriting (w : Watch) : Watch :=
  { w with events := w.events &&& ~~~kWriteEvent }.update

def disableAll (w : Watch) : Watch :=
  { w with events := kNoneEvent }.update

def isWriting (w : Watch) : Bool :=
  (w.events &&& kWriteEvent).any

def visible (w : Watch) : Bool :=
  w.slot.any (0 ≤ ·.fd)

end Watch

namespace PollPoller

variable {χ : Type} [DecidableEq χ]

def slot (p : PollPoller χ) (c : χ) : Option PollFd :=
  if p.channels[(p.channel c).fd]? = some (some c) then p.pollfds[(p.channel c).index]? else none

def watch (p : PollPoller χ) (c : χ) : Watch where
  fd     := (p.channel c).fd
  events := (p.channel c).events
  slot   := p.slot c

namespace Call

def channel : Call χ → χ
  | enableReading c | disableReading c | enableWriting c | disableWriting c | disableAll c
  | remove c => c

def onWatch : Call χ → Watch → Watch
  | enableReading _  => Watch.enableReading
  | disableReading _ => Watch.disableReading
  | enableWriting _  => Watch.enableWriting
  | disableWriting _ => Watch.disableWriting
  | disableAll _     => Watch.disableAll
  | remove _         => Watch.remove

end Call
end PollPoller
end Bounce
