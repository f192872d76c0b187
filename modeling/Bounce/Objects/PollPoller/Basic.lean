import Bounce.Objects.Channel
import Std.Data.TreeMap

namespace Bounce

-- The tables of a poller, with the channels of its loop. The type `χ` stands for the pointers to
-- channels, so that a null pointer in `channels` is `none`.
structure PollPoller (χ : Type) where
  channel  : χ → Channel
  channels : Std.TreeMap Int (Option χ)
  pollfds  : Array PollFd

namespace PollPoller

variable {χ : Type} [DecidableEq χ]

def new (fd : χ → Int) : PollPoller χ where
  channel c := .new (fd c)
  channels  := ∅
  pollfds   := #[]

-- The entry of a channel that is in the tables already. A channel without events is hidden from
-- `::poll` by a negative descriptor.
def entry (c : Channel) : PollFd where
  fd      := if c.isNoneEvent then -c.fd - 1 else c.fd
  events  := c.events
  revents := 0

def newEntry (c : Channel) : PollFd where
  fd      := c.fd
  events  := c.events
  revents := 0

-- A call ends with the new tables, or in undefined behavior: in an access behind the end of
-- `pollfds` or through a null pointer. Then the result is the tables at that point.
abbrev Outcome (χ : Type) := Except (PollPoller χ) (PollPoller χ)

def set (p : PollPoller χ) (c : χ) (channel : Channel) : PollPoller χ :=
  { p with channel := Function.update p.channel c channel }

def updateChannel (p : PollPoller χ) (c : χ) : Outcome χ :=
  let channel := p.channel c
  if channel.fd ∈ p.channels then
    if _ : channel.index < p.pollfds.size then
      .ok { p with pollfds := p.pollfds.set channel.index (entry channel) }
    else
      .error p
  else
    .ok { p with
      channels := p.channels.insert channel.fd c
      pollfds  := p.pollfds.push (newEntry channel)
      channel  := Function.update p.channel c (channel.setIndex p.pollfds.size) }

-- The lookup of the last entry's channel is by `operator[]`, which puts a null pointer where it
-- finds no channel.
def removeChannel (p : PollPoller χ) (c : χ) : Outcome χ :=
  let channel := p.channel c
  if channel.fd ∈ p.channels then
    let p := { p with channels := p.channels.erase channel.fd }
    let idx := channel.index
    let last := p.pollfds.size - 1
    if idx ≠ last then
      match p.pollfds[idx]?, p.pollfds[last]? with
      | some _, some e =>
        match p.channels[e.fd]? with
        | some (some l) =>
          .ok { p with
            channel := Function.update p.channel l ((p.channel l).setIndex idx)
            pollfds := (p.pollfds.swapIfInBounds idx last).pop }
        | some none => .error p
        | none      => .error { p with channels := p.channels.insert e.fd none }
      | _, _ => .error p
    else
      .ok { p with pollfds := p.pollfds.pop }
  else
    .ok p

inductive Call (χ : Type)
  | enableReading (c : χ)
  | disableReading (c : χ)
  | enableWriting (c : χ)
  | disableWriting (c : χ)
  | disableAll (c : χ)
  | remove (c : χ)

namespace Call

def exec (p : PollPoller χ) : Call χ → Outcome χ
  | enableReading c  => (p.set c (p.channel c).enableReading).updateChannel c
  | disableReading c => (p.set c (p.channel c).disableReading).updateChannel c
  | enableWriting c  => (p.set c (p.channel c).enableWriting).updateChannel c
  | disableWriting c => (p.set c (p.channel c).disableWriting).updateChannel c
  | disableAll c     => (p.set c (p.channel c).disableAll).updateChannel c
  | remove c         => p.removeChannel c

end Call
end PollPoller
end Bounce
