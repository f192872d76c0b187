import Bounce.Objects.Buffer.Basic
import Bounce.Objects.PollPoller.Watch

namespace Bounce

inductive ConnectState
  | connecting
  | connected
  | disconnecting
  | disconnected
  deriving DecidableEq

inductive Errno
  | EWOULDBLOCK
  | EPIPE
  | ECONNRESET
  | other
  deriving DecidableEq

structure Sent where
  ret   : Int
  errno : Errno
  deriving DecidableEq

-- The bytes that `::send` has taken, and whether `shutdownWrite` has been called.
structure Socket where
  fd      : Int
  wire    : List Byte
  shutWr  : Bool
  deriving DecidableEq

structure Callbacks where
  connect       : Bool
  message       : Bool
  writeComplete : Bool
  error         : Bool
  deriving DecidableEq

structure TcpConnection where
  state        : ConnectState
  socket       : Socket
  channel      : Watch
  inputBuffer  : Buffer
  outputBuffer : Buffer
  deriving DecidableEq

namespace Socket

def new (fd : Int) : Socket where
  fd     := fd
  wire   := []
  shutWr := false

def send (s : Socket) (bytes : List Byte) (r : Sent) : Socket :=
  { s with wire := s.wire ++ bytes.take r.ret.toNat }

def shutdownWrite (s : Socket) : Socket :=
  { s with shutWr := true }

end Socket

namespace TcpConnection

def new (initSize : Nat) (fd : Int) : TcpConnection where
  state        := .connecting
  socket       := .new fd
  channel      := .new fd
  inputBuffer  := .new initSize
  outputBuffer := .new initSize

-- The first two lines of `connectComplete`.
def connectComplete (c : TcpConnection) : TcpConnection :=
  { c with state := .connected, channel := c.channel.enableReading }

-- The end of `sendInLoop`, for the bytes that have not been sent.
def keep (c : TcpConnection) (bytes : List Byte) : TcpConnection :=
  if 0 < bytes.length then
    { c with
      outputBuffer := c.outputBuffer.append bytes
      channel      := if ¬c.channel.isWriting then c.channel.enableWriting else c.channel }
  else
    c

inductive Fate
  | dropped
  | finished
  | kept
  deriving DecidableEq

def sendInLoop (c : TcpConnection) (message : List Byte) (r : Sent) : TcpConnection × Fate :=
  if c.state = .disconnected then
    (c, .dropped)
  else if ¬c.channel.isWriting ∧ c.outputBuffer.readableBytes = 0 then
    let c := { c with socket := c.socket.send message r }
    if r.ret = message.length then
      (c, .finished)
    else if 0 < r.ret then
      (c.keep (message.drop r.ret.toNat), .kept)
    else if r.errno = .EPIPE ∨ r.errno = .ECONNRESET then
      (c, .dropped)
    else
      (c.keep message, .kept)
  else
    (c.keep message, .kept)

def shutdownInLoop (c : TcpConnection) : TcpConnection :=
  if ¬c.channel.isWriting then { c with socket := c.socket.shutdownWrite } else c

def handleRead (c : TcpConnection) (r : Readv) : TcpConnection :=
  { c with inputBuffer := c.inputBuffer.readFd r }

-- Up to the check of the state, with `true` if the output buffer has been emptied.
def handleWrite (c : TcpConnection) (r : Sent) : TcpConnection × Bool :=
  if c.channel.isWriting ∧ 0 < r.ret then
    let c := { c with
      socket       := c.socket.send (c.outputBuffer.peek.take c.outputBuffer.readableBytes) r
      outputBuffer := c.outputBuffer.retrieve r.ret.toNat }
    if c.outputBuffer.readableBytes = 0 then
      ({ c with channel := c.channel.disableWriting }, true)
    else
      (c, false)
  else
    (c, false)

-- The first two lines of `handleClose`.
def handleClose (c : TcpConnection) : TcpConnection :=
  { c with state := .disconnected, channel := c.channel.disableAll }

end TcpConnection
end Bounce
