import Bounce.Objects.Buffer.Basic

namespace Bounce

abbrev Family := BitVec 16

def AF_INET  : Family := 2
def AF_INET6 : Family := 10

def INADDR_ANY : BitVec 32 := 0

-- `inet_pton` and `inet_ntop` of the C library. The bytes of an address are in network order.
structure Inet where
  pton : Family → String → Option (List Byte)
  ntop : Family → List Byte → String

-- The union of `sockaddr_in` and `sockaddr_in6`, as the bytes of the larger one.
structure SockAddress where
  bytes   : List Byte
  size_eq : bytes.length = 28

-- The order of the bytes of a number is the host's one in memory, and is turned around by `htons`.
def htons (n : BitVec 16) : BitVec 16 :=
  BitVec.ofNat 16 (n.toNat % 256 * 256 + n.toNat / 256)

def ntohs (n : BitVec 16) : BitVec 16 :=
  htons n

namespace SockAddress

def sinFamily    : Nat := 0
def sinAddr      : Nat := 4
def sin6Family   : Nat := 0
def sin6Port     : Nat := 2
def sin6Flowinfo : Nat := 4
def sin6Addr     : Nat := 8
def sin6ScopeId  : Nat := 24

def zero : SockAddress where
  bytes   := List.replicate 28 0
  size_eq := List.length_replicate

def write (s : SockAddress) (offset : Nat) (src : List Byte) : SockAddress where
  bytes   := s.bytes.overwrite offset src
  size_eq := by rw [List.length_overwrite, s.size_eq]

def read (s : SockAddress) (offset size : Nat) : List Byte :=
  (s.bytes.drop offset).take size

def store (s : SockAddress) (offset size : Nat) (n : BitVec (8 * size)) : SockAddress :=
  s.write offset (Buffer.bytesOf size n.toNat)

def load (s : SockAddress) (offset size : Nat) : BitVec (8 * size) :=
  Buffer.load size (s.bytes.drop offset)

-- The constructor from a text. A text that is no address is not reported.
def ofText (inet : Inet) (ip : String) (port : BitVec 16) (ipv6 : Bool) : SockAddress :=
  let s := zero.store sin6Port 2 (htons port)
  let s := if ipv6 then s.store sin6Family 2 AF_INET6 else s.store sinFamily 2 AF_INET
  if ip ≠ "" then
    match inet.pton (s.load sinFamily 2) ip with
    | some address => s.write sinAddr address
    | none         => s
  else
    s.store sinFamily 2 (INADDR_ANY.setWidth 16)

def family (s : SockAddress) : Family :=
  s.load sin6Family 2

def port (s : SockAddress) : BitVec 16 :=
  ntohs (s.load sin6Port 2)

def flowinfo (s : SockAddress) : BitVec 32 :=
  s.load sin6Flowinfo 4

def scopeId (s : SockAddress) : BitVec 32 :=
  s.load sin6ScopeId 4

def ip (inet : Inet) (s : SockAddress) : String :=
  if s.load sin6Family 2 = AF_INET then
    inet.ntop AF_INET (s.read sinAddr 4)
  else if s.load sin6Family 2 = AF_INET6 then
    inet.ntop AF_INET6 (s.read sin6Addr 16)
  else
    ""

end SockAddress
end Bounce
