import Bounce.Objects.SockAddress.RoundTrip

open List

namespace Bounce

open Buffer (bytesOf length_bytesOf load_bytesOf)

def INADDR_LOOPBACK : BitVec 32 := 0x7f000001

def in6addrAny : List Byte :=
  replicate 16 0

def in6addrLoopback : List Byte :=
  replicate 15 0 ++ [1]

def htonl (n : BitVec 32) : BitVec 32 :=
  BitVec.ofNat 32 (Buffer.ofBytes (Buffer.bytesOf 4 n.toNat).reverse)

namespace SockAddress

def ofPort (port : BitVec 16) (loopback ipv6 : Bool) : SockAddress :=
  let s := zero.store sin6Port 2 (htons port)
  if ipv6 then
    (s.store sin6Family 2 AF_INET6).write sin6Addr
      (if loopback then in6addrLoopback else in6addrAny)
  else
    (s.store sinFamily 2 AF_INET).store sinAddr 4
      (htonl (if loopback then INADDR_LOOPBACK else INADDR_ANY))

def setScopeId (s : SockAddress) (scopeId : BitVec 32) : SockAddress :=
  if s.family = AF_INET6 then s.store sin6ScopeId 4 scopeId else s

variable {inet : Inet} {s : SockAddress} {text : String} {f n p : BitVec 16} {body : List Byte}
variable {loopback ipv6 : Bool} {id : BitVec 32}

def hostAddress (loopback ipv6 : Bool) : List Byte :=
  if ipv6 then replicate 15 0 ++ [if loopback then 1 else 0] else if loopback then [127, 0, 0, 1]
    else replicate 4 0

theorem Layout.write (h : s.Layout f n body) (i : Nat) (src : List Byte)
    (hl : i + src.length ≤ body.length) :
    (s.write (4 + i) src).Layout f n (body.take i ++ src ++ body.drop (i + src.length)) := by
  have hb : s.bytes = (bytesOf 2 f.toNat ++ bytesOf 2 n.toNat) ++ body := by rw [h, append_assoc]
  have h4 : (bytesOf 2 f.toNat ++ bytesOf 2 n.toNat).length = 4 := by simp
  have hd := h.drop (i + src.length)
  rw [Layout, SockAddress.write]
  show s.bytes.overwrite (4 + i) src = _
  rw [overwrite_eq (by rw [hb, length_append, h4]; omega), Nat.add_assoc, hd, hb, ← h4,
    take_length_add_append]
  simp only [append_assoc]

theorem ofPort_layout (p : BitVec 16) (loopback ipv6 : Bool) :
    (ofPort p loopback ipv6).Layout (requested ipv6) (htons p)
      (if ipv6 then replicate 4 0 ++ hostAddress loopback true ++ replicate 4 0
        else hostAddress loopback false ++ replicate 20 0) := by
  have h₆ : ∀ n : BitVec 16, ((zero.store sin6Port 2 n).store sin6Family 2 AF_INET6).Layout
      AF_INET6 n (replicate 24 0) :=
    fun _ => rfl
  have h₄ : ∀ n : BitVec 16, ((zero.store sin6Port 2 n).store sinFamily 2 AF_INET).Layout
      AF_INET n (replicate 24 0) :=
    fun _ => rfl
  cases ipv6
  case false =>
    have hl := (h₄ (htons p)).write 0 (hostAddress loopback false) (by cases loopback <;> decide)
    cases loopback <;> exact hl
  case true =>
    have hl := (h₆ (htons p)).write 4 (hostAddress loopback true) (by cases loopback <;> decide)
    cases loopback <;> exact hl

theorem read_setScopeId (s : SockAddress) (id : BitVec 32) {offset size : Nat}
    (h : offset + size ≤ 24) :
    (s.setScopeId id).read offset size = s.read offset size := by
  have ht : ∀ l : List Byte, (l.drop offset).take size = ((l.take 24).drop offset).take size := by
    intro l
    rw [drop_take, take_take, Nat.min_eq_left (by omega)]
  have hb : (s.setScopeId id).bytes.take 24 = s.bytes.take 24 := by
    rw [setScopeId]
    split
    case isFalse => rfl
    case isTrue  =>
      show (s.bytes.overwrite 24 (bytesOf 4 id.toNat)).take 24 = _
      have hl : (s.bytes.take 24).length = 24 := by rw [length_take, s.size_eq]; rfl
      rw [overwrite_eq (by rw [length_bytesOf, s.size_eq]), append_assoc, take_left' hl]
  rw [read, read, ht, hb, ← ht]

theorem load_setScopeId (s : SockAddress) (id : BitVec 32) {offset size : Nat}
    (h : offset + size ≤ 24) :
    (s.setScopeId id).load offset size = s.load offset size := by
  have hr := s.read_setScopeId id h
  rw [read, read] at hr
  rw [load, load, Buffer.load, Buffer.load, hr]

theorem scopeId_setScopeId (s : SockAddress) (id : BitVec 32) :
    (s.setScopeId id).scopeId = if s.family = AF_INET6 then id else s.scopeId := by
  rw [setScopeId]
  split
  case isFalse => rfl
  case isTrue  =>
    have hl : (s.bytes.take 24).length = 24 := by rw [length_take, s.size_eq]; rfl
    have hd : (s.bytes.overwrite 24 (bytesOf 4 id.toNat)).drop 24 =
        bytesOf 4 id.toNat ++ s.bytes.drop 28 := by
      rw [overwrite_eq (by rw [length_bytesOf, s.size_eq]), append_assoc, drop_left' hl,
        length_bytesOf]
    rw [scopeId, load]
    show Buffer.load 4 ((s.bytes.overwrite 24 (bytesOf 4 id.toNat)).drop 24) = id
    rw [hd]
    exact load_bytesOf (show BitVec (8 * 4) from id) _

structure Scoped (inet : Inet) (s s' : SockAddress) (id : BitVec 32) : Prop where
  family   : s'.family = s.family
  port     : s'.port = s.port
  ip       : s'.ip inet = s.ip inet
  flowinfo : s'.flowinfo = s.flowinfo
  scopeId  : s'.scopeId = if s.family = AF_INET6 then id else s.scopeId

theorem setScopeId_scoped (inet : Inet) (s : SockAddress) (id : BitVec 32) :
    s.Scoped inet (s.setScopeId id) id where
  family   := s.load_setScopeId id (by decide)
  port     := congrArg ntohs (s.load_setScopeId id (by decide))
  flowinfo := s.load_setScopeId id (by decide)
  scopeId  := s.scopeId_setScopeId id
  ip       := by
    have hf : (s.setScopeId id).load sin6Family 2 = _ := s.load_setScopeId id (by decide)
    have h₄ : (s.setScopeId id).read sinAddr 4 = _ := s.read_setScopeId id (by decide)
    have h₆ : (s.setScopeId id).read sin6Addr 16 = _ := s.read_setScopeId id (by decide)
    rw [SockAddress.ip, SockAddress.ip, hf, h₄, h₆]

theorem ofPort_ip (inet : Inet) (p : BitVec 16) (loopback ipv6 : Bool) :
    (ofPort p loopback ipv6).ip inet = inet.ntop (requested ipv6) (hostAddress loopback ipv6) := by
  rw [(ofPort_layout p loopback ipv6).ip inet]
  cases ipv6 <;> cases loopback <;> rfl

theorem ofPort_roundTrips (inet : Inet) (p : BitVec 16) (loopback ipv6 : Bool) :
    (ofPort p loopback ipv6).RoundTrips inet p ipv6 (hostAddress loopback ipv6) where
  family := (ofPort_layout p loopback ipv6).family
  port   := (ofPort_layout p loopback ipv6).port
  ip     := ofPort_ip inet p loopback ipv6
  rest   := by
    rintro rfl
    rw [(ofPort_layout p loopback true).flowinfo, (ofPort_layout p loopback true).scopeId]
    cases loopback <;> decide

theorem Layout.eq_iff {s' : SockAddress} {body' : List Byte} (h : s.Layout f n body)
    (h' : s'.Layout f n body') :
    s = s' ↔ body = body' := by
  have hs : s = s' ↔ s.bytes = s'.bytes := by
    cases s
    cases s'
    exact SockAddress.mk.injEq .. ▸ Iff.rfl
  rw [hs, h, h', append_cancel_left_eq, append_cancel_left_eq]

-- The text constructor writes an IPv6 address four bytes too early. This shows by the only byte
-- that is not zero.
theorem ofText_eq_ofPort_iff (ht : text ≠ "")
    (ha : inet.pton (requested ipv6) text = some (hostAddress loopback ipv6)) :
    ofText inet text p ipv6 = ofPort p loopback ipv6 ↔ ¬(ipv6 ∧ loopback) := by
  have hl : (hostAddress loopback ipv6).length ≤ 24 := by cases ipv6 <;> cases loopback <;> decide
  rw [(ofText_layout ht ha hl).eq_iff (ofPort_layout p loopback ipv6)]
  cases ipv6 <;> cases loopback <;> decide

structure OfHost (inet : Inet) (s : SockAddress) (p : BitVec 16) (loopback ipv6 : Bool)
    (ids : List (BitVec 32)) :
    Prop where
  family : s.family = requested ipv6
  port   : s.port = p
  ip     : s.ip inet = inet.ntop (requested ipv6) (hostAddress loopback ipv6)
  rest   : ipv6 = true → s.flowinfo = 0 ∧ s.scopeId = ids.getLastD 0
  ipv4   : ipv6 = false → s = ofPort p loopback ipv6

theorem OfHost.setScopeId {ids : List (BitVec 32)} (h : s.OfHost inet p loopback ipv6 ids)
    (id : BitVec 32) :
    (s.setScopeId id).OfHost inet p loopback ipv6 (ids ++ [id]) where
  family := (s.setScopeId_scoped inet id).family.trans h.family
  port   := (s.setScopeId_scoped inet id).port.trans h.port
  ip     := (s.setScopeId_scoped inet id).ip.trans h.ip
  rest   := by
    intro hv
    have hs := s.setScopeId_scoped inet id
    have hf : s.family = AF_INET6 := by rw [h.family, hv]; rfl
    rw [hs.flowinfo, hs.scopeId, if_pos hf, getLastD_concat]
    exact ⟨(h.rest hv).left, rfl⟩
  ipv4   := by
    intro hv
    have hf : s.family ≠ AF_INET6 := by rw [h.family, hv]; decide
    rw [SockAddress.setScopeId, if_neg hf]
    exact h.ipv4 hv

theorem OfHost.foldl_setScopeId {ids : List (BitVec 32)} (h : s.OfHost inet p loopback ipv6 ids)
    (ids' : List (BitVec 32)) :
    (ids'.foldl SockAddress.setScopeId s).OfHost inet p loopback ipv6 (ids ++ ids') := by
  induction ids' generalizing s ids
  case nil => simpa using h
  case cons id ids' hi => simpa using hi (h.setScopeId id)

theorem ofPort_ofHost (inet : Inet) (p : BitVec 16) (loopback ipv6 : Bool) :
    (ofPort p loopback ipv6).OfHost inet p loopback ipv6 [] where
  family := (ofPort_roundTrips inet p loopback ipv6).family
  port   := (ofPort_roundTrips inet p loopback ipv6).port
  ip     := (ofPort_roundTrips inet p loopback ipv6).ip
  rest   := (ofPort_roundTrips inet p loopback ipv6).rest
  ipv4   := fun _ => rfl

theorem ofPort_keeps (inet : Inet) (p : BitVec 16) (loopback ipv6 : Bool) (ids : List (BitVec 32)) :
    (ids.foldl setScopeId (ofPort p loopback ipv6)).OfHost inet p loopback ipv6 ids ∧
    ∀ text, text ≠ "" → inet.pton (requested ipv6) text = some (hostAddress loopback ipv6) →
      (ofText inet text p ipv6 = ofPort p loopback ipv6 ↔ ¬(ipv6 ∧ loopback)) :=
  ⟨(ofPort_ofHost inet p loopback ipv6).foldl_setScopeId ids, fun _ => ofText_eq_ofPort_iff⟩

theorem ofPort_keeps_of_texts :
    ofText Inet.few "127.0.0.1" 80 false = ofPort 80 true false ∧
    ofText Inet.few "::" 80 true = ofPort 80 false true ∧
    ([3, 7].foldl setScopeId (ofPort 80 false true)).OfHost Inet.few 80 false true [3, 7] := by
  have ⟨_, h₄⟩ := ofPort_keeps Inet.few 80 true false []
  have ⟨hs, h₆⟩ := ofPort_keeps Inet.few 80 false true [3, 7]
  refine ⟨(h₄ "127.0.0.1" ?_ ?_).mpr ?_, (h₆ "::" ?_ ?_).mpr ?_, hs⟩
  all_goals decide

end SockAddress
end Bounce
