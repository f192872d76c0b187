import Bounce.Objects.Buffer.Theorems.Integers
import Bounce.Objects.SockAddress.Basic

open List

namespace Bounce

open Buffer (bytesOf length_bytesOf load_bytesOf load_zeros)

theorem mod_swap_bytes {n : Nat} (h : n < 65536) : (n % 256 * 256 + n / 256) % 256 = n / 256 := by
  have hh : n / 256 < 256 := Nat.div_lt_of_lt_mul h
  rw [Nat.add_comm, Nat.add_mul_mod_self_right]
  exact Nat.mod_eq_of_lt hh

theorem div_swap_bytes {n : Nat} (h : n < 65536) : (n % 256 * 256 + n / 256) / 256 = n % 256 := by
  have hh : n / 256 < 256 := Nat.div_lt_of_lt_mul h
  rw [Nat.add_comm, Nat.add_mul_div_right _ _ (by decide), Nat.div_eq_of_lt hh, Nat.zero_add]

theorem ntohs_htons (n : BitVec 16) : ntohs (htons n) = n := by
  have hn : n.toNat < 65536 := n.isLt
  have hh : (htons n).toNat = n.toNat % 256 * 256 + n.toNat / 256 := by
    rw [htons, BitVec.toNat_ofNat]
    exact Nat.mod_eq_of_lt (by omega)
  apply BitVec.eq_of_toNat_eq
  rw [ntohs, htons, BitVec.toNat_ofNat, hh, mod_swap_bytes hn, div_swap_bytes hn, Nat.div_add_mod']
  exact Nat.mod_eq_of_lt hn

def addressSize (family : Family) : Nat :=
  if family = AF_INET6 then 16 else 4

-- What the documentation of the two functions says about the addresses of the two families.
structure Inet.Lawful (inet : Inet) : Prop where
  length : ∀ {family text address}, family = AF_INET ∨ family = AF_INET6 →
    inet.pton family text = some address → address.length = addressSize family
  inverse : ∀ {family address}, family = AF_INET ∨ family = AF_INET6 →
    address.length = addressSize family → inet.pton family (inet.ntop family address) = some address

namespace SockAddress

variable {inet : Inet} {s : SockAddress} {text : String} {f n p : BitVec 16}
variable {body address : List Byte}
variable {ipv6 : Bool}

def requested (ipv6 : Bool) : Family :=
  if ipv6 then AF_INET6 else AF_INET

theorem requested_cases (ipv6 : Bool) : requested ipv6 = AF_INET ∨ requested ipv6 = AF_INET6 := by
  cases ipv6
  case false => exact .inl rfl
  case true  => exact .inr rfl

def Layout (s : SockAddress) (f n : BitVec 16) (body : List Byte) : Prop :=
  s.bytes = bytesOf 2 f.toNat ++ (bytesOf 2 n.toNat ++ body)

namespace Layout

theorem family (h : s.Layout f n body) : s.family = f := by
  rw [SockAddress.family, load, h]
  exact load_bytesOf (show BitVec (8 * 2) from f) _

theorem drop (h : s.Layout f n body) (i : Nat) : s.bytes.drop (4 + i) = body.drop i := by
  have hl : (bytesOf 2 f.toNat ++ bytesOf 2 n.toNat).length = 4 := by simp
  rw [h, ← append_assoc, ← hl, drop_length_add_append]

theorem port (h : s.Layout f (htons p) body) : s.port = p := by
  have hd : s.bytes.drop 2 = bytesOf 2 (htons p).toNat ++ body := by
    rw [h]
    exact drop_left' (length_bytesOf ..)
  rw [SockAddress.port, load, sin6Port, hd]
  exact (congrArg ntohs (load_bytesOf (show BitVec (8 * 2) from htons p) body)).trans
    (ntohs_htons p)

theorem flowinfo (h : s.Layout f n body) : s.flowinfo = Buffer.load 4 body := by
  rw [SockAddress.flowinfo, load]
  exact congrArg _ (h.drop 0)

theorem scopeId (h : s.Layout f n body) : s.scopeId = Buffer.load 4 (body.drop 20) := by
  rw [SockAddress.scopeId, load]
  exact congrArg _ (h.drop 20)

theorem ip (h : s.Layout (requested ipv6) n body) (inet : Inet) : s.ip inet =
    inet.ntop (requested ipv6) (if ipv6 then (body.drop 4).take 16 else body.take 4) := by
  cases ipv6
  case false =>
    have hf : s.load sin6Family 2 = AF_INET := h.family
    rw [SockAddress.ip, hf, if_pos rfl, read]
    exact congrArg (fun b => inet.ntop AF_INET (b.take 4)) (h.drop 0)
  case true =>
    have hf : s.load sin6Family 2 = AF_INET6 := h.family
    rw [SockAddress.ip, hf, if_neg (by decide), if_pos rfl, read]
    exact congrArg (fun b => inet.ntop AF_INET6 (b.take 16)) (h.drop 4)

end Layout

-- What the constructor leaves behind: the bytes of an IPv6 address are where an IPv4 address is.
theorem ofText_layout (ht : text ≠ "") (ha : inet.pton (requested ipv6) text = some address)
    (hl : address.length ≤ 24) :
    (ofText inet text p ipv6).Layout (requested ipv6) (htons p)
      (address ++ replicate (24 - address.length) 0) := by
  have hs : ∀ n : BitVec 16, (if ipv6 then (zero.store sin6Port 2 n).store sin6Family 2 AF_INET6
      else (zero.store sin6Port 2 n).store sinFamily 2 AF_INET).Layout (requested ipv6) n
        (replicate 24 0) := by
    intro n
    cases ipv6 <;> rfl
  have hf := (hs (htons p)).family
  have hd := (hs (htons p)).drop address.length
  have hb := hs (htons p)
  simp only [ofText, ht, ne_eq, not_false_eq_true, if_true]
  rw [show ∀ s : SockAddress, s.load sinFamily 2 = s.family from fun _ => rfl, hf, ha]
  rw [Layout] at hb ⊢
  simp only [write]
  rw [overwrite_eq (by rw [hb]; simp [sinAddr]; omega), sinAddr, hd, drop_replicate, hb,
    ← append_assoc,
    take_left' (by simp)]
  simp only [append_assoc]

theorem ofText_empty : (ofText inet "" p ipv6).family = 0 := by
  cases ipv6 <;> rfl

def Denotes (inet : Inet) (family : Family) (text : String) (address : List Byte) : Prop :=
  if text = "" then address = replicate (addressSize family) 0
    else inet.pton family text = some address

structure RoundTrips (inet : Inet) (s : SockAddress) (port : BitVec 16) (ipv6 : Bool)
    (address : List Byte) : Prop where
  family : s.family = requested ipv6
  port   : s.port = port
  ip     : s.ip inet = inet.ntop (requested ipv6) address
  rest   : ipv6 = true → s.flowinfo = 0 ∧ s.scopeId = 0

theorem eq_of_mem_of_shift {α} {l : List α} {k : Nat} {x : α} (hk : 0 < k)
    (h : l.drop k ++ replicate k x = l) {i : Nat} (hi : i < l.length) : l[i]? = some x := by
  have hn : ∀ n i, l.length ≤ i + n → i < l.length → l[i]? = some x := by
    intro n
    induction n
    case zero => omega
    case succ n hi =>
      intro i hl hi'
      rw [← h]
      by_cases hc : i < (l.drop k).length
      case pos =>
        rw [getElem?_append_left hc, getElem?_drop]
        rw [length_drop] at hc
        exact hi _ (by omega) (by omega)
      case neg =>
        rw [getElem?_append_right (by omega), length_drop]
        rw [length_drop] at hc
        exact getElem?_replicate_of_lt (by omega)
  exact hn l.length i (by omega) hi

theorem eq_zeros_of_shift (hl : address.length = 16)
    (h : address.drop 4 ++ replicate 4 0 = address) :
    address = replicate 16 0 := by
  apply ext_getElem?
  intro i
  by_cases hi : i < 16
  case pos => rw [eq_of_mem_of_shift (by decide) h (by omega), getElem?_replicate_of_lt hi]
  case neg => rw [getElem?_eq_none (by omega), getElem?_eq_none (by simp; omega)]

theorem ofText_roundTrips_iff (h : inet.Lawful) (ht : Denotes inet (requested ipv6) text address) :
    (ofText inet text p ipv6).RoundTrips inet p ipv6 address ↔
      text ≠ "" ∧ (ipv6 = true → address = replicate 16 0) := by
  have hr := requested_cases ipv6
  by_cases hn : text = ""
  case pos =>
    have hf : requested ipv6 ≠ 0 := by cases ipv6 <;> decide
    subst hn
    exact ⟨fun ht => absurd (ht.family.symm.trans ofText_empty) hf, fun ht => absurd rfl ht.1⟩
  case neg =>
    rw [Denotes, if_neg hn] at ht
    have hl := h.length hr ht
    cases ipv6
    case false =>
      have hl : address.length = 4 := hl
      have hs := ofText_layout (p := p) hn ht (by omega)
      have hi := hs.ip inet
      rw [if_neg (by decide), take_left' hl] at hi
      exact ⟨fun _ => ⟨hn, nofun⟩, fun _ => ⟨hs.family, hs.port, hi, nofun⟩⟩
    case true =>
      have hl : address.length = 16 := hl
      have hs := ofText_layout (p := p) hn ht (by omega)
      have hi := hs.ip inet
      rw [hl, if_pos rfl, drop_append_of_le_length (by omega),
        show replicate (24 - 16) (0 : Byte) = replicate 4 0 ++ replicate 4 0 from rfl,
          ← append_assoc,
        take_left' (by simp; omega)] at hi
      have hb : (address.drop 4 ++ replicate 4 0).length = 16 := by simp; omega
      constructor
      case mp =>
        intro ht
        have he :=
          (h.inverse hr hb).symm.trans ((congrArg _ (hi.symm.trans ht.ip)).trans (h.inverse hr hl))
        exact ⟨hn, fun _ => eq_zeros_of_shift hl (Option.some.inj he)⟩
      case mpr =>
        intro ⟨_, hz⟩
        have hz := hz rfl
        subst hz
        exact {
          family := hs.family
          port   := hs.port
          ip     := hi
          rest   := fun _ => ⟨hs.flowinfo, hs.scopeId⟩
        }

end SockAddress

namespace Inet

def linkLocal : List Byte :=
  [0xfe, 0x80, 0, 0, 0, 0, 0, 0, 0x17, 0x78, 0xfd, 0xc1, 0x16, 0xf9, 0xb7, 0x39]

-- Some addresses with their usual texts. Every other address is written as its bytes, behind a
-- mark.
def few : Inet where
  pton family text :=
    if family = AF_INET ∧ text = "127.0.0.1" then some [127, 0, 0, 1]
    else if family = AF_INET6 ∧ text = "::" then some (replicate 16 0)
    else if family = AF_INET6 ∧ text = "fe80::1778:fdc1:16f9:b739" then some linkLocal
    else
      let address := text.toList.tail.map fun c => BitVec.ofNat 8 c.toNat
      if address.length = addressSize family then some address else none
  ntop family address :=
    if family = AF_INET ∧ address = [127, 0, 0, 1] then "127.0.0.1"
    else if family = AF_INET6 ∧ address = replicate 16 0 then "::"
    else if family = AF_INET6 ∧ address = linkLocal then "fe80::1778:fdc1:16f9:b739"
    else String.ofList ('#' :: address.map fun b => Char.ofNat b.toNat)

theorem byte_of_char (b : Byte) : BitVec.ofNat 8 (Char.ofNat b.toNat).toNat = b := by
  have hb := b.isLt
  have hv : b.toNat.isValidChar := .inl (by omega)
  have hc : (Char.ofNat b.toNat).toNat = b.toNat := by
    rw [Char.ofNat, dif_pos hv]
    rfl
  rw [hc, BitVec.ofNat_toNat, BitVec.setWidth_eq]

theorem few_lawful : few.Lawful where
  length := by
    intro family text address hf h
    simp only [few] at h
    split at h
    case isTrue hc =>
      cases h
      rw [hc.1]
      rfl
    case isFalse =>
      split at h
      case isTrue hc =>
        cases h
        rw [hc.1]
        rfl
      case isFalse =>
        split at h
        case isTrue hc =>
          cases h
          rw [hc.1]
          rfl
        case isFalse =>
          split at h
          case isTrue hl =>
            cases h
            exact hl
          case isFalse => cases h
  inverse := by
    intro family address hf hl
    have hm : ∀ (s : String) (bytes : List Byte), s.toList.head? ≠ some '#' →
        String.ofList ('#' :: bytes.map fun b => Char.ofNat b.toNat) ≠ s := by
      intro s bytes hs he
      rw [← he, String.toList_ofList] at hs
      exact hs rfl
    by_cases h₁ : family = AF_INET ∧ address = [127, 0, 0, 1]
    case pos =>
      obtain ⟨rfl, rfl⟩ := h₁
      decide
    case neg =>
      by_cases h₂ : family = AF_INET6 ∧ address = replicate 16 0
      case pos =>
        obtain ⟨rfl, rfl⟩ := h₂
        decide
      case neg =>
        by_cases h₃ : family = AF_INET6 ∧ address = linkLocal
        case pos =>
          obtain ⟨rfl, rfl⟩ := h₃
          decide
        case neg =>
          simp only [few, h₁, h₂, h₃, if_false]
          rw [if_neg fun h => hm "127.0.0.1" _ (by decide) h.2,
            if_neg fun h => hm "::" _ (by decide) h.2,
            if_neg fun h => hm "fe80::1778:fdc1:16f9:b739" _ (by decide) h.2,
            String.toList_ofList, List.tail_cons, List.map_map]
          have hi : (fun c : Char => BitVec.ofNat 8 c.toNat) ∘
              (fun b : Byte => Char.ofNat b.toNat) = id :=
            funext byte_of_char
          rw [hi, List.map_id, if_pos hl]

end Inet

namespace SockAddress

theorem roundTrips_of_loopback :
    (ofText Inet.few "127.0.0.1" 8888 false).RoundTrips Inet.few 8888 false [127, 0, 0, 1] :=
  (ofText_roundTrips_iff Inet.few_lawful (by rw [Denotes]; decide)).mpr ⟨by decide, nofun⟩

-- The address in the test of the class.
theorem not_roundTrips_of_linkLocal : Inet.few.Lawful ∧
    Denotes Inet.few AF_INET6 "fe80::1778:fdc1:16f9:b739" Inet.linkLocal ∧
    ¬(ofText Inet.few "fe80::1778:fdc1:16f9:b739" 8888 true).RoundTrips Inet.few 8888 true
      Inet.linkLocal := by
  refine ⟨Inet.few_lawful, by rw [Denotes]; decide, ?_⟩
  intro h
  exact absurd h.ip (by decide)

end SockAddress
end Bounce
