import Mathlib.Data.List.Nodup
import Mathlib.Tactic.Tauto
import Bounce.Execution.Connecting.Basic

namespace Bounce

namespace Connector

variable {α : Type} {c : Connector α} {a b : Attempt α} {r : SockError} {o : Opened} {addr : α}
variable {read : Option α}

structure Valid (c : Connector α) : Prop where
  numbers : c.attempts.map (·.number) = List.range c.attempts.length
  known   : ∀ a, a ∈ c.connMap ∨ a ∈ c.handed.map (·.1) ∨ a ∈ c.closed ∨ a ∈ c.errors.map (·.1) →
    a ∈ c.attempts
  keys    : (c.connMap.map (·.fd)).Nodup

structure Lost (c : Connector α) (a : Attempt α) : Prop where
  known   : a ∈ c.attempts
  nowhere : a ∉ c.connMap ∧ a ∉ c.handed.map (·.1) ∧ a ∉ c.closed ∧ a ∉ c.errors.map (·.1)
  missed  : 0 ≤ a.fd ∨ c.errorCb

theorem Valid.nodup (h : c.Valid) : c.attempts.Nodup := by
  have hn : (c.attempts.map (·.number)).Nodup := h.numbers ▸ List.nodup_range
  exact List.Nodup.of_map _ hn

theorem Valid.number_lt (h : c.Valid) (ha : a ∈ c.attempts) : a.number < c.attempts.length := by
  have hm : a.number ∈ c.attempts.map (·.number) := List.mem_map_of_mem ha
  rwa [h.numbers, List.mem_range] at hm

theorem Valid.number_inj (h : c.Valid) (ha : a ∈ c.attempts) (hb : b ∈ c.attempts)
    (he : a.number = b.number) : a = b := by
  have hn : (c.attempts.map (·.number)).Nodup := h.numbers ▸ List.nodup_range
  exact List.inj_on_of_nodup_map hn ha hb he

def give (c : Connector α) (a : Attempt α) (read : Option α) : Connector α :=
  { c with handed := c.handed ++ [(a, read)] }

theorem handleWrite_new (r : SockError) (h : ∀ b ∈ c.connMap, b.fd ≠ a.fd) :
    c.handleWrite a (.argument addr) r = c.give a addr := by
  have hf : c.connMap.find? (·.fd = a.fd) = none := by simpa using h
  rw [handleWrite, hf]
  rfl

-- The end of an attempt that has been pending: what is read of its address is none.
def finish (c : Connector α) (a : Attempt α) (r : SockError) : Connector α :=
  if r = .error 0 then
    (c.erase a).give a none
  else
    { c.erase a with
      closed := c.closed ++ [a]
      errors := if c.errorCb then c.errors ++ [(a, none, r.value)] else c.errors }

theorem Valid.split (h : c.Valid) (ha : a ∈ c.connMap) : ∃ l₁ l₂, c.connMap = l₁ ++ a :: l₂ ∧
    c.connMap.find? (·.fd = a.fd) = some a ∧ (c.erase a).connMap = l₁ ++ l₂ := by
  have ⟨l₁, l₂, hl⟩ := List.append_of_mem ha
  have hk := h.keys
  rw [hl, List.map_append, List.map_cons] at hk
  have hn : ∀ b ∈ l₁, ¬(decide (b.fd = a.fd)) := by
    intro b hb he
    have hd := List.disjoint_of_nodup_append hk (List.mem_map_of_mem hb)
    exact hd (by simp [of_decide_eq_true he])
  refine ⟨l₁, l₂, hl, ?_, ?_⟩
  · rw [hl, List.find?_eq_some_iff_append]
    exact ⟨by simp, l₁, l₂, rfl, by simpa using hn⟩
  · show c.connMap.eraseP (·.fd = a.fd) = l₁ ++ l₂
    rw [hl, List.eraseP_append_right _ hn, List.eraseP_cons_of_pos (by simp)]

theorem Valid.not_mem_erase (h : c.Valid) (ha : a ∈ c.connMap) : a ∉ (c.erase a).connMap := by
  have ⟨l₁, l₂, hl, _, hs⟩ := h.split ha
  have hn : c.connMap.Nodup := List.Nodup.of_map _ h.keys
  rw [hl, List.nodup_middle, List.nodup_cons] at hn
  exact hs ▸ hn.left

-- `conn_map_.erase` has destroyed the channel, and with it what is bound to its callback.
theorem Valid.read_erase (h : c.Valid) (ha : a ∈ c.connMap) :
    (c.erase a).read (.bound a.number) = none := by
  have hn : ∀ b ∈ (c.erase a).connMap, b.number ≠ a.number := by
    intro b hb he
    have hb' : b ∈ c.connMap := List.mem_of_mem_eraseP hb
    have he := h.number_inj (h.known b (.inl hb')) (h.known a (.inl ha)) he
    exact h.not_mem_erase ha (he ▸ hb)
  have hf : (c.erase a).connMap.find? (·.number = a.number) = none := by simpa using hn
  rw [read, hf]
  rfl

theorem handleWrite_pending (h : c.Valid) (ha : a ∈ c.connMap) (r : SockError) :
    c.handleWrite a (.bound a.number) r = c.finish a r := by
  have ⟨_, _, _, hf, _⟩ := h.split ha
  have hr := h.read_erase ha
  rw [handleWrite, hf, finish]
  simp only [setNewConnection, hr]
  rfl

def attempt (c : Connector α) (addr : α) (o : Opened) : Attempt α :=
  ⟨c.attempts.length, o.fd, addr⟩

def start (c : Connector α) (addr : α) (o : Opened) : Connector α :=
  { c with
    attempts := c.attempts ++ [c.attempt addr o]
    channel  := Function.update c.channel c.attempts.length (.new o.fd) }

def wait (c : Connector α) (a : Attempt α) : Connector α :=
  { c with
    connMap := c.connMap ++ [a]
    channel := Function.update c.channel a.number (c.channel a.number).enableWriting }

theorem connectInLoop_cases (addr : α) (hp : Connecting.Possible c o) :
    (o.connected = .success ∧ 0 ≤ o.fd ∧
      c.connectInLoop addr o = (c.start addr o).give (c.attempt addr o) addr) ∨
    (o.connected = .inProgress ∧ 0 ≤ o.fd ∧
      c.connectInLoop addr o = (c.start addr o).wait (c.attempt addr o)) ∨
    (o.connected.isFailed ∧ c.connectInLoop addr o = c.start addr o) := by
  have hf : ¬o.connected.isFailed → 0 ≤ o.fd := fun hn => Int.not_lt.mp fun hl => hn (hp.left hl)
  cases hc : o.connected
  case success =>
    have hf := hf (by simp [hc, Connected.isFailed])
    refine .inl ⟨rfl, hf, ?_⟩
    simp only [connectInLoop, hc]
    exact handleWrite_new (c := c.start addr o) o.sockError (hp.right hf)
  case inProgress =>
    have hf := hf (by simp [hc, Connected.isFailed])
    refine .inr (.inl ⟨rfl, hf, ?_⟩)
    have ha : ¬c.connMap.any (·.fd = o.fd) := by simpa using hp.right hf
    simp only [connectInLoop, hc, insert, ha]
    rfl
  case failed =>
    refine .inr (.inr ⟨rfl, ?_⟩)
    simp only [connectInLoop, hc]
    rfl

theorem Valid.start (h : c.Valid) (addr : α) (o : Opened) : (c.start addr o).Valid where
  numbers := by
    have hn := h.numbers
    simp [Connector.start, attempt, List.range_succ, hn]
  known a hm := List.mem_append_left _ (h.known a hm)
  keys    := h.keys

theorem Valid.give (h : c.Valid) (ha : a ∈ c.attempts) : (c.give a read).Valid where
  numbers := h.numbers
  known b hm := by
    simp only [Connector.give, List.map_append, List.map_singleton, List.mem_append,
      List.mem_singleton] at hm
    obtain hm | (hm | rfl) | hm := hm
    · exact h.known b (.inl hm)
    · exact h.known b (.inr (.inl hm))
    · exact ha
    · exact h.known b (.inr (.inr hm))
  keys    := h.keys

theorem Valid.wait (h : c.Valid) (ha : a ∈ c.attempts) (hn : ∀ b ∈ c.connMap, b.fd ≠ a.fd) :
    (c.wait a).Valid where
  numbers := h.numbers
  known b hm := by
    simp only [Connector.wait, List.mem_append, List.mem_singleton] at hm
    obtain (hm | rfl) | hm := hm
    · exact h.known b (.inl hm)
    · exact ha
    · exact h.known b (.inr hm)
  keys    := by
    simp only [Connector.wait, List.map_append, List.map_singleton]
    refine List.Nodup.append h.keys (List.nodup_singleton _) ?_
    simpa using hn

theorem Valid.finish (h : c.Valid) (ha : a ∈ c.connMap) (r : SockError) : (c.finish a r).Valid := by
  have he : (c.erase a).Valid := by
    have ⟨l₁, l₂, hl, _, hs⟩ := h.split ha
    have hsub : (l₁ ++ l₂).Sublist c.connMap := hl ▸ (List.sublist_cons_self a l₂).append_left l₁
    exact {
      numbers := h.numbers
      known   := fun b hm => h.known b (hm.imp_left fun hm => hsub.subset (hs ▸ hm))
      keys    := hs ▸ h.keys.sublist (hsub.map _)
    }
  have hk := h.known a (.inl ha)
  rw [Connector.finish]
  split
  case isTrue  => exact he.give hk
  case isFalse =>
    refine ⟨he.numbers, fun b hm => ?_, he.keys⟩
    simp only [List.mem_append, List.mem_singleton] at hm
    obtain hm | hm | (hm | rfl) | hm := hm
    · exact he.known b (.inl hm)
    · exact he.known b (.inr (.inl hm))
    · exact he.known b (.inr (.inr (.inl hm)))
    · exact hk
    · split at hm
      case isFalse => exact he.known b (.inr (.inr (.inr hm)))
      case isTrue  =>
        rw [List.map_append, List.mem_append] at hm
        cases hm
        case inl hm => exact he.known b (.inr (.inr (.inr hm)))
        case inr hm => exact (List.mem_singleton.mp hm) ▸ hk

theorem Valid.connectInLoop (h : c.Valid) (hp : Connecting.Possible c o) :
    (c.connectInLoop addr o).Valid := by
  have ha : c.attempt addr o ∈ (c.start addr o).attempts :=
    List.mem_append_right _ (List.mem_singleton_self _)
  obtain ⟨_, _, he⟩ | ⟨_, hf, he⟩ | ⟨_, he⟩ := connectInLoop_cases addr hp <;> rw [he]
  · exact (h.start addr o).give ha
  · exact (h.start addr o).wait ha (hp.right hf)
  · exact h.start addr o

-- The answers that the code is made for: `::connect` does not fail with another errno than
-- `EINPROGRESS`. Nothing is missed if there is neither a descriptor nor an error callback.
def Connects (errorCb : Bool) (o : Opened) : Prop :=
  ¬(o.connected.isFailed ∧ (0 ≤ o.fd ∨ errorCb))

theorem not_known (hv : c.Valid) : c.attempt addr o ∉ c.attempts :=
  fun ha => Nat.lt_irrefl _ (hv.number_lt ha)

theorem lost_of_not_connects (h : c.Valid) (hp : Connecting.Possible c o)
    (hc : ¬Connects c.errorCb o) :
    (c.connectInLoop addr o).Lost (c.attempt addr o) := by
  have ⟨hf, hm⟩ := not_not.mp hc
  have hn : c.attempt addr o ∉ c.attempts := not_known h
  obtain ⟨hs, _⟩ | ⟨hs, _⟩ | ⟨_, he⟩ := connectInLoop_cases addr hp
  · rw [hs] at hf
    contradiction
  · rw [hs] at hf
    contradiction
  · rw [he]
    exact {
      known   := List.mem_append_right _ (List.mem_singleton_self _)
      nowhere := ⟨fun hm => hn (h.known _ (.inl hm)), fun hm => hn (h.known _ (.inr (.inl hm))),
        fun hm => hn (h.known _ (.inr (.inr (.inl hm)))),
          fun hm => hn (h.known _ (.inr (.inr (.inr hm))))⟩
      missed  := hm
    }

namespace Lost

theorem not_mem_snoc {l : List (Attempt α)} (hm : a ∉ l) (hb : b ≠ a) : a ∉ l ++ [b] := by
  rw [List.mem_append, List.mem_singleton]
  exact not_or.mpr ⟨hm, hb.symm⟩

theorem start (h : c.Lost a) (addr : α) (o : Opened) : (c.start addr o).Lost a :=
  ⟨List.mem_append_left _ h.known, h.nowhere, h.missed⟩

theorem give (h : c.Lost a) (hb : b ≠ a) : (c.give b read).Lost a := by
  have ⟨hp, hh, hc⟩ := h.nowhere
  have hg : (c.give b read).handed.map (·.1) = c.handed.map (·.1) ++ [b] := List.map_append
  exact ⟨h.known, ⟨hp, hg ▸ not_mem_snoc hh hb, hc⟩, h.missed⟩

theorem connectInLoop (h : c.Lost a) (hv : c.Valid) (hp : Connecting.Possible c o) :
    (c.connectInLoop addr o).Lost a := by
  have hn : c.attempt addr o ≠ a := fun he => not_known hv (he ▸ h.known)
  have hs := h.start addr o
  obtain ⟨_, _, he⟩ | ⟨_, _, he⟩ | ⟨_, he⟩ := connectInLoop_cases addr hp <;> rw [he]
  · exact hs.give hn
  · exact ⟨hs.known, hs.nowhere.imp_left fun hm => not_mem_snoc hm hn, hs.missed⟩
  · exact hs

theorem finish (h : c.Lost a) (hb : b ∈ c.connMap) (r : SockError) : (c.finish b r).Lost a := by
  have hn : b ≠ a := fun he => h.nowhere.left (he ▸ hb)
  have he : (c.erase b).Lost a :=
    ⟨h.known, ⟨fun hm => h.nowhere.left (List.mem_of_mem_eraseP hm), h.nowhere.right⟩, h.missed⟩
  rw [Connector.finish]
  split
  case isTrue  => exact he.give hn
  case isFalse =>
    have ⟨hp, hh, hc, her⟩ := he.nowhere
    refine ⟨he.known, ⟨hp, hh, not_mem_snoc hc hn, ?_⟩, he.missed⟩
    dsimp only
    split
    case isFalse => exact her
    case isTrue  => rw [List.map_append]; exact not_mem_snoc her hn

end Lost

structure Addressed (c : Connector α) : Prop where
  handed : ∀ x ∈ c.handed, x.2 = some x.1.addr
  errors : ∀ x ∈ c.errors, x.2.1 = some x.1.addr

theorem connectInLoop_addressed_iff (hp : Connecting.Possible c o) :
    (c.connectInLoop addr o).Addressed ↔ c.Addressed := by
  obtain ⟨_, _, he⟩ | ⟨_, _, he⟩ | ⟨_, he⟩ := connectInLoop_cases addr hp <;> rw [he]
  · refine ⟨fun h => ⟨fun x hx => h.handed x (List.mem_append_left _ hx), h.errors⟩, fun h => ?_⟩
    refine ⟨fun x hx => ?_, h.errors⟩
    cases List.mem_append.mp hx
    case inl hx => exact h.handed x hx
    case inr hx => exact (List.mem_singleton.mp hx) ▸ rfl
  · exact ⟨fun h => ⟨h.handed, h.errors⟩, fun h => ⟨h.handed, h.errors⟩⟩
  · exact ⟨fun h => ⟨h.handed, h.errors⟩, fun h => ⟨h.handed, h.errors⟩⟩

theorem finish_addressed_iff :
    (c.finish a r).Addressed ↔ c.Addressed ∧ ¬(r = .error 0 ∨ c.errorCb) := by
  rw [finish]
  split
  case isTrue hr =>
    refine ⟨fun h => ?_, fun h => absurd (.inl hr) h.right⟩
    have hn := h.handed (a, none) (List.mem_append_right _ (List.mem_singleton_self _))
    contradiction
  case isFalse hr =>
    by_cases hcb : c.errorCb
    case pos =>
      refine ⟨fun h => ?_, fun h => absurd (.inr hcb) h.right⟩
      have hm : (a, none, r.value) ∈ c.errors ++ [(a, none, r.value)] :=
        List.mem_append_right _ (List.mem_singleton_self _)
      have hn := h.errors (a, none, r.value) (by simpa only [hcb, if_pos] using hm)
      contradiction
    case neg =>
      simp only [hcb]
      refine ⟨fun h => ⟨⟨h.handed, h.errors⟩, ?_⟩, fun h => ⟨h.left.handed, h.left.errors⟩⟩
      simpa using hr

theorem mem_start (ha : a ∈ (c.start addr o).attempts) : a ∈ c.attempts ∨ a = c.attempt addr o :=
  (List.mem_append.mp ha).imp_right List.mem_singleton.mp

variable [DecidableEq α]

-- A descriptor is pending with its channel registered for writing, or it has been handed over, or
-- it has been closed. An attempt that has ended in another way than by handing over has been
-- reported.
structure Placed (c : Connector α) : Prop where
  place    : ∀ a ∈ c.attempts, 0 ≤ a.fd →
    c.connMap.count a + (c.handed.map (·.1)).count a + c.closed.count a = 1
  known    : ∀ a, a ∈ c.connMap ∨ a ∈ c.handed.map (·.1) ∨ a ∈ c.closed → a ∈ c.attempts
  watched  : ∀ a ∈ c.attempts, (c.channel a.number).slot =
    if a ∈ c.connMap then some ⟨a.fd, Events.POLLOUT, 0⟩ else none
  reported : c.errorCb → ∀ a ∈ c.attempts, (c.errors.map (·.1)).count a =
    if a ∈ c.connMap ∨ a ∈ c.handed.map (·.1) then 0 else 1

structure Conserved (c : Connector α) : Prop where
  placed    : c.Placed
  addressed : c.Addressed

structure Kept (c : Connector α) : Prop where
  places   : (c.attempts.filter (0 ≤ ·.fd)).Perm (c.connMap ++ c.handed.map (·.1) ++ c.closed)
  watched  : ∀ a ∈ c.attempts, (c.channel a.number).slot =
    if a ∈ c.connMap then some ⟨a.fd, Events.POLLOUT, 0⟩ else none
  reported : c.errorCb → c.errors.map (·.1) = c.closed ∧ ∀ a ∈ c.attempts, 0 ≤ a.fd

theorem Lost.not_placed (h : c.Lost a) : ¬c.Placed := by
  intro hc
  have ⟨hp, hh, hcl, he⟩ := h.nowhere
  cases h.missed
  case inl hf =>
    have hz := hc.place a h.known hf
    simp [List.count_eq_zero_of_not_mem, hp, hh, hcl] at hz
  case inr hcb =>
    have hr := hc.reported hcb a h.known
    rw [List.count_eq_zero_of_not_mem he] at hr
    simp [hp, hh] at hr

namespace Kept

-- What has come in is counted on both sides, and what has moved on neither.
theorem perm_of_count {l l' m m' : List (Attempt α)} (h : l.Perm m)
    (hc : ∀ b, l'.count b + m.count b = l.count b + m'.count b) : l'.Perm m' := by
  rw [List.perm_iff_count]
  intro b
  have hl := h.count_eq b
  have hc := hc b
  omega

theorem count (hv : c.Valid) (h : c.Kept) (ha : a ∈ c.attempts) (hf : 0 ≤ a.fd) :
    c.connMap.count a + (c.handed.map (·.1)).count a + c.closed.count a = 1 := by
  have hc : (c.attempts.filter (0 ≤ ·.fd)).count a = 1 :=
    List.count_eq_one_of_mem (hv.nodup.filter _) (List.mem_filter.mpr ⟨ha, by simpa using hf⟩)
  rwa [h.places.count_eq, List.count_append, List.count_append] at hc

theorem placed (hv : c.Valid) (h : c.Kept) : c.Placed where
  place _ := h.count hv
  known a hm := hv.known a (by tauto)
  watched := h.watched
  reported hcb a ha := by
    have ⟨hr, hf⟩ := h.reported hcb
    have hc := h.count hv ha (hf a ha)
    have hp : 0 < c.connMap.count a ↔ a ∈ c.connMap := List.count_pos_iff
    have hh : 0 < (c.handed.map (·.1)).count a ↔ a ∈ c.handed.map (·.1) := List.count_pos_iff
    rw [hr]
    split
    case isTrue hm  => rw [← hp, ← hh] at hm; omega
    case isFalse hm => rw [← hp, ← hh] at hm; omega

theorem start_watched (hv : c.Valid) (h : c.Kept) (ha : a ∈ (c.start addr o).attempts) :
    ((c.start addr o).channel a.number).slot =
      if a ∈ c.connMap then some ⟨a.fd, Events.POLLOUT, 0⟩ else none := by
  cases mem_start ha
  case inl ha =>
    have hn : a.number ≠ c.attempts.length := Nat.ne_of_lt (hv.number_lt ha)
    simp only [Connector.start, Function.update_of_ne hn]
    exact h.watched a ha
  case inr he =>
    subst he
    rw [if_neg fun hm => not_known hv (hv.known _ (.inl hm))]
    simp only [Connector.start, attempt, Function.update_self]
    rfl

omit [DecidableEq α] in
theorem filter_start (hf : 0 ≤ o.fd) : ((c.start addr o).attempts.filter (0 ≤ ·.fd)) =
    c.attempts.filter (0 ≤ ·.fd) ++ [c.attempt addr o] := by
  have hf : 0 ≤ (c.attempt addr o).fd := hf
  rw [Connector.start, List.filter_append,
    List.filter_cons_of_pos (by simpa only [decide_eq_true_eq] using hf)]
  rfl

theorem start_reported (h : c.Kept) (hf : 0 ≤ o.fd) (hcb : c.errorCb) :
    c.errors.map (·.1) = c.closed ∧ ∀ a ∈ (c.start addr o).attempts, 0 ≤ a.fd := by
  have ⟨hr, hn⟩ := h.reported hcb
  refine ⟨hr, fun a ha => ?_⟩
  cases mem_start ha
  case inl ha => exact hn a ha
  case inr he => exact he ▸ hf

theorem connectInLoop (hv : c.Valid) (h : c.Kept) (hp : Connecting.Possible c o)
    (hc : Connects c.errorCb o) : (c.connectInLoop addr o).Kept := by
  obtain ⟨_, hf, he⟩ | ⟨_, hf, he⟩ | ⟨hfail, he⟩ := connectInLoop_cases addr hp <;> rw [he]
  · refine ⟨?_, fun a ha => h.start_watched hv ha, h.start_reported hf⟩
    have hg : ((c.start addr o).give (c.attempt addr o) addr).handed.map (·.1) =
        c.handed.map (·.1) ++ [c.attempt addr o] := List.map_append
    show ((c.start addr o).attempts.filter (0 ≤ ·.fd)).Perm (c.connMap ++ _ ++ c.closed)
    rw [hg, filter_start hf]
    refine perm_of_count h.places fun b => ?_
    simp only [List.count_append]
    omega
  · refine ⟨?_, fun a ha => ?_, h.start_reported hf⟩
    · show ((c.start addr o).attempts.filter (0 ≤ ·.fd)).Perm
        (c.connMap ++ [c.attempt addr o] ++ c.handed.map (·.1) ++ c.closed)
      rw [filter_start hf]
      refine perm_of_count h.places fun b => ?_
      simp only [List.count_append]
      omega
    · have hw := h.start_watched hv ha
      cases mem_start ha
      case inl ha =>
        have hn : a.number ≠ (c.attempt addr o).number := Nat.ne_of_lt (hv.number_lt ha)
        have hne : a ≠ c.attempt addr o := fun he => hn (congrArg _ he)
        simpa [wait, hn, hne, Connector.start] using hw
      case inr he =>
        subst he
        simp [wait, Connector.start, attempt, Watch.enableWriting, Watch.update, Watch.new,
          Channel.kWriteEvent]
  · have ⟨hf, hcb⟩ := not_or.mp fun hm => hc ⟨hfail, hm⟩
    refine ⟨?_, fun a ha => h.start_watched hv ha, fun hcb' => absurd hcb' hcb⟩
    have hfil : (c.start addr o).attempts.filter (0 ≤ ·.fd) = c.attempts.filter (0 ≤ ·.fd) := by
      have hf : ¬0 ≤ (c.attempt addr o).fd := hf
      rw [Connector.start, List.filter_append,
        List.filter_cons_of_neg (by simpa only [decide_eq_true_eq] using hf)]
      exact List.append_nil _
    rw [hfil]
    exact h.places

theorem finish (hv : c.Valid) (h : c.Kept) (ha : a ∈ c.connMap) (r : SockError) :
    (c.finish a r).Kept := by
  have ⟨l₁, l₂, hl, _, hs⟩ := hv.split ha
  have hw : ∀ b ∈ c.attempts, ((c.erase a).channel b.number).slot =
      if b ∈ (c.erase a).connMap then some ⟨b.fd, Events.POLLOUT, 0⟩ else none := by
    intro b hb
    by_cases he : b = a
    case pos =>
      subst he
      rw [if_neg (hv.not_mem_erase ha)]
      simp [Connector.erase, Watch.remove]
    case neg =>
      have hn : b.number ≠ a.number := fun hn => he (hv.number_inj hb (hv.known a (.inl ha)) hn)
      have hw := h.watched b hb
      rw [hs]
      simpa [Connector.erase, hn, hl, he] using hw
  rw [Connector.finish]
  split
  case isTrue  =>
    refine ⟨?_, hw, h.reported⟩
    have hg : ((c.erase a).give a none).handed.map (·.1) = c.handed.map (·.1) ++ [a] :=
      List.map_append
    show (c.attempts.filter (0 ≤ ·.fd)).Perm ((c.erase a).connMap ++ _ ++ c.closed)
    rw [hg, hs]
    refine perm_of_count h.places fun b => ?_
    simp only [hl, List.count_append, List.count_cons, List.count_nil]
    omega
  case isFalse =>
    refine ⟨?_, hw, fun hcb => ?_⟩
    · show (c.attempts.filter (0 ≤ ·.fd)).Perm
        ((c.erase a).connMap ++ c.handed.map (·.1) ++ (c.closed ++ [a]))
      rw [hs]
      refine perm_of_count h.places fun b => ?_
      simp only [hl, List.count_append, List.count_cons, List.count_nil]
      omega
    · have ⟨hr, hf⟩ := h.reported hcb
      refine ⟨?_, hf⟩
      show (if c.errorCb then c.errors ++ [(a, none, r.value)] else c.errors).map (·.1) =
        c.closed ++ [a]
      rw [if_pos (show c.errorCb from hcb), List.map_append, hr]
      rfl

end Kept
end Connector

namespace Connecting

open Connector (Connects)

variable {α : Type} {s s' : State α} {act : Act α} {acts : List (Act α)} {a : Attempt α}
variable {errorCb : Bool}
variable {c c' : Connector α}

def Act.Connects (errorCb : Bool) : Act α → Prop
  | .connect _ o | .task o => Connector.Connects errorCb o
  | _                      => True

-- An attempt completes behind `connectInLoop`, with somebody to pass its address on to.
def Act.ReadsBound (errorCb : Bool) : Act α → Prop
  | .ready _ revents r => (revents &&& Events.POLLOUT).any ∧ (r = .error 0 ∨ errorCb)
  | _                  => False

inductive Changes (c : Connector α) : Act α → Connector α → Prop
  | same {act : Act α} : ¬act.ReadsBound c.errorCb → act.Connects c.errorCb → Changes c act c
  | attempt {act : Act α} {addr : α} {o : Opened} : ¬act.ReadsBound c.errorCb → Possible c o →
    (∀ errorCb, act.Connects errorCb ↔ Connector.Connects errorCb o) →
    Changes c act (c.connectInLoop addr o)
  | finish {act : Act α} {a : Attempt α} {r : SockError} :
    (act.ReadsBound c.errorCb ↔ r = .error 0 ∨ c.errorCb) → act.Connects c.errorCb →
    a ∈ c.connMap → Changes c act (c.finish a r)

namespace Changes

theorem valid (h : Changes c act c') (hv : c.Valid) : c'.Valid := by
  cases h
  case same         => exact hv
  case attempt hp _ => exact hv.connectInLoop hp
  case finish ha    => exact hv.finish ha _

theorem errorCb_eq (h : Changes c act c') : c'.errorCb = c.errorCb := by
  cases h
  case same => rfl
  case attempt hp _ =>
    obtain ⟨_, _, hc⟩ | ⟨_, _, hc⟩ | ⟨_, hc⟩ :=
      Connector.connectInLoop_cases _ hp <;> rw [hc] <;> rfl
  case finish =>
    rw [Connector.finish]
    split <;> rfl

theorem lost (h : Changes c act c') (hv : c.Valid) (hl : c.Lost a) : c'.Lost a := by
  cases h
  case same         => exact hl
  case attempt hp _ => exact hl.connectInLoop hv hp
  case finish ha    => exact hl.finish ha _

theorem broken (h : Changes c act c') (hv : c.Valid) (hc : ¬act.Connects c.errorCb) :
    ∃ a, c'.Lost a := by
  cases h
  case same hn       => contradiction
  case finish hn _   => contradiction
  case attempt hp ho => exact ⟨_, Connector.lost_of_not_connects hv hp fun hn => hc ((ho _).mpr hn)⟩

theorem addressed_iff (h : Changes c act c') :
    c'.Addressed ↔ c.Addressed ∧ ¬act.ReadsBound c.errorCb := by
  cases h
  case same hn _         => exact ⟨fun h => ⟨h, hn⟩, And.left⟩
  case attempt hn hp _ =>
    exact (Connector.connectInLoop_addressed_iff hp).trans ⟨fun h => ⟨h, hn⟩, And.left⟩
  case finish hr _ _     => rw [hr, Connector.finish_addressed_iff]

theorem kept [DecidableEq α] (h : Changes c act c') (hv : c.Valid) (hk : c.Kept)
    (hc : act.Connects c.errorCb) : c'.Kept := by
  cases h
  case same          => exact hk
  case attempt hp ho => exact hk.connectInLoop hv hp ((ho _).mp hc)
  case finish ha     => exact hk.finish hv ha _

end Changes

theorem changes_of_step (hv : s.connector.Valid) (hs : s.started) (h : s.step act = some s') :
    Changes s.connector act s'.connector ∧ s'.started := by
  cases act <;> simp only [State.step] at h
  case connect addr o =>
    rw [if_pos hs] at h
    split at h
    case isTrue hp => cases h; exact ⟨.attempt id hp fun _ => .rfl, hs⟩
    case isFalse   => contradiction
  case post addr =>
    cases h
    rw [if_pos hs]
    exact ⟨.same id trivial, hs⟩
  case task o =>
    split at h
    case h_1 => contradiction
    case h_2 =>
      split at h
      case isTrue hp => cases h; exact ⟨.attempt id hp fun _ => .rfl, hs⟩
      case isFalse   => contradiction
  case ready fd revents r =>
    rw [Option.map_eq_some_iff] at h
    have ⟨a, ha, he⟩ := h
    have hm := List.mem_of_find?_eq_some ha
    cases he
    refine ⟨?_, hs⟩
    show Changes s.connector _ (s.connector.handleChannel a revents r)
    rw [Connector.handleChannel]
    split
    case isTrue hw  =>
      rw [Connector.handleWrite_pending hv hm r]
      exact .finish (and_iff_right hw) trivial hm
    case isFalse hw => exact .same (fun h => hw h.left) trivial

structure Started (errorCb : Bool) (s : State α) : Prop where
  valid   : s.connector.Valid
  started : s.started
  errorCb : s.connector.errorCb = errorCb

namespace Started

theorem new : Started errorCb (State.new errorCb : State α) where
  valid   := ⟨rfl, by simp [State.new, Connector.new], List.nodup_nil⟩
  started := rfl
  errorCb := rfl

theorem changes (h : Started errorCb s) (e : s.step act = some s') :
    Changes s.connector act s'.connector :=
  (changes_of_step h.valid h.started e).left

theorem step (h : Started errorCb s) (e : s.step act = some s') : Started errorCb s' where
  valid   := (h.changes e).valid h.valid
  started := (changes_of_step h.valid h.started e).right
  errorCb := (h.changes e).errorCb_eq.trans h.errorCb

theorem run (h : Started errorCb s) (e : Steps (Steps.Of State.step) s acts s') :
    Started errorCb s' :=
  e.invariant (P := Started errorCb) step h

theorem lost_run (h : Started errorCb s) (hl : s.connector.Lost a)
    (e : Steps (Steps.Of State.step) s acts s') :
    s'.connector.Lost a := by
  induction e
  case refl => exact hl
  case step hr _ hi => exact hi (h.step hr) ((h.changes hr).lost h.valid hl)

theorem addressed_iff (h : Started errorCb s) (e : Steps (Steps.Of State.step) s acts s') :
    s'.connector.Addressed ↔ s.connector.Addressed ∧ ∀ act ∈ acts, ¬act.ReadsBound errorCb := by
  induction e
  case refl => simp
  case step hr _ hi =>
    rw [hi (h.step hr), (h.changes hr).addressed_iff, h.errorCb, List.forall_mem_cons, and_assoc]

theorem kept_run [DecidableEq α] (h : Started errorCb s) (hk : s.connector.Kept)
    (hc : ∀ act ∈ acts, act.Connects errorCb) (e : Steps (Steps.Of State.step) s acts s') :
    s'.connector.Kept := by
  induction e
  case refl => exact hk
  case step hr _ hi =>
    have ⟨ha, hc⟩ := List.forall_mem_cons.mp hc
    exact hi (h.step hr) ((h.changes hr).kept h.valid hk (h.errorCb ▸ ha)) hc

end Started

variable [DecidableEq α]

theorem placed_iff (e : Steps (Steps.Of State.step) (State.new errorCb) acts s) :
    s.connector.Placed ↔ ∀ act ∈ acts, act.Connects errorCb where
  mp h act ha := by
    by_contra hc
    have ⟨as₁, as₂, has⟩ := List.append_of_mem ha
    have ⟨s₁, e₁, e₂⟩ := (has ▸ e).split
    have h₁ := Started.new.run e₁
    cases e₂
    case step hr e₂ =>
      have ⟨a, hl⟩ := (h₁.changes hr).broken h₁.valid (h₁.errorCb ▸ hc)
      exact ((h₁.step hr).lost_run hl e₂).not_placed h
  mpr hc := by
    have hk : (State.new errorCb : State α).connector.Kept :=
      ⟨.nil, by simp [State.new, Connector.new], fun _ => by simp [State.new, Connector.new]⟩
    exact (Started.new.kept_run hk hc e).placed (Started.new.run e).valid

theorem conserved_iff (e : Steps (Steps.Of State.step) (State.new errorCb) acts s) :
    s.connector.Conserved ↔ ∀ act ∈ acts, act.Connects errorCb ∧ ¬act.ReadsBound errorCb := by
  have hn : (State.new errorCb : State α).connector.Addressed :=
    ⟨List.forall_mem_nil _, List.forall_mem_nil _⟩
  have hp := placed_iff e
  have ha := Started.new.addressed_iff e
  constructor
  case mp =>
    intro h act hm
    exact ⟨hp.mp h.placed act hm, (ha.mp h.addressed).right act hm⟩
  case mpr =>
    intro h
    exact ⟨hp.mpr fun act hm => (h act hm).left, ha.mpr ⟨hn, fun act hm => (h act hm).right⟩⟩

theorem conserved_of_two_attempts :
    ∃ s : State Nat, Steps (Steps.Of State.step) (State.new false)
      [.connect 1 ⟨5, .success, .error 0⟩, .post 2, .task ⟨6, .inProgress, .error 0⟩,
        .ready 6 Events.POLLOUT (.error 111)] s ∧
      s.connector.handed = [(⟨0, 5, 1⟩, some 1)] ∧ s.connector.closed = [⟨1, 6, 2⟩] ∧
      s.connector.Conserved := by
  refine ⟨_, Steps.of_isSome ?run, ?handed, ?closed,
    (conserved_iff (Steps.of_isSome ?run)).mpr ?answers⟩
  case run     => decide +kernel
  case handed  => decide +kernel
  case closed  => decide +kernel
  case answers =>
    simp [Act.Connects, Connector.Connects, Act.ReadsBound, Connected.isFailed]

-- `::connect` fails at once: the descriptor is left open, and nobody is told. An attempt that
-- succeeds later is handed over with an address that has been freed.
theorem not_conserved_of_failure :
    (∃ s : State Nat,
      Steps (Steps.Of State.step) (State.new true) [.connect 1 ⟨5, .failed 101, .error 0⟩] s ∧
      s.connector.attempts = [⟨0, 5, 1⟩] ∧ s.connector.connMap = [] ∧ s.connector.handed = [] ∧
      s.connector.closed = [] ∧ s.connector.errors = [] ∧ ¬s.connector.Conserved) ∧
    ∃ s : State Nat, Steps (Steps.Of State.step) (State.new true)
      [.connect 1 ⟨5, .inProgress, .error 0⟩, .ready 5 Events.POLLOUT (.error 0)] s ∧
      s.connector.handed = [(⟨0, 5, 1⟩, none)] ∧ ¬s.connector.Conserved := by
  constructor
  case left =>
    obtain ⟨s, e, ha, hp, hh, hc, he⟩ : ∃ s : State Nat,
        Steps (Steps.Of State.step) (State.new true) [.connect 1 ⟨5, .failed 101, .error 0⟩] s ∧
        s.connector.attempts = [⟨0, 5, 1⟩] ∧ s.connector.connMap = [] ∧ s.connector.handed = [] ∧
        s.connector.closed = [] ∧ s.connector.errors = [] := by
      refine ⟨_, Steps.of_isSome ?_, ?_⟩
      all_goals decide +kernel
    refine ⟨s, e, ha, hp, hh, hc, he, fun h => ?_⟩
    have hn := h.placed.place ⟨0, 5, 1⟩ (by simp [ha]) (by decide)
    simp [hp, hh, hc] at hn
  case right =>
    obtain ⟨s, e, hh⟩ : ∃ s : State Nat, Steps (Steps.Of State.step) (State.new true)
        [.connect 1 ⟨5, .inProgress, .error 0⟩, .ready 5 Events.POLLOUT (.error 0)] s ∧
        s.connector.handed = [(⟨0, 5, 1⟩, none)] := by
      refine ⟨_, Steps.of_isSome ?_, ?_⟩
      all_goals decide +kernel
    refine ⟨s, e, hh, fun h => ?_⟩
    have hn := h.addressed.handed (⟨0, 5, 1⟩, none) (by simp [hh])
    contradiction

end Connecting
end Bounce
