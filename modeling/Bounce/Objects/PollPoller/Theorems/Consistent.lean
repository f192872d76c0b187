import Bounce.Objects.PollPoller.Watch

namespace Bounce.PollPoller

variable {χ : Type} [DecidableEq χ]

def Registered (p : PollPoller χ) (c : χ) : Prop :=
  p.channels[(p.channel c).fd]? = some (some c)

structure Distinct (p : PollPoller χ) : Prop where
  fd_inj    : ∀ {c c'}, (p.channel c).fd = (p.channel c').fd → c = c'
  fd_nonneg : ∀ c, 0 ≤ (p.channel c).fd

structure Consistent (p : PollPoller χ) : Prop extends Distinct p where
  size_eq   : p.channels.size = p.pollfds.size
  keys      : ∀ {k v}, p.channels[k]? = some v → ∃ c, v = some c ∧ (p.channel c).fd = k
  index_lt  : ∀ {c}, p.Registered c → (p.channel c).index < p.pollfds.size
  entry_fd  : ∀ {c e}, p.slot c = some e → e.fd = (p.channel c).fd ∨ e.fd = -(p.channel c).fd - 1
  index_inj : ∀ {c c'}, p.Registered c → p.Registered c' →
    (p.channel c).index = (p.channel c').index → c = c'
  owner     : ∀ {i}, i < p.pollfds.size → ∃ c, p.Registered c ∧ (p.channel c).index = i

theorem new_consistent {fd : χ → Int} (hi : Function.Injective fd) (hn : ∀ c, 0 ≤ fd c) :
    (new fd).Consistent where
  fd_inj h := hi h
  fd_nonneg := hn
  size_eq := rfl
  keys h := by simp [new] at h
  index_lt h := by simp [new, Registered] at h
  entry_fd h := by simp [new, slot] at h
  index_inj h := by simp [new, Registered] at h
  owner h := by simp [new] at h

variable {p p' : PollPoller χ} {c c' : χ}

theorem slot_of_registered (h : p.Registered c) : p.slot c = p.pollfds[(p.channel c).index]? :=
  if_pos h

theorem slot_of_not_registered (h : ¬p.Registered c) : p.slot c = none :=
  if_neg h

theorem slot_update {entry : Option PollFd} (hc : p'.slot c = entry)
    (hr : ∀ c', c' ≠ c → (p'.Registered c' ↔ p.Registered c'))
    (he : ∀ c', c' ≠ c → p.Registered c' →
      p'.pollfds[(p'.channel c').index]? = p.pollfds[(p.channel c').index]?) :
    p'.slot = Function.update p.slot c entry := by
  funext c'
  by_cases hn : c' = c
  case pos => rw [hn, Function.update_self, hc]
  case neg =>
    rw [Function.update_of_ne hn]
    by_cases hr' : p.Registered c'
    case pos => rw [slot_of_registered hr', slot_of_registered ((hr c' hn).mpr hr'), he c' hn hr']
    case neg => rw [slot_of_not_registered hr', slot_of_not_registered (mt (hr c' hn).mp hr')]

namespace Consistent

theorem registered_iff_mem (h : p.Consistent) : p.Registered c ↔ (p.channel c).fd ∈ p.channels := by
  rw [Std.TreeMap.mem_iff_isSome_getElem?, Option.isSome_iff_exists]
  constructor
  case mp => exact fun hr => ⟨_, hr⟩
  case mpr =>
    intro ⟨v, hv⟩
    have ⟨c', hc, hf⟩ := h.keys hv
    rw [hc, h.fd_inj hf] at hv
    exact hv

theorem slot_isSome (h : p.Consistent) : (p.slot c).isSome ↔ p.Registered c := by
  by_cases hr : p.Registered c
  case pos => simp [slot_of_registered hr, hr, h.index_lt hr]
  case neg => simp [slot_of_not_registered hr, hr]

end Consistent

-- Whatever the events of a channel become, its place in the tables stays.
section set

variable {channel : Channel} (hf : channel.fd = (p.channel c).fd)
  (hi : channel.index = (p.channel c).index)

include hf in
theorem set_fd (c' : χ) : ((p.set c channel).channel c').fd = (p.channel c').fd := by
  by_cases hc : c' = c <;> simp [set, Function.update, hc, hf]

include hi in
theorem set_index (c' : χ) : ((p.set c channel).channel c').index = (p.channel c').index := by
  by_cases hc : c' = c <;> simp [set, Function.update, hc, hi]

include hf in
theorem set_registered (c' : χ) : (p.set c channel).Registered c' ↔ p.Registered c' := by
  rw [Registered, set_fd hf]
  rfl

include hf hi in
theorem set_slot (c' : χ) : (p.set c channel).slot c' = p.slot c' := by
  rw [slot, set_fd hf, set_index hi]
  rfl

include hf hi in
theorem Consistent.set (h : p.Consistent) : (p.set c channel).Consistent where
  fd_inj hc := h.fd_inj (by simpa only [set_fd hf] using hc)
  fd_nonneg c' := set_fd hf c' ▸ h.fd_nonneg c'
  size_eq := h.size_eq
  keys hk := by simpa only [set_fd hf] using h.keys hk
  index_lt hr := set_index hi _ ▸ h.index_lt ((set_registered hf _).mp hr)
  entry_fd he := set_fd hf _ ▸ h.entry_fd ((set_slot hf hi _).symm.trans he)
  index_inj h₁ h₂ hc :=
    h.index_inj ((set_registered hf _).mp h₁) ((set_registered hf _).mp h₂)
      (by simpa only [set_index hi] using hc)
  owner ho := by simpa only [set_registered hf, set_index hi] using h.owner ho

end set

structure Effect (p p' : PollPoller χ) (c : χ) (entry : Option PollFd) : Prop where
  consistent : p'.Consistent
  fd         : ∀ c', (p'.channel c').fd = (p.channel c').fd
  events     : ∀ c', (p'.channel c').events = (p.channel c').events
  slot       : p'.slot = Function.update p.slot c entry

omit [DecidableEq χ] in
theorem Distinct.of_fd (h : p.Distinct) (hf : ∀ c, (p'.channel c).fd = (p.channel c).fd) :
    p'.Distinct where
  fd_inj hc    := h.fd_inj (by simpa only [hf] using hc)
  fd_nonneg c' := hf c' ▸ h.fd_nonneg c'

theorem Consistent.entry_fd_update {entry : Option PollFd} (h : p.Consistent)
    (hf : ∀ c, (p'.channel c).fd = (p.channel c).fd) (hs : p'.slot = Function.update p.slot c entry)
    (he : ∀ e, entry = some e → e.fd = (p.channel c).fd ∨ e.fd = -(p.channel c).fd - 1)
    {c' : χ} {e : PollFd} (hc : p'.slot c' = some e) :
    e.fd = (p'.channel c').fd ∨ e.fd = -(p'.channel c').fd - 1 := by
  rw [hs, Function.update_apply] at hc
  rw [hf]
  split at hc
  case isTrue heq => exact heq ▸ he e hc
  case isFalse    => exact h.entry_fd hc

theorem updateChannel_registered (h : p.Consistent) (hr : p.Registered c) :
    ∃ p', p.updateChannel c = .ok p' ∧ Effect p p' c (some (entry (p.channel c))) := by
  have hi := h.index_lt hr
  have hm := h.registered_iff_mem.mp hr
  let p' := { p with pollfds := p.pollfds.set (p.channel c).index (entry (p.channel c)) }
  have hfd : ∀ c', (p'.channel c').fd = (p.channel c').fd := fun _ => rfl
  have hreg : ∀ c', p'.Registered c' ↔ p.Registered c' := fun _ => .rfl
  have hsize : p'.pollfds.size = p.pollfds.size := by simp [p']
  have hslot : p'.slot = Function.update p.slot c (entry (p.channel c)) := by
    refine slot_update ?_ (fun _ _ => .rfl) fun c' hn hr' => ?_
    · rw [slot_of_registered ((hreg c).mpr hr)]
      exact Array.getElem?_set_self hi
    · exact Array.getElem?_set_ne hi fun he => hn (h.index_inj hr hr' he).symm
  refine ⟨p', by simp [updateChannel, hm, hi, p'], ?_⟩
  constructor
  case consistent =>
    constructor
    case toDistinct => exact h.toDistinct.of_fd hfd
    case size_eq    => exact hsize ▸ h.size_eq
    case keys       => exact h.keys
    case index_lt   => simpa only [hreg, hsize] using @h.index_lt
    case index_inj  => exact h.index_inj
    case owner      => simpa only [hreg, hsize] using @h.owner
    case entry_fd   => exact h.entry_fd_update hfd hslot (by grind [entry])
  case slot => exact hslot
  all_goals exact fun _ => rfl

theorem updateChannel_new (h : p.Consistent) (hr : ¬p.Registered c) :
    ∃ p', p.updateChannel c = .ok p' ∧ Effect p p' c (some (newEntry (p.channel c))) := by
  have hm := h.registered_iff_mem.not.mp hr
  let p' := { p with
    channels := p.channels.insert (p.channel c).fd c
    pollfds  := p.pollfds.push (newEntry (p.channel c))
    channel  := Function.update p.channel c ((p.channel c).setIndex p.pollfds.size) }
  have hfd : ∀ c', (p'.channel c').fd = (p.channel c').fd := by
    grind [Function.update, Channel.setIndex]
  have hidx : ∀ c', (p'.channel c').index =
      if c' = c then p.pollfds.size else (p.channel c').index := by
    grind [Function.update, Channel.setIndex]
  have hreg : ∀ c', p'.Registered c' ↔ c' = c ∨ p.Registered c' := by
    intro c'
    have := @h.fd_inj c c'
    grind [Registered]
  have hslot : p'.slot = Function.update p.slot c (newEntry (p.channel c)) := by
    refine slot_update ?_ (by simp +contextual [hreg]) fun c' hn hr' => ?_
    · rw [slot_of_registered ((hreg c).mpr (.inl rfl)), hidx, if_pos rfl]
      exact Array.getElem?_push_size
    · rw [hidx, if_neg hn, Array.getElem?_push, if_neg (Nat.ne_of_lt (h.index_lt hr'))]
  refine ⟨p', by simp [updateChannel, hm, p'], ?_⟩
  constructor
  case consistent =>
    constructor
    case toDistinct => exact h.toDistinct.of_fd hfd
    case size_eq =>
      have := h.size_eq
      grind
    case keys =>
      intro k v hv
      have := @h.keys k v
      grind
    case index_lt =>
      intro c' hc
      have := @h.index_lt c'
      grind
    case entry_fd => exact h.entry_fd_update hfd hslot (by grind [newEntry])
    case index_inj =>
      intro c₁ c₂ h₁ h₂
      have := @h.index_lt c₁
      have := @h.index_lt c₂
      have := @h.index_inj c₁ c₂
      grind
    case owner =>
      intro i hi
      have := @h.owner i
      grind
  case fd     => exact hfd
  case events => grind [Function.update, Channel.setIndex]
  case slot   => exact hslot

-- The entry in the last slot, which `removeChannel` has to move, shows its descriptor.
def LastVisible (p : PollPoller χ) (c : χ) : Prop :=
  p.Registered c → (p.channel c).index ≠ p.pollfds.size - 1 →
    ∀ e, p.pollfds[p.pollfds.size - 1]? = some e → 0 ≤ e.fd

theorem last_found (h : p.Consistent) (hr : p.Registered c) (hv : p.LastVisible c)
    (hl : (p.channel c).index ≠ p.pollfds.size - 1) :
    ∃ l e, p.Registered l ∧ l ≠ c ∧ (p.channel l).index = p.pollfds.size - 1 ∧
      p.pollfds[p.pollfds.size - 1]? = some e ∧ e.fd = (p.channel l).fd := by
  have hi := h.index_lt hr
  have hlast : p.pollfds.size - 1 < p.pollfds.size := by omega
  have ⟨l, hr', hl'⟩ := h.owner hlast
  have he : p.pollfds[p.pollfds.size - 1]? = some p.pollfds[p.pollfds.size - 1] := by
    simp [hlast]
  have hs := h.entry_fd ((slot_of_registered hr').trans (by rw [hl', he]))
  refine ⟨l, _, hr', fun hc => hl (hc ▸ hl'), hl', he, ?_⟩
  have := hv hr hl _ he
  have := h.fd_nonneg l
  omega

theorem removeChannel_last (h : p.Consistent) (hr : p.Registered c)
    (hl : (p.channel c).index = p.pollfds.size - 1) :
    ∃ p', p.removeChannel c = .ok p' ∧ Effect p p' c none := by
  have hm := h.registered_iff_mem.mp hr
  have hi := h.index_lt hr
  let p' := { p with
    channels := p.channels.erase (p.channel c).fd
    pollfds  := p.pollfds.pop }
  have hfd : ∀ c', (p'.channel c').fd = (p.channel c').fd := fun _ => rfl
  have hreg : ∀ c', p'.Registered c' ↔ c' ≠ c ∧ p.Registered c' := by
    intro c'
    have := @h.fd_inj c c'
    grind [Registered]
  have hslot : p'.slot = Function.update p.slot c none := by
    refine slot_update (slot_of_not_registered (by simp [hreg]))
      (by simp +contextual [hreg]) fun c' hn hr' => ?_
    have hlt := h.index_lt hr'
    have hne : (p.channel c').index ≠ p.pollfds.size - 1 :=
      fun he => hn (h.index_inj hr' hr (he.trans hl.symm))
    have hpop : (p.channel c').index < p.pollfds.size - 1 := by omega
    exact Array.getElem?_pop.trans (if_pos hpop)
  refine ⟨p', by simp [removeChannel, hm, hl, p'], ?_⟩
  constructor
  case consistent =>
    constructor
    case toDistinct => exact h.toDistinct.of_fd hfd
    case size_eq =>
      have := h.size_eq
      grind
    case keys =>
      intro k v hv
      have := @h.keys k v
      grind
    case index_lt =>
      intro c' hc
      have := @h.index_lt c'
      have := @h.index_inj c c'
      grind
    case entry_fd => exact h.entry_fd_update hfd hslot nofun
    case index_inj =>
      intro c₁ c₂ h₁ h₂
      exact h.index_inj ((hreg _).mp h₁).right ((hreg _).mp h₂).right
    case owner =>
      intro i hi
      have := @h.owner i
      grind
  case slot => exact hslot
  all_goals exact fun _ => rfl

theorem removeChannel_swap (h : p.Consistent) (hr : p.Registered c) (hv : p.LastVisible c)
    (hl : (p.channel c).index ≠ p.pollfds.size - 1) :
    ∃ p', p.removeChannel c = .ok p' ∧ Effect p p' c none := by
  have hm := h.registered_iff_mem.mp hr
  have hi := h.index_lt hr
  have ⟨l, e, hrl, hlc, hil, he, hfe⟩ := last_found h hr hv hl
  have hfound : (p.channels.erase (p.channel c).fd)[e.fd]? = some (some l) := by
    have : (p.channel c).fd ≠ (p.channel l).fd := fun hc => hlc (h.fd_inj hc.symm)
    grind [Registered]
  let p' := { p with
    channels := p.channels.erase (p.channel c).fd
    channel  := Function.update p.channel l ((p.channel l).setIndex (p.channel c).index)
    pollfds  := (p.pollfds.swapIfInBounds (p.channel c).index (p.pollfds.size - 1)).pop }
  have hfd : ∀ c', (p'.channel c').fd = (p.channel c').fd := by
    grind [Function.update, Channel.setIndex]
  have hidx : ∀ c', (p'.channel c').index =
      if c' = l then (p.channel c).index else (p.channel c').index := by
    grind [Function.update, Channel.setIndex]
  have hreg : ∀ c', p'.Registered c' ↔ c' ≠ c ∧ p.Registered c' := by
    intro c'
    have := @h.fd_inj c c'
    grind [Registered]
  have hslot : p'.slot = Function.update p.slot c none := by
    refine slot_update (slot_of_not_registered (by simp [hreg]))
      (by simp +contextual [hreg]) fun c' hn hr' => ?_
    have hlt := h.index_lt hr'
    have hlast : p.pollfds.size - 1 < p.pollfds.size := by omega
    have hne : (p.channel c').index ≠ (p.channel c).index := fun he => hn (h.index_inj hr' hr he)
    rw [hidx, Array.getElem?_pop, Array.size_swapIfInBounds, Array.swapIfInBounds_def, dif_pos hi,
      dif_pos hlast, Array.getElem?_swap]
    by_cases hc : c' = l
    case pos =>
      rw [if_pos hc, if_pos (by omega), if_neg hl.symm, if_pos rfl, hc, hil]
      exact (Array.getElem?_eq_getElem hlast).symm
    case neg =>
      have hne' : (p.channel c').index ≠ p.pollfds.size - 1 :=
        fun he => hc (h.index_inj hr' hrl (he.trans hil.symm))
      rw [if_neg hc, if_pos (by omega), if_neg hne'.symm, if_neg hne.symm]
  refine ⟨p', ?ok, ?effect⟩
  case ok => simp [removeChannel, hm, hl, he, hfound, p', Array.getElem?_eq_getElem hi]
  constructor
  case consistent =>
    constructor
    case toDistinct => exact h.toDistinct.of_fd hfd
    case size_eq =>
      have := h.size_eq
      grind
    case keys =>
      intro k v hv
      have := @h.keys k v
      grind
    case index_lt =>
      intro c' hc
      have := @h.index_lt c'
      have := @h.index_inj l c'
      grind
    case entry_fd => exact h.entry_fd_update hfd hslot nofun
    case index_inj =>
      intro c₁ c₂ h₁ h₂
      have := @h.index_inj c₁ c₂
      have := @h.index_inj c c₁
      have := @h.index_inj c c₂
      grind
    case owner =>
      intro i hi
      have := @h.owner i
      grind
  case fd     => exact hfd
  case events => grind [Function.update, Channel.setIndex]
  case slot   => exact hslot

theorem removeChannel_not_registered (h : p.Consistent) (hr : ¬p.Registered c) :
    p.removeChannel c = .ok p ∧ Effect p p c none where
  left := by simp [removeChannel, h.registered_iff_mem.not.mp hr]
  right := {
    consistent := h
    fd := fun _ => rfl
    events := fun _ => rfl
    slot := by rw [← slot_of_not_registered hr, Function.update_eq_self]
  }

-- A hidden descriptor is never a key, so that `operator[]` puts a null pointer in its place.
theorem removeChannel_error (h : p.Consistent) (hv : ¬p.LastVisible c) :
    ∃ p', p.removeChannel c = .error p' := by
  simp only [LastVisible, Classical.not_imp, not_forall] at hv
  have ⟨hr, hl, e, he, hn⟩ := hv
  have hm := h.registered_iff_mem.mp hr
  have hi := h.index_lt hr
  have hnone : (p.channels.erase (p.channel c).fd)[e.fd]? = none := by
    have := @h.keys e.fd
    have := h.fd_nonneg
    grind
  exact ⟨_, by simp [removeChannel, hm, hl, he, hnone, Array.getElem?_eq_getElem hi]; rfl⟩

end Bounce.PollPoller
