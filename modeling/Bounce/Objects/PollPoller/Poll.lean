import Bounce.Objects.PollPoller.Theorems.Run
import Mathlib.Data.List.Nodup
import Mathlib.Data.Set.List

namespace Bounce.PollPoller

structure Answer where
  rNum    : Int
  revents : Nat → Events

variable {χ : Type}

def receive (p : PollPoller χ) (a : Answer) : PollPoller χ :=
  { p with pollfds := p.pollfds.mapIdx fun i e => { e with revents := a.revents i } }

section

variable [DecidableEq χ]

def setRevents (p : PollPoller χ) (c : χ) (revents : Events) : PollPoller χ :=
  p.set c ((p.channel c).setRevents revents)

-- The loop over the entries. It compares `count` with `r_num`, but does not increment it. The
-- result is `none` where it goes through a null pointer, or through the end of `channels_`.
def fill (rNum count : Int) : List PollFd → PollPoller χ → List χ → Option (PollPoller χ × List χ)
  | [], p, active => some (p, active)
  | it :: entries, p, active =>
    if count ≥ rNum then
      some (p, active)
    else if it.revents.toInt > 0 then
      match p.channels[it.fd]? with
      | some (some c) => fill rNum count entries (p.setRevents c it.revents) (active ++ [c])
      | _             => none
    else
      fill rNum count entries p active

def poll (p : PollPoller χ) (a : Answer) (active : List χ) : Option (PollPoller χ × List χ) :=
  let p := p.receive a
  if a.rNum > 0 then fill a.rNum 0 p.pollfds.toList p active else some (p, active)

end

structure Owns (p : PollPoller χ) (c : χ) : Prop where
  registered : p.Registered c
  fd         : ∃ e, p.pollfds[(p.channel c).index]? = some e ∧ (0 ≤ e.fd → e.fd = (p.channel c).fd)

def Owned (p : PollPoller χ) : Prop :=
  ∀ i < p.pollfds.size, ∃ c, p.Owns c ∧ (p.channel c).index = i

def ready (p : PollPoller χ) (a : Answer) : List Nat :=
  (List.range p.pollfds.size).filter (a.revents · ≠ 0)

structure Answers (p : PollPoller χ) (a : Answer) : Prop where
  pos    : 0 < a.rNum
  rNum   : a.rNum = (p.ready a).length
  nonneg : ∀ i < p.pollfds.size, 0 ≤ (a.revents i).toInt
  hidden : ∀ i e, p.pollfds[i]? = some e → e.fd < 0 → a.revents i = 0

structure Reports (p : PollPoller χ) (a : Answer) (xs : List (χ × Events)) : Prop where
  index   : xs.map (fun x => (p.channel x.1).index) = p.ready a
  owns    : ∀ x ∈ xs, p.Owns x.1
  revents : ∀ x ∈ xs, x.2 = a.revents (p.channel x.1).index

variable {p : PollPoller χ} {a : Answer} {c : χ} {i : Nat} {xs : List (χ × Events)}

theorem Consistent.owned [DecidableEq χ] (h : p.Consistent) : p.Owned := by
  intro i hi
  have ⟨c, hr, hc⟩ := h.owner hi
  have he : p.pollfds[(p.channel c).index]? = some p.pollfds[i] := by
    rw [hc, Array.getElem?_eq_getElem hi]
  refine ⟨c, ⟨hr, _, he, fun hn => ?_⟩, hc⟩
  have hf := h.entry_fd ((slot_of_registered hr).trans he)
  have := h.fd_nonneg c
  omega

theorem mem_ready_iff : i ∈ p.ready a ↔ i < p.pollfds.size ∧ a.revents i ≠ 0 := by
  simp [ready]

theorem Owned.reports (h : p.Owned) (a : Answer) : ∃ xs, p.Reports a xs := by
  have hm : p.ready a ∈ Set.range (List.map fun c : { c // p.Owns c } => (p.channel c).index) := by
    rw [Set.range_list_map]
    intro i hi
    have ⟨c, hc, hi⟩ := h i (mem_ready_iff.mp hi).left
    exact ⟨⟨c, hc⟩, hi⟩
  have ⟨cs, hcs⟩ := hm
  have hx : ∀ x ∈ cs.map fun c : { c // p.Owns c } => (c.1, a.revents (p.channel c).index),
      p.Owns x.1 ∧ x.2 = a.revents (p.channel x.1).index := by
    intro x hx
    have ⟨c, _, hx⟩ := List.mem_map.mp hx
    exact hx ▸ ⟨c.2, rfl⟩
  exact ⟨_, by simpa [Function.comp_def] using hcs, fun x h => (hx x h).left,
    fun x h => (hx x h).right⟩

namespace Reports

theorem nodup (h : p.Reports a xs) : (xs.map (·.1)).Nodup := by
  refine List.Nodup.of_map (fun c => (p.channel c).index) ?_
  rw [List.map_map]
  exact h.index ▸ List.nodup_range.filter _

theorem ready (h : p.Reports a xs) {x : χ × Events} (hx : x ∈ xs) :
    (p.channel x.1).index ∈ p.ready a :=
  h.index ▸ List.mem_map_of_mem hx

theorem found (h : p.Reports a xs) (ha : p.Answers a) {x : χ × Events} (hx : x ∈ xs) :
    ∃ e, p.pollfds[(p.channel x.1).index]? = some e ∧ p.channels[e.fd]? = some (some x.1) := by
  have ho := h.owns x hx
  have ⟨e, he, hf⟩ := ho.fd
  have hn : 0 ≤ e.fd := by
    by_contra hn
    exact (mem_ready_iff.mp (h.ready hx)).right (ha.hidden _ e he (Int.not_le.mp hn))
  exact ⟨e, he, hf hn ▸ ho.registered⟩

theorem mem_iff (h : p.Reports a xs) (ha : p.Answers a) :
    c ∈ xs.map (·.1) ↔ p.Owns c ∧ a.revents (p.channel c).index ≠ 0 := by
  constructor
  case mp =>
    intro hc
    have ⟨x, hx, hxc⟩ := List.mem_map.mp hc
    subst hxc
    exact ⟨h.owns x hx, (mem_ready_iff.mp (h.ready hx)).right⟩
  case mpr =>
    intro ⟨ho, hz⟩
    have ⟨e, he, hf⟩ := ho.fd
    have ⟨hi, _⟩ := Array.getElem?_eq_some_iff.mp he
    have ⟨x, hx, hxi⟩ := List.mem_map.mp (h.index ▸ mem_ready_iff.mpr ⟨hi, hz⟩)
    have ⟨e', he', hr⟩ := h.found ha hx
    have hee : e' = e := Option.some.inj ((hxi ▸ he').symm.trans he)
    have hn : 0 ≤ e.fd := by
      by_contra hn
      exact hz (ha.hidden _ e he (Int.not_le.mp hn))
    rw [hee, hf hn, ho.registered] at hr
    exact List.mem_map.mpr ⟨x, hx, (Option.some.inj (Option.some.inj hr)).symm⟩

end Reports

variable [DecidableEq χ]

def mark (p : PollPoller χ) (xs : List (χ × Events)) : PollPoller χ :=
  xs.foldl (fun p x => p.setRevents x.1 x.2) p

theorem mark_revents_of_not_mem (h : c ∉ xs.map (·.1)) :
    ((p.mark xs).channel c).revents = (p.channel c).revents := by
  induction xs generalizing p
  case nil => rfl
  case cons x xs hi =>
    rw [List.map_cons, List.mem_cons, not_or] at h
    have hs : (p.setRevents x.1 x.2).channel c = p.channel c := Function.update_of_ne h.left ..
    exact (hi h.right).trans (congrArg Channel.revents hs)

theorem mark_revents {x : χ × Events} (hn : (xs.map (·.1)).Nodup) (hx : x ∈ xs) :
    ((p.mark xs).channel x.1).revents = x.2 := by
  induction xs generalizing p
  case nil => contradiction
  case cons y xs hi =>
    have ⟨hy, hn⟩ := List.nodup_cons.mp hn
    cases hx
    case head =>
      have hs : ((p.setRevents x.1 x.2).channel x.1).revents = x.2 := by
        simp [setRevents, PollPoller.set, Channel.setRevents]
      exact (mark_revents_of_not_mem hy).trans hs
    case tail hx => exact hi hn hx

theorem fill_eq {rNum : Int} {entries : List PollFd} {active : List χ} (hr : 0 < rNum)
    (h : (entries.filter fun e => 0 < e.revents.toInt).map
      (fun e => (p.channels[e.fd]?, e.revents)) =
      xs.map fun x => (some (some x.1), x.2)) :
    fill rNum 0 entries p active = some (p.mark xs, active ++ xs.map (·.1)) := by
  induction entries generalizing p active xs
  case nil =>
    have hx : xs = [] := by simpa using h.symm
    simp [fill, mark, hx]
  case cons it entries hi =>
    rw [fill, if_neg (Int.not_le.mpr hr)]
    by_cases hp : 0 < it.revents.toInt
    case neg =>
      rw [List.filter_cons_of_neg (by simp [hp])] at h
      rw [if_neg hp]
      exact hi h
    case pos =>
      rw [List.filter_cons_of_pos (by simp [hp])] at h
      cases xs
      case nil => simp at h
      case cons x xs =>
        have ⟨hx, h⟩ := List.cons.inj h
        have ⟨hf, he⟩ := Prod.mk.inj hx
        have hi : fill rNum 0 entries (p.setRevents x.1 x.2) (active ++ [x.1]) = _ := hi h
        rw [if_pos hp, hf, he]
        simp [hi, mark]

omit [DecidableEq χ] in
theorem receive_entries (p : PollPoller χ) (a : Answer) :
    (p.receive a).pollfds.toList = (List.range p.pollfds.size).map fun i =>
      { p.pollfds[i]?.getD ⟨0, 0, 0⟩ with revents := a.revents i } := by
  refine List.ext_getElem (by simp [receive]) fun i hi _ => ?_
  have hi : i < p.pollfds.size := by simpa [receive] using hi
  simp [receive, hi]

theorem revents_pos_iff {revents : Events} (h : 0 ≤ revents.toInt) :
    0 < revents.toInt ↔ revents ≠ 0 := by
  have hz : revents = 0 ↔ revents.toInt = 0 := BitVec.toInt_inj.symm
  rw [ne_eq, hz]
  omega

theorem poll_eq (h : p.Reports a xs) (ha : p.Answers a) (active : List χ) :
    p.poll a active = some ((p.receive a).mark xs, active ++ xs.map (·.1)) := by
  have hready : (List.range p.pollfds.size).filter (fun i => 0 < (a.revents i).toInt) =
      p.ready a := by
    refine List.filter_congr fun i hi => ?_
    have hn := ha.nonneg i (List.mem_range.mp hi)
    exact decide_eq_decide.mpr (revents_pos_iff hn)
  rw [poll, if_pos ha.pos]
  refine fill_eq ha.pos ?_
  rw [receive_entries, List.filter_map, List.map_map]
  simp only [Function.comp_def, hready]
  rw [← h.index, List.map_map]
  refine List.map_congr_left fun x hx => ?_
  have ⟨e, he, hc⟩ := h.found ha hx
  simp only [Function.comp_apply, he, Option.getD_some, receive, hc, h.revents x hx]

end Bounce.PollPoller
