import Bounce.Objects.PollPoller.Poll

namespace Bounce

-- One round of `EventLoop::loop`, from the return of `poll` to the tasks. Here `active` is the part
-- of `active_channels_` that the loop has not got to, and `handled` lists the calls of
-- `handleChannel` with the `revents_` that the channel had then.
structure Dispatch (χ : Type) where
  poller     : PollPoller χ
  active     : List χ
  curChannel : Option χ
  handled    : List (χ × Events)

namespace Dispatch

variable {χ : Type} [DecidableEq χ]

def start (p : PollPoller χ) (a : PollPoller.Answer) : Option (Dispatch χ) :=
  (p.poll a []).map fun (p, active) => ⟨p, active, none, []⟩

inductive Act (χ : Type)
  | handle
  | call (call : PollPoller.Call χ)
  | finish

-- A handler may make any calls on any channels, also on new ones.
inductive Step : Dispatch χ → Act χ → Dispatch χ → Prop
  | handle {s c active} :
    s.active = c :: active →
    Step s .handle { s with
      active     := active
      curChannel := some c
      handled    := s.handled ++ [(c, (s.poller.channel c).revents)] }
  | call {s c call p} :
    s.curChannel = some c → PollPoller.Step s.poller call p →
    Step s (.call call) { s with poller := p }
  | finish {s} :
    s.active = [] → Step s .finish { s with curChannel := none }

end Dispatch

namespace PollPoller

variable {χ : Type} [DecidableEq χ] {p p' : PollPoller χ} {call : Call χ}

theorem set_revents {c : χ} {channel : Channel}
    (h : channel.revents = (p.channel c).revents) (c' : χ) :
    ((p.set c channel).channel c').revents = (p.channel c').revents := by
  by_cases hc : c' = c <;> simp [set, Function.update, hc, h]

theorem updateChannel_revents {c : χ} (h : p.updateChannel c = .ok p') (c' : χ) :
    (p'.channel c').revents = (p.channel c').revents := by
  simp only [updateChannel] at h
  split at h
  case isTrue =>
    split at h
    case isTrue  => cases h; rfl
    case isFalse => contradiction
  case isFalse =>
    cases h
    exact @set_revents _ _ p c ((p.channel c).setIndex p.pollfds.size) rfl c'

theorem removeChannel_revents {c : χ} (h : p.removeChannel c = .ok p') (c' : χ) :
    (p'.channel c').revents = (p.channel c').revents := by
  simp only [removeChannel] at h
  split at h
  case isFalse => cases h; rfl
  case isTrue =>
    split at h
    case isFalse => cases h; rfl
    case isTrue =>
      split at h
      case h_2 => contradiction
      case h_1 =>
        split at h
        case h_2 | h_3 => contradiction
        case h_1 l _ =>
          cases h
          exact @set_revents _ _ p l ((p.channel l).setIndex (p.channel c).index) rfl c'

theorem update_revents {c : χ} {channel : Channel} (e : (p.set c channel).updateChannel c = .ok p')
    (h : channel.revents = (p.channel c).revents) (c' : χ) :
    (p'.channel c').revents = (p.channel c').revents :=
  (updateChannel_revents e c').trans (set_revents h c')

theorem Step.revents (e : Step p call p') (c : χ) :
    (p'.channel c).revents = (p.channel c).revents := by
  cases call
  case remove         => exact removeChannel_revents e c
  case enableReading  => exact update_revents e rfl c
  case disableReading => exact update_revents e rfl c
  case enableWriting  => exact update_revents e rfl c
  case disableWriting => exact update_revents e rfl c
  case disableAll     => exact update_revents e rfl c

end PollPoller

namespace Dispatch

open PollPoller

variable {χ : Type} [DecidableEq χ] {p : PollPoller χ} {a : Answer} {xs : List (χ × Events)}
variable {s s₁ s₂ : Dispatch χ} {act : Act χ} {acts : List (Act χ)}

structure Handles (xs : List (χ × Events)) (s : Dispatch χ) : Prop where
  handled : s.handled ++ s.active.map (fun c => (c, (s.poller.channel c).revents)) = xs
  revents : ∀ x ∈ xs, (s.poller.channel x.1).revents = x.2

theorem Handles.step (h : s₁.Handles xs) (e : Step s₁ act s₂) : s₂.Handles xs := by
  cases e
  case handle ha =>
    refine ⟨?_, h.revents⟩
    simpa [ha] using h.handled
  case call hp =>
    have hr := hp.revents
    exact ⟨by simpa only [hr] using h.handled, fun x hx => (hr x.1).trans (h.revents x hx)⟩
  case finish => exact ⟨h.handled, h.revents⟩

theorem start_handles (h : p.Reports a xs) (ha : p.Answers a) :
    ∃ s, start p a = some s ∧ s.Handles xs := by
  have hr : ∀ x ∈ xs, (((p.receive a).mark xs).channel x.1).revents = x.2 :=
    fun x hx => mark_revents h.nodup hx
  have hm : xs.map ((fun c => (c, (((p.receive a).mark xs).channel c).revents)) ∘ Prod.fst) =
      xs.map id :=
    List.map_congr_left fun x hx => Prod.ext rfl (hr x hx)
  refine ⟨⟨(p.receive a).mark xs, xs.map (·.1), none, []⟩, ?_, ?_, hr⟩
  case refine_1 => rw [start, poll_eq h ha, List.nil_append, Option.map_some]
  case refine_2 => rw [List.nil_append, List.map_map, hm, List.map_id]

theorem handles_reports (ho : p.Owned) (ha : p.Answers a) :
    ∃ xs s₀, start p a = some s₀ ∧ xs.map (fun x => (p.channel x.1).index) = p.ready a ∧
      (∀ x ∈ xs, x.2 = a.revents (p.channel x.1).index) ∧ (xs.map (·.1)).Nodup ∧
      (∀ c, c ∈ xs.map (·.1) ↔ p.Owns c ∧ a.revents (p.channel c).index ≠ 0) ∧
      ∀ acts s, Steps Step s₀ acts s →
        s.handled ++ s.active.map (fun c => (c, (s.poller.channel c).revents)) = xs ∧
        ∀ x ∈ xs, (s.poller.channel x.1).revents = x.2 := by
  have ⟨xs, h⟩ := ho.reports a
  have ⟨s₀, hs, hh⟩ := start_handles h ha
  refine ⟨xs, s₀, hs, h.index, h.revents, h.nodup, fun c => h.mem_iff ha, fun acts s e => ?_⟩
  have hh := e.invariant (fun h e => h.step e) hh
  exact ⟨hh.handled, hh.revents⟩

theorem handles_two_channels :
    ∃ p : PollPoller Bool, ∃ s₀ s xs,
      (PollPoller.new fun b => if b then 4 else 3).run
        [.enableReading false, .enableReading true] = .ok p ∧
      start p ⟨2, fun _ => Events.POLLIN⟩ = some s₀ ∧
      Steps Step s₀ [.handle, .call (.disableAll true), .handle, .finish] s ∧
      s.handled = xs ∧ xs.map (fun x => (p.channel x.1).index) = [0, 1] ∧
      ∀ x ∈ xs, x.2 = Events.POLLIN := by
  have hi : Function.Injective fun b : Bool => if b then (4 : Int) else 3 := by
    intro b b' h
    cases b <;> cases b' <;> simp_all
  have hn : ∀ b : Bool, (0 : Int) ≤ if b then 4 else 3 := by
    decide
  have ⟨p, s₀, s, hp, hs, e, hact, hfd⟩ : ∃ p : PollPoller Bool, ∃ s₀ s,
      (PollPoller.new fun b => if b then 4 else 3).run
        [.enableReading false, .enableReading true] = .ok p ∧
      start p ⟨2, fun _ => Events.POLLIN⟩ = some s₀ ∧
      Steps Step s₀ [.handle, .call (.disableAll true), .handle, .finish] s ∧ s.active = [] ∧
      p.pollfds = #[⟨3, Channel.kReadEvent, 0⟩, ⟨4, Channel.kReadEvent, 0⟩] :=
    ⟨_, _, _, rfl, rfl, .step (.handle rfl) (.step (.call rfl rfl) (.step (.handle rfl)
      (.single (.finish rfl)))), rfl, rfl⟩
  have hr : p.ready ⟨2, fun _ => Events.POLLIN⟩ = [0, 1] := by
    simp [ready, hfd, Events.POLLIN, List.range_succ]
  have ha : p.Answers ⟨2, fun _ => Events.POLLIN⟩ := {
    pos    := by decide
    rNum   := by rw [hr]; rfl
    nonneg := fun _ _ => (by decide : 0 ≤ Events.POLLIN.toInt)
    hidden := by
      intro i e he hn
      have hm := Array.mem_of_getElem? he
      simp only [hfd, List.mem_toArray, List.mem_cons, List.not_mem_nil, or_false] at hm
      cases hm
      case inl hm => exact absurd hn (hm ▸ by decide)
      case inr hm => exact absurd hn (hm ▸ by decide)
  }
  have hc := run_consistent (run_iff.mp hp) (new_consistent hi hn)
  obtain ⟨xs, _, hs', hx, hrev, _, _, hrun⟩ := handles_reports hc.owned ha
  cases Option.some.inj (hs.symm.trans hs')
  have hh := (hrun _ s e).left
  rw [hact, List.map_nil, List.append_nil] at hh
  exact ⟨p, s₀, s, xs, hp, hs, e, hh, hx.trans hr, hrev⟩

end Dispatch
end Bounce
