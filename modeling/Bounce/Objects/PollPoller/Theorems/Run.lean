import Bounce.Library.Steps
import Bounce.Objects.PollPoller.Theorems.Consistent

namespace Bounce.PollPoller

variable {χ : Type} [DecidableEq χ] {p p₁ p₂ : PollPoller χ} {c : χ} {call : Call χ}

def Step (p₁ : PollPoller χ) (call : Call χ) (p₂ : PollPoller χ) : Prop :=
  call.exec p₁ = .ok p₂

-- Every call but the removal of a channel, whose place the last entry takes, is without conditions.
def Safe (p : PollPoller χ) : Call χ → Prop
  | .remove c => p.LastVisible c
  | _         => True

structure Refines (p₁ : PollPoller χ) (call : Call χ) (p₂ : PollPoller χ) : Prop where
  consistent : p₂.Consistent
  watch      : p₂.watch =
    Function.update p₁.watch call.channel (call.onWatch (p₁.watch call.channel))

theorem updateChannel_effect (h : p.Consistent) (c : χ) :
    ∃ p', p.updateChannel c = .ok p' ∧ Effect p p' c (p.watch c).update.slot := by
  by_cases hr : p.Registered c
  case pos =>
    have ⟨p', ho, he⟩ := updateChannel_registered h hr
    refine ⟨p', ho, ?_⟩
    have hs := h.slot_isSome.mpr hr
    simpa [Watch.update, watch, hs, entry, Channel.isNoneEvent] using he
  case neg =>
    obtain ⟨p', ho, he⟩ := updateChannel_new h hr
    refine ⟨p', ho, ?_⟩
    simpa [Watch.update, watch, slot_of_not_registered hr, newEntry] using he

theorem removeChannel_effect (h : p.Consistent) (hv : p.LastVisible c) :
    ∃ p', p.removeChannel c = .ok p' ∧ Effect p p' c none := by
  by_cases hr : p.Registered c
  case neg => exact ⟨p, removeChannel_not_registered h hr⟩
  by_cases hl : (p.channel c).index = p.pollfds.size - 1
  case pos => exact removeChannel_last h hr hl
  case neg => exact removeChannel_swap h hr hv hl

theorem Effect.watch {p' : PollPoller χ} {entry : Option PollFd} (e : Effect p p' c entry) :
    p'.watch = Function.update p.watch c { p.watch c with slot := entry } := by
  funext c'
  by_cases hc : c' = c
  case pos =>
    subst hc
    simp [PollPoller.watch, e.fd, e.events, e.slot]
  case neg => simp [PollPoller.watch, e.fd, e.events, e.slot, hc]

theorem set_watch {channel : Channel} (hf : channel.fd = (p.channel c).fd)
    (hi : channel.index = (p.channel c).index) :
    (p.set c channel).watch =
      Function.update p.watch c { p.watch c with events := channel.events } := by
  funext c'
  rw [watch, set_fd hf, set_slot hf hi]
  by_cases hc : c' = c
  case pos =>
    subst hc
    simp [watch, set]
  case neg => simp [watch, set, hc]

theorem update_refines (h : p.Consistent) (channel : Channel)
    (hf : channel.fd = (p.channel c).fd) (hi : channel.index = (p.channel c).index) :
    ∃ p', (p.set c channel).updateChannel c = .ok p' ∧ p'.Consistent ∧
      p'.watch = Function.update p.watch c { p.watch c with events := channel.events }.update := by
  have ⟨p', ho, he⟩ := updateChannel_effect (h.set hf hi) c
  refine ⟨p', ho, he.consistent, ?_⟩
  rw [he.watch, set_watch hf hi, Function.update_self, Function.update_idem]
  rfl

theorem exec_refines (h : p.Consistent) (hs : p.Safe call) :
    ∃ p', Step p call p' ∧ p'.Consistent ∧
      p'.watch = Function.update p.watch call.channel (call.onWatch (p.watch call.channel)) := by
  cases call
  case remove =>
    have ⟨p', ho, he⟩ := removeChannel_effect h hs
    exact ⟨p', ho, he.consistent, he.watch⟩
  case enableReading c  => exact update_refines h (p.channel c).enableReading rfl rfl
  case disableReading c => exact update_refines h (p.channel c).disableReading rfl rfl
  case enableWriting c  => exact update_refines h (p.channel c).enableWriting rfl rfl
  case disableWriting c => exact update_refines h (p.channel c).disableWriting rfl rfl
  case disableAll c     => exact update_refines h (p.channel c).disableAll rfl rfl

theorem exec_error (h : p.Consistent) (hs : ¬p.Safe call) : ∃ p', call.exec p = .error p' := by
  cases call
  case remove => exact removeChannel_error h hs
  all_goals exact absurd trivial hs

theorem safe_iff (h : p.Consistent) : p.Safe call ↔ ∃ p', Step p call p' := by
  constructor
  case mp =>
    intro hs
    have ⟨p', ho, _⟩ := exec_refines h hs
    exact ⟨p', ho⟩
  case mpr =>
    intro ⟨p', ho⟩
    by_contra hs
    have ⟨_, he⟩ := exec_error h hs
    rw [Step, he] at ho
    contradiction

theorem Step.refines (h : p₁.Consistent) (e : Step p₁ call p₂) : Refines p₁ call p₂ := by
  have ⟨_, ho, hc, hw⟩ := exec_refines h ((safe_iff h).mpr ⟨_, e⟩)
  cases (show Except.ok _ = Except.ok _ from ho.symm.trans e)
  exact ⟨hc, hw⟩

variable {calls : List (Call χ)}

theorem run_consistent (e : Steps Step p₁ calls p₂) (h : p₁.Consistent) : p₂.Consistent :=
  e.invariant (fun h e => (e.refines h).consistent) h

def WatchStep (w₁ : χ → Watch) (call : Call χ) (w₂ : χ → Watch) : Prop :=
  w₂ = Function.update w₁ call.channel (call.onWatch (w₁ call.channel))

theorem run_watch (e : Steps Step p₁ calls p₂) (h : p₁.Consistent) :
    Steps WatchStep p₁.watch calls p₂.watch :=
  e.simulate watch (fun h e => (e.refines h).consistent) (fun h e => (e.refines h).watch) h

theorem removal_frame {c' : χ} (h : p₁.Consistent) (e : Step p₁ (.remove c) p₂) (hc : c' ≠ c) :
    p₂.slot c' = p₁.slot c' := by
  have := congrFun (e.refines h).watch c'
  rw [Call.channel, Function.update_of_ne hc] at this
  exact congrArg Watch.slot this

def run (p : PollPoller χ) : List (Call χ) → Outcome χ
  | [] => .ok p
  | call :: calls =>
    match call.exec p with
    | .ok p'    => p'.run calls
    | .error p' => .error p'

theorem run_iff : p₁.run calls = .ok p₂ ↔ Steps Step p₁ calls p₂ := by
  constructor
  case mp =>
    intro h
    induction calls generalizing p₁
    case nil =>
      cases h
      exact .refl
    case cons hi =>
      simp only [run] at h
      split at h
      case h_1 ho => exact .step ho (hi h)
      case h_2    => contradiction
  case mpr =>
    intro e
    induction e
    case refl => rfl
    case step h _ hi => rw [run, h]; exact hi

theorem safe_of_run (e : Steps Step p₁ calls p₂) (h : p₁.Consistent) :
    Steps (Steps.When Safe Step) p₁ calls p₂ := by
  induction e
  case refl => exact .refl
  case step hs _ hi => exact .step ⟨(safe_iff h).mpr ⟨_, hs⟩, hs⟩ (hi (hs.refines h).consistent)

theorem consistent_of_safe {fd : χ → Int} (hi : Function.Injective fd) (hn : ∀ c, 0 ≤ fd c)
    (e : Steps (Steps.When Safe Step) (new fd) calls p) :
    p.Consistent ∧
    (∀ c, p.Registered c → p.LastVisible c → (p.channel c).index ≠ p.pollfds.size - 1 →
      ∃ l e, p.Registered l ∧ l ≠ c ∧ (p.channel l).index = p.pollfds.size - 1 ∧
        p.pollfds[p.pollfds.size - 1]? = some e ∧ e.fd = (p.channel l).fd) ∧
    (∀ c p', Step p (.remove c) p' → ∀ c', c' ≠ c → p'.slot c' = p.slot c') ∧
    (∀ call, p.Safe call ↔ ∃ p', Step p call p') := by
  have h := run_consistent e.forget (new_consistent hi hn)
  exact ⟨h, fun _ => last_found h, fun _ _ hs _ => removal_frame h hs, fun _ => safe_iff h⟩

theorem consistent_of_removal :
    ∃ p : PollPoller Bool,
      p.pollfds = #[⟨4, Channel.kReadEvent, 0⟩] ∧ p.Consistent := by
  have hi : Function.Injective fun b : Bool => if b then (4 : Int) else 3 := by
    intro b b' h
    cases b <;> cases b' <;> simp_all
  have hn : ∀ b : Bool, (0 : Int) ≤ if b then 4 else 3 := by
    decide
  have e : Steps Step (new fun b => if b then 4 else 3)
      [.enableReading false, .enableReading true, .disableAll false, .remove false] _ :=
    run_iff.mp rfl
  exact ⟨_, rfl, (consistent_of_safe hi hn (safe_of_run e (new_consistent hi hn))).left⟩

-- Two connections close in one round, and the first one is removed while the other one, which is in
-- the last slot, is disabled: the lookup by `-4 - 1` puts a null pointer in `channels`.
theorem removal_of_hidden_last :
    ∃ p p' : PollPoller Bool,
      (new fun b => if b then 4 else 3).run
        [.enableReading false, .enableReading true, .disableAll false, .disableAll true] = .ok p ∧
      Call.exec p (.remove false) = .error p' ∧ p'.channels[(-5 : Int)]? = some none := by
  refine ⟨_, _, rfl, rfl, ?_⟩
  decide +kernel

end Bounce.PollPoller
