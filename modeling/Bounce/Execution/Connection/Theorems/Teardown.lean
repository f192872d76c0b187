import Bounce.Execution.Connection.Theorems.Places
import Bounce.Objects.TcpConnection.Theorems

namespace Bounce.Connection

variable {θ : Type} [DecidableEq θ] {cfg : Callbacks} {own base t : θ} {s s' s₀ : State θ}
variable {act : Act θ} {c c' : Connection θ} {code : Code θ} {codes rest : List (Code θ)}
variable {answer : Answer} {api : Api}

-- The store of `shutdown` and `forceClose`, and `handleClose` for an event or the end of the
-- stream.
def Code.untested : Code θ → Bool
  | .store .disconnecting => true
  | .handleClose forced   => !forced
  | _                     => false

def State.KeepsClosed (s : State θ) : Act θ → Prop
  | .exec t _ => s.conn.state = .disconnected → ∀ code ∈ (s.stack t).head?, ¬code.untested
  | _         => True

omit [DecidableEq θ] in
instance {s : State θ} : ∀ act, Decidable (s.KeepsClosed act)
  | .exec t _ => inferInstanceAs <| Decidable <|
    s.conn.state = .disconnected → ∀ code ∈ (s.stack t).head?, ¬code.untested
  | .call _ _ | .poll _ _ | .dispatch _ | .swap _ | .task _ | .finish _ => .isTrue trivial

def Task.Closing : Task θ → Prop
  | .removeConnectionInLoop | .destroyConnection => True
  | _                                            => False

def Code.Closing : Code θ → Prop
  | .task f | .queue f     => f.Closing
  | .store state           => state = .disconnected
  | .closeCb | .removeChannel => True
  | _                      => False

def closes (c : Connection θ) : Nat :=
  c.trace.count .handleClose

structure Quiet (c c' : Connection θ) : Prop where
  state  : c'.state = c.state
  closes : c'.closes = c.closes
  events : c.state = .disconnected → c.channel.events = 0 → c'.channel = c.channel
  slot   : c.channel.slot ≠ none → c'.channel.slot ≠ none

omit [DecidableEq θ] in
theorem Quiet.refl : Quiet c c :=
  ⟨rfl, rfl, fun _ _ => rfl, id⟩

omit [DecidableEq θ] in
theorem Quiet.log {e : Event} (h : e ≠ .handleClose) : Quiet c (c.log e) :=
  ⟨rfl, by simp [Connection.closes, Connection.log, h], fun _ _ => rfl, id⟩

theorem Calls.quiet (hc : Calls own t c api c' codes) : Quiet c c' := by
  cases hc <;> exact ⟨rfl, rfl, fun _ _ => rfl, id⟩

theorem Runs.quiet (hr : Runs cfg base t c code answer c' codes) (hh : code.Home own base t) :
    Quiet c c' ∨
      (∃ state, code = .store state ∧ c' = { c with state := state }) ∨
      (∃ forced, code = .handleClose forced ∧
        c' = { c with toTcpConnection := c.handleClose }.log .handleClose) ∨
      (code = .removeChannel ∧ c' = { c with channel := c.channel.remove }) := by
  cases hr
  case connectComplete => contradiction
  case store           => exact .inr (.inl ⟨_, rfl, rfl⟩)
  case handleClose     => exact .inr (.inr (.inl ⟨_, rfl, rfl⟩))
  case removeChannel   => exact .inr (.inr (.inr ⟨rfl, rfl⟩))
  case sendInLoop =>
    refine .inl ⟨TcpConnection.sendInLoop_state, rfl, fun hs _ => ?_, TcpConnection.sendInLoop_slot⟩
    rw [TcpConnection.sendInLoop_disconnected hs]
  case handleWrite =>
    refine .inl ⟨TcpConnection.handleWrite_state, rfl, fun _ he => ?_,
      TcpConnection.handleWrite_slot⟩
    rw [TcpConnection.handleWrite_idle (Watch.isWriting_of_events he)]
  case shutdownInLoop | checkDisconnecting =>
    have hc : c.shutdownInLoop.channel = c.channel := TcpConnection.shutdownInLoop_channel
    exact .inl ⟨TcpConnection.shutdownInLoop_state, rfl, fun _ _ => hc, fun h => hc ▸ h⟩
  case callback | closeCb => exact .inl (.log (by simp))
  all_goals exact .inl ⟨rfl, rfl, fun _ _ => rfl, id⟩

structure Sound (c : Connection θ) : Prop where
  state : c.state = .disconnected ↔ 0 < c.closes
  once  : c.closes ≤ 1
  idle  : c.state = .disconnected → c.channel.events = 0
  slot  : c.channel.slot = none → c.state = .disconnected

structure Closed (own base : θ) (s : State θ) : Prop where
  placed : Placed own base s
  topped : Topped own s
  sound  : s.conn.Sound
  -- Nothing happens between the test of `forceCloseInLoop` and its call of `handleClose`.
  forced : ∀ rest, s.stack own = .handleClose true :: rest → s.conn.state ≠ .disconnected
  after  : Everywhere (fun _ code => code.Closing → 0 < s.conn.closes)
    (fun _ task => task.Closing → 0 < s.conn.closes) s

inductive Changes (c : Connection θ) : Connection θ → Prop
  | quiet {x : Connection θ} : Quiet c x → Changes c x
  | disconnecting : c.state ≠ .disconnected → Changes c { c with state := .disconnecting }
  | handleClose :
    c.state ≠ .disconnected →
    Changes c ({ c with toTcpConnection := c.handleClose }.log .handleClose)
  | remove : c.state = .disconnected → Changes c { c with channel := c.channel.remove }

theorem Closed.exec (h : Closed own base s) (hk : s.KeepsClosed (.exec t answer))
    (hs : s.stack t = code :: rest) (hr : Runs cfg base t s.conn code answer c' codes) :
    Changes s.conn c' := by
  have hm : code ∈ s.stack t := hs ▸ List.mem_cons_self
  have hh := h.placed.home.code t code hm
  have ha := h.after.code t code hm
  obtain hq | ⟨state, rfl, rfl⟩ | ⟨forced, rfl, rfl⟩ | ⟨rfl, rfl⟩ := hr.quiet hh
  · exact .quiet hq
  · cases state
    case disconnecting =>
      exact .disconnecting fun he => hk he (.store .disconnecting) (by simp [hs]) rfl
    case disconnected =>
      have he := h.sound.state.mpr (ha rfl)
      exact .quiet ⟨he.symm, rfl, fun _ _ => rfl, id⟩
    all_goals contradiction
  · cases forced
    case false => exact .handleClose fun he => hk he (.handleClose false) (by simp [hs]) rfl
    case true =>
      have ht : t = own := hh
      exact .handleClose (h.forced rest (ht ▸ hs))
  · exact .remove (h.sound.state.mpr (ha trivial))

namespace Changes

omit [DecidableEq θ] in
theorem absorb (h : Changes c c') (hi : c.state = .disconnected → c.channel.events = 0)
    (hs : c.state = .disconnected) :
    c'.state = .disconnected ∧ (c.channel.slot = none → c'.channel.slot = none) := by
  cases h
  case quiet hq => exact ⟨hq.state.trans hs, fun hn => by rw [hq.events hs (hi hs), hn]⟩
  case disconnecting hn => contradiction
  case handleClose hn   => contradiction
  case remove           => exact ⟨hs, fun _ => rfl⟩

omit [DecidableEq θ] in
theorem closes_le (h : Changes c c') : c.closes ≤ c'.closes := by
  cases h
  case quiet hq    => exact Nat.le_of_eq hq.closes.symm
  case handleClose => simp [closes, log]
  all_goals exact Nat.le_refl _

omit [DecidableEq θ] in
theorem sound (h : Changes c c') (hc : c.Sound) : c'.Sound := by
  cases h
  case quiet hq =>
    refine ⟨?_, hq.closes ▸ hc.once, fun hs => ?_, fun hs => ?_⟩
    · rw [hq.state, hq.closes]
      exact hc.state
    · have hs := hq.state.symm.trans hs
      rw [hq.events hs (hc.idle hs)]
      exact hc.idle hs
    · rw [hq.state]
      exact hc.slot (not_not.mp fun hn => hq.slot hn hs)
  case disconnecting hn =>
    refine ⟨⟨fun he => ?_, fun hp => absurd (hc.state.mpr hp) hn⟩, hc.once, fun he => ?_,
      fun hs => ?_⟩
    · contradiction
    · contradiction
    · exact absurd (hc.slot hs) hn
  case handleClose hn =>
    have hz : c.closes = 0 := Nat.eq_zero_of_not_pos fun hp => hn (hc.state.mpr hp)
    have ho : ({ c with toTcpConnection := c.handleClose }.log .handleClose).closes = 1 := by
      rw [closes] at hz
      simp [closes, Connection.log, hz]
    exact ⟨⟨fun _ => by simp [ho], fun _ => rfl⟩, Nat.le_of_eq ho, fun _ => rfl, fun _ => rfl⟩
  case remove hs => exact ⟨hc.state, hc.once, hc.idle, fun _ => hs⟩

end Changes

theorem Runs.closing (hr : Runs cfg base t c code answer c' codes)
    (hm : ∃ code ∈ codes, code.Closing) :
    code.Closing ∨ (c'.state = .disconnected ∧ 0 < c'.closes) := by
  have ⟨code', hm, hc⟩ := hm
  cases hr.leaves code' hm
  case close =>
    cases hr
    exact .inr ⟨rfl, by simp [closes, log]⟩
  case disconnect | remove | removal | pushRemoval => exact .inl trivial
  all_goals contradiction

theorem Runs.forced (hr : Runs cfg base t c code answer c' (.handleClose true :: codes)) :
    c'.state ≠ .disconnected := by
  cases hr.leaves _ List.mem_cons_self
  case forceClose =>
    cases hr
    assumption

theorem Calls.not_closing (hc : Calls own t c api c' codes) :
    ∀ code ∈ codes, ¬code.Closing ∧ code ≠ .handleClose true := by
  intro code hm
  cases hc.puts code hm
  case store => exact ⟨nofun, nofun⟩
  all_goals exact ⟨id, nofun⟩

namespace Closed

theorem changes (h : Closed own base s) (hk : s.KeepsClosed act) (e : Step cfg own base s act s') :
    Changes s.conn s'.conn := by
  cases e
  case call       => exact .quiet (call_cases ..).quiet
  case exec hs hr => exact h.exec hk hs (run_cases hr)
  all_goals exact .quiet .refl

theorem resume_forced {r : Connection θ × List (Code θ)} (ho : ∀ code ∈ rest, ¬code.Urgent own)
    (hr : ∀ codes, r.2 = .handleClose true :: codes → r.1.state ≠ .disconnected)
    (hf : t ≠ own → ∀ rest, s.stack own = .handleClose true :: rest → r.1.state ≠ .disconnected) :
    ∀ rest', (s.resume t r rest).stack own = .handleClose true :: rest' →
      r.1.state ≠ .disconnected := by
  intro rest' hs
  by_cases ht : t = own
  case neg => exact hf ht rest' (by simpa [State.resume, Ne.symm ht] using hs)
  case pos =>
    have hs : r.2 ++ rest = .handleClose true :: rest' := by simpa [State.resume, ht] using hs
    cases hc : r.2
    case nil =>
      rw [hc, List.nil_append] at hs
      exact absurd rfl (ho (.handleClose true) (hs ▸ List.mem_cons_self))
    case cons code codes =>
      rw [hc, List.cons_append, List.cons.injEq] at hs
      exact hr codes (hs.left ▸ hc)

theorem exec_foreign (hr : Runs cfg base t c code answer c' codes) (hh : code.Home own base t)
    (ht : t ≠ own) (hs : c.state ≠ .disconnected) : c'.state ≠ .disconnected := by
  obtain hq | ⟨state, rfl, rfl⟩ | ⟨_, rfl, _⟩ | ⟨rfl, _⟩ := hr.quiet hh
  · rwa [hq.state]
  · cases state
    case disconnecting => simp
    all_goals contradiction
  · contradiction
  · contradiction

theorem step_forced (h : Closed own base s) (e : Step cfg own base s act s') :
    ∀ rest, s'.stack own = .handleClose true :: rest → s'.conn.state ≠ .disconnected := by
  have ho : ∀ {t code rest}, s.stack t = code :: rest → ∀ code ∈ rest, ¬code.Urgent own := by
    intro t code rest hs code' hm
    exact h.topped t code' (by rwa [hs])
  cases e
  case call hc =>
    refine resume_forced (h.topped.not_urgent hc) (fun codes hr => ?_) fun _ rest hs => ?_
    · exact absurd rfl ((call_cases ..).not_closing _ (hr ▸ List.mem_cons_self)).right
    · rw [(call_cases ..).quiet.state]
      exact h.forced rest hs
  case exec t code rest answer r hs hr =>
    have hh := h.placed.home.code t code (hs ▸ List.mem_cons_self)
    refine resume_forced (ho hs) (fun codes hc => ?_) fun ht rest hf => ?_
    · exact (hc ▸ run_cases hr).forced
    · exact exec_foreign (run_cases hr) hh ht (h.forced rest hf)
  case queue hs =>
    exact resume_forced (s := s.setQueue _ _) (ho hs) (fun _ hr => nomatch hr) fun _ => h.forced
  case remove hs =>
    refine resume_forced (s := { s with mapped := false }) (ho hs) (fun _ hr => ?_)
      fun _ => h.forced
    split at hr <;> simp at hr
  case dispatch revents _ _ =>
    refine resume_forced (s := s.setPhase _ _) (by simp) (fun codes hr => ?_) fun _ => h.forced
    have hm : Code.handleClose true ∈ handleChannel revents := hr ▸ List.mem_cons_self
    have hm := mem_handleChannel hm
    simp at hm
  case task =>
    exact resume_forced (s := s.setQueue _ _)
      (by simp) (fun _ hr => by simp at hr) fun _ => h.forced
  case poll | swap | finish => exact h.forced

theorem step (h : Closed own base s) (hk : s.KeepsClosed act) (e : Step cfg own base s act s') :
    Closed own base s' where
  placed := h.placed.step e
  topped := h.topped.step e
  sound  := (h.changes hk e).sound h.sound
  forced := h.step_forced e
  after  := by
    have hl : s.conn.closes ≤ s'.conn.closes := (h.changes hk e).closes_le
    refine h.after.step e ?_
    exact {
      code     := fun _ _ h hc => Nat.lt_of_lt_of_le (h hc) hl
      task     := fun _ _ h hc => Nat.lt_of_lt_of_le (h hc) hl
      call     := fun _ _ _ code hm hc => absurd hc ((call_cases ..).not_closing code hm).left
      run      := by
        intro t code rest answer r _ he hs hc hr code' hm hc'
        cases (run_cases hr).closing ⟨code', hm, hc'⟩
        case inl hc'' => exact Nat.lt_of_lt_of_le (hc hc'') hl
        case inr hp   => exact he ▸ hp.right
      queue    := fun _ _ _ _ h hc => Nat.lt_of_lt_of_le (h hc) hl
      remove   := fun _ _ _ h hc => Nat.lt_of_lt_of_le (h hc) hl
      dispatch := by
        intro t revents _ code hm hc
        obtain rfl | rfl | rfl | rfl := mem_handleChannel hm <;> contradiction
      start    := fun _ _ h hc => Nat.lt_of_lt_of_le (h hc) hl
    }

theorem run {acts : List (Act θ)} (h : Closed own base s)
    (e : Steps (Steps.When State.KeepsClosed (Step cfg own base)) s acts s') :
    Closed own base s' ∧ (s.conn.state = .disconnected → s'.conn.state = .disconnected ∧
      (s.conn.channel.slot = none → s'.conn.channel.slot = none)) := by
  induction e
  case refl => exact ⟨h, fun hs => ⟨hs, id⟩⟩
  case step hr _ hi =>
    have ⟨hc, ha⟩ := hi (h.step hr.left hr.right)
    refine ⟨hc, fun hs => ?_⟩
    have ⟨hs₂, hn₂⟩ := (h.changes hr.left hr.right).absorb h.sound.idle hs
    exact ⟨(ha hs₂).left, fun hn => (ha hs₂).right (hn₂ hn)⟩

theorem broken (h : Closed own base s) (hk : ¬s.KeepsClosed act) (e : Step cfg own base s act s') :
    s.conn.state = .disconnected ∧ (s'.conn.state ≠ .disconnected ∨ 1 < s'.conn.closes) := by
  cases act
  case exec t answer =>
    simp only [State.KeepsClosed, Classical.not_imp, not_forall, not_not] at hk
    obtain ⟨hs, code, hk, hu⟩ := hk
    have hp : 0 < s.conn.closes := h.sound.state.mp hs
    refine ⟨hs, ?_⟩
    cases e
    case exec r hc hr =>
      obtain ⟨c', codes⟩ := r
      have hr := run_cases hr
      obtain rfl : _ = code := by simpa [hc] using hk
      cases hr
      case store state =>
        cases state
        case disconnecting => exact .inl (by simp [State.resume])
        all_goals contradiction
      case handleClose =>
        simp only [closes] at hp
        exact .inr (by simp [State.resume, closes, hp])
      all_goals contradiction
    case queue hc =>
      obtain rfl : _ = code := by simpa [hc] using hk
      contradiction
    case remove hc =>
      obtain rfl : _ = code := by simpa [hc] using hk
      contradiction
  all_goals simp [State.KeepsClosed] at hk

end Closed

theorem Initial.closed (h : Initial own s) : Closed own base s where
  placed := h.placed
  topped := h.topped
  sound  := by
    have ⟨initSize, fd, hc⟩ := h.conn
    rw [hc]
    exact {
      state := by simp [TcpConnection.connectComplete, closes, new]
      once  := by simp [closes, new]
      idle  := fun hs => nomatch hs
      slot  := fun hs => nomatch hs
    }
  forced rest hs := by simp [h.stack] at hs
  after := by
    constructor
    · intro t code hm
      rw [h.stack] at hm
      by_cases ht : t = own <;> simp_all [Code.Closing]
    · simp [h.queue, TaskQueue.pending, TaskQueue.empty]

-- A thread loads the state in `forceClose`, and stores the new one when all of the teardown is
-- done.
theorem closed_twice_of_late_store :
    ∃ s s' s'',
      Steps (Step ⟨true, true, true, true⟩ false false) (State.new false 8 5 : State Bool)
        [.exec false .none, .exec false .none, .call true .forceClose, .swap false, .finish false,
          .poll false (some Events.POLLHUP), .dispatch false, .exec false .none, .exec false .none,
          .exec false .none, .exec false .none, .exec false .none, .exec false .none, .swap false,
          .task false, .exec false .none, .exec false .none, .finish false] s ∧
      Steps (Step ⟨true, true, true, true⟩ false false) s [.exec true .none] s' ∧
      Steps (Step ⟨true, true, true, true⟩ false false) s'
        [.exec true .none, .poll false none, .swap false, .task false, .exec false .none,
          .exec false .none, .exec false .none, .exec false .none, .exec false .none] s'' ∧
      s.conn.state = .disconnected ∧ s.conn.channel.slot = none ∧ s'.conn.state = .disconnecting ∧
      s''.conn.closes = 2 ∧ s''.conn.trace.count .closeCb = 2 ∧ s''.conn.channel.slot.isSome := by
  refine ⟨_, _, _, State.steps_of_isSome ?_, State.steps_of_isSome ?_, State.steps_of_isSome ?_, ?_⟩
  all_goals decide +kernel

theorem closed_once_of_keepsClosed (hi : Initial own s₀) :
    (∀ acts s acts' s', Steps (Steps.When State.KeepsClosed (Step cfg own base)) s₀ acts s →
      Steps (Steps.When State.KeepsClosed (Step cfg own base)) s acts' s' →
        (s.conn.state = .disconnected → s'.conn.state = .disconnected) ∧ s'.conn.closes ≤ 1 ∧
          (s.conn.channel.slot = none → s'.conn.channel.slot = none)) ∧
    (∀ acts s act s', Steps (Steps.When State.KeepsClosed (Step cfg own base)) s₀ acts s →
      Step cfg own base s act s' → ¬s.KeepsClosed act →
        s.conn.state = .disconnected ∧ (s'.conn.state ≠ .disconnected ∨ 1 < s'.conn.closes)) where
  left _ _ _ _ e e' := by
    have h := (hi.closed.run e).left
    have ⟨h', ha⟩ := h.run e'
    exact ⟨fun hs => (ha hs).left, h'.sound.once, fun hn => (ha (h.sound.slot hn)).right hn⟩
  right _ _ _ _ e h hk := (hi.closed.run e).left.broken hk h

theorem closed_once_of_peer_close :
    ∃ s, Steps (Steps.When State.KeepsClosed (Step ⟨true, true, true, true⟩ false false))
      (State.new false 8 5 : State Bool)
      [.exec false .none, .exec false .none, .swap false, .finish false,
        .poll false (some Events.POLLIN), .dispatch false, .exec false (.read (.received [])),
        .exec false .none] s ∧ s.conn.closes ≤ 1 := by
  apply Exists.imp fun s e =>
    ⟨e, ((closed_once_of_keepsClosed State.new_initial).left _ s [] s e .refl).right.left⟩
  exact ⟨_, State.steps_of_guard (by decide +kernel)⟩

end Bounce.Connection
