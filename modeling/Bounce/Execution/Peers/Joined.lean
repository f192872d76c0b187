import Bounce.Execution.Peers.Basic

namespace Bounce.Joined

open Connection (Act Initial keptBytes)

variable {θ : Type} [DecidableEq θ]

structure Program (θ : Type) where
  cfg  : Callbacks
  own  : θ
  base : θ

-- Two joined ends, which are `true` and `false`, with the history of their descriptors: an end is
-- `closed` if `~Socket` has run.
structure Pair (θ : Type) where
  peer   : Bool → Peer θ
  closed : Bool → Bool
  reset  : Bool

inductive Event (θ : Type)
  | act (b : Bool) (act : Act θ)
  | close (b : Bool)
  | reset

def Pair.new (s₀ : Bool → Connection.State θ) : Pair θ where
  peer   := fun b => .new (s₀ b)
  closed := fun _ => false
  reset  := false

-- Without a `shutdownWrite` of the other end, the stream also ends for `b` with the other
-- descriptor, and with the whole connection. What is still on the way may then get lost.
def Pair.broken (s : Pair θ) (b : Bool) : Bool :=
  s.closed (!b) || s.reset

def Whole (sender receiver : Peer θ) : Prop :=
  sender.state.conn.socket.shutWr ∧ receiver.received = sender.state.conn.socket.wire

-- What the system may answer to `p`: TCP carries the bytes of the other end in their order, and in
-- any portions. Nothing can be sent behind a `shutdownWrite`.
def Carries (broken : Bool) (p other : Peer θ) : Act θ → Prop
  | .exec _ (.read (.received []))           => Whole other p ∨ broken
  | .exec _ (.read (.received (b :: bytes))) =>
    p.received ++ b :: bytes <+: other.state.conn.socket.wire
  | .exec _ (.sent r)                        => p.state.conn.socket.shutWr → r.ret ≤ 0
  | _                                        => True

instance {broken : Bool} {p other : Peer θ} : ∀ act, Decidable (Carries broken p other act)
  | .exec _ (.read (.received []))               => inferInstanceAs (Decidable ((_ ∧ _) ∨ _))
  | .exec _ (.read (.received (_ :: _)))         => inferInstanceAs (Decidable (_ <+: _))
  | .exec _ (.sent _)                            => inferInstanceAs (Decidable (_ → _))
  | .exec _ (.read (.error _)) | .exec _ .none   => .isTrue trivial
  | .call _ _ | .poll _ _ | .dispatch _          => .isTrue trivial
  | .swap _ | .task _ | .finish _                => .isTrue trivial

-- The steps of two joined ends. `~Socket` runs at any time behind the last `shared_ptr` that the
-- code itself has of the connection, as the user may have another one. The network may reset the
-- connection at any time.
inductive Step (prog : Bool → Program θ) : Pair θ → Event θ → Pair θ → Prop
  | act {s b act p} :
    s.closed b = false → Carries (s.broken b) (s.peer b) (s.peer !b) act →
    Peer.Step (prog b).cfg (prog b).own (prog b).base (s.peer b) act p →
    Step prog s (.act b act) { s with peer := Function.update s.peer b p }
  | close {s b} :
    ¬(s.peer b).state.Shared →
    Step prog s (.close b) { s with closed := Function.update s.closed b true }
  | reset {s} : Step prog s .reset { s with reset := true }

variable {prog : Bool → Program θ} {s s₁ s₂ : Pair θ} {event : Event θ} {events : List (Event θ)}
variable {p p' other : Peer θ} {a : Act θ} {cfg : Callbacks} {own base : θ} {b broken : Bool}

def step [Fintype θ] (prog : Bool → Program θ) (s : Pair θ) : Event θ → Option (Pair θ)
  | .act b act =>
    if s.closed b = false ∧ Carries (s.broken b) (s.peer b) (s.peer !b) act then
      ((s.peer b).step (prog b).cfg (prog b).own (prog b).base act).map fun p =>
        { s with peer := Function.update s.peer b p }
    else
      none
  | .close b =>
    if (s.peer b).state.Shared then
      none
    else
      some { s with closed := Function.update s.closed b true }
  | .reset => some { s with reset := true }

theorem step_sound [Fintype θ] (h : Steps.Of (step prog) s₁ event s₂) : Step prog s₁ event s₂ := by
  cases event <;> simp only [Steps.Of, step] at h
  case act b a =>
    split at h
    case isFalse   => contradiction
    case isTrue hc =>
      obtain ⟨p, hp, rfl⟩ := Option.map_eq_some_iff.mp h
      exact .act hc.left hc.right (Peer.step_sound hp)
  case close b =>
    obtain ⟨hs, h⟩ := Option.ite_none_left_eq_some.mp h
    cases h
    exact .close hs
  case reset =>
    cases h
    exact .reset

namespace Whole

theorem receive (h : Whole other p) (hc : Carries broken p other a)
    (e : Peer.Step cfg own base p a p') : Whole other p' := by
  have hr : p'.received = p.received ++ a.received := congrArg Peer.received e.right.right
  refine ⟨h.left, hr.trans ?_⟩
  obtain ⟨ha, -⟩ | ⟨t, rfl⟩ | ⟨t, b, bytes, rfl⟩ := a.received_cases
  · rw [ha, List.append_nil]
    exact h.right
  · exact (List.append_nil _).trans h.right
  · -- there is nothing behind the end of the stream
    have hl := List.IsPrefix.length_le hc
    rw [← h.right, List.length_append, List.length_cons] at hl
    omega

theorem send (h : Whole p other) (hc : Carries broken p other a)
    (e : Peer.Step cfg own base p a p') : Whole p' other := by
  have ⟨bytes, hw, hn⟩ := Peer.step_wire e.right.left
  refine ⟨Peer.step_shutWr e.right.left h.left, ?_⟩
  rw [hw, hn fun t r ha => ?_, List.append_nil]
  · exact h.right
  · subst ha
    exact hc h.left

end Whole

structure Carried (broken : Bool) (sender receiver : Peer θ) : Prop where
  bytes : receiver.received <+: sender.state.conn.socket.wire
  ended : receiver.ended → Whole sender receiver ∨ broken

namespace Carried

theorem receive (h : Carried broken other p) (hc : Carries broken p other a)
    (e : Peer.Step cfg own base p a p') : Carried broken other p' := by
  have hr : p'.received = p.received ++ a.received := congrArg Peer.received e.right.right
  have he : p'.ended = (p.ended || a.ended) := congrArg Peer.ended e.right.right
  obtain ⟨ha, hn⟩ | ⟨t, rfl⟩ | ⟨t, b, bytes, rfl⟩ := a.received_cases
  · rw [ha, List.append_nil] at hr
    rw [hn, Bool.or_false] at he
    exact ⟨hr ▸ h.bytes, fun hp => (h.ended (he ▸ hp)).imp_left (·.receive hc e)⟩
  · have hr : p'.received = p.received := hr.trans (List.append_nil _)
    refine ⟨hr ▸ h.bytes, fun _ => ?_⟩
    have hw : Whole other p ∨ broken := hc
    exact hw.imp_left (·.receive hc e)
  · refine ⟨hr ▸ hc, fun hp => ?_⟩
    have hp : p.ended := by simpa [he, Act.ended] using hp
    exact (h.ended hp).imp_left (·.receive hc e)

theorem send {broken' : Bool} (h : Carried broken p other) (hc : Carries broken' p other a)
    (e : Peer.Step cfg own base p a p') : Carried broken p' other := by
  have ⟨bytes, hw, _⟩ := Peer.step_wire e.right.left
  exact ⟨h.bytes.trans (hw ▸ List.prefix_append ..), fun he => (h.ended he).imp_left (·.send hc e)⟩

omit [DecidableEq θ] in
theorem mono {broken' : Bool} (h : Carried broken p other) (hb : broken → broken') :
    Carried broken' p other :=
  ⟨h.bytes, fun he => (h.ended he).imp_right hb⟩

end Carried

structure Invariant (prog : Bool → Program θ) (s : Pair θ) : Prop where
  kept    : ∀ b, Peer.Kept (prog b).own (prog b).base (s.peer b)
  carried : ∀ b, Carried (s.broken b) (s.peer !b) (s.peer b)

namespace Step

theorem broken_mono (e : Step prog s₁ event s₂) (h : s₁.broken b) : s₂.broken b := by
  rw [Pair.broken, Bool.or_eq_true] at h ⊢
  cases e
  case act       => exact h
  case reset     => exact .inr rfl
  case close b _ =>
    refine h.imp_left fun h => ?_
    simp only [Function.update_apply]
    split
    case isTrue  => rfl
    case isFalse => exact h

-- A relation of the two ends is kept if it is kept by the steps of each of them.
theorem preserves {P : Peer θ → Peer θ → Prop}
    (receive : ∀ {p p' other a}, P other p → Carries (s₁.broken b) p other a →
      Peer.Step (prog b).cfg (prog b).own (prog b).base p a p' → P other p')
    (send : ∀ {p p' other a}, P p other → Carries (s₁.broken !b) p other a →
      Peer.Step (prog !b).cfg (prog !b).own (prog !b).base p a p' → P p' other)
    (h : P (s₁.peer !b) (s₁.peer b)) (e : Step prog s₁ event s₂) :
    P (s₂.peer !b) (s₂.peer b) := by
  cases e
  case close | reset => exact h
  case act b' a p _ hc e =>
    dsimp only
    by_cases hb : b' = b
    case pos =>
      subst hb
      rw [Function.update_self, Function.update_of_ne (Bool.not_ne_self b')]
      exact receive h hc e
    case neg =>
      obtain rfl : b' = !b := Bool.eq_not_of_ne hb
      rw [Function.update_self, Function.update_of_ne (Ne.symm hb)]
      rw [Bool.not_not] at hc
      exact send h hc e

end Step

theorem Invariant.step (h : Invariant prog s₁) (e : Step prog s₁ event s₂) : Invariant prog s₂ where
  kept b :=
    e.preserves (P := fun _ p => Peer.Kept (prog b).own (prog b).base p)
      (fun h _ e => h.step e) (fun h _ _ => h) (h.kept b)
  carried b := (e.preserves Carried.receive Carried.send (h.carried b)).mono e.broken_mono

theorem Whole.step (h : Whole (s₁.peer !b) (s₁.peer b)) (e : Step prog s₁ event s₂) :
    Whole (s₂.peer !b) (s₂.peer b) :=
  e.preserves Whole.receive Whole.send h

theorem run_invariant {s₀ : Bool → Connection.State θ} (hi : ∀ b, Initial (prog b).own (s₀ b))
    (e : Steps (Step prog) (.new s₀) events s) : Invariant prog s :=
  e.invariant (P := Invariant prog) (fun h e => h.step e) {
    kept    := fun b => Peer.new_kept (hi b)
    carried := fun _ => ⟨List.nil_prefix, nofun⟩
  }

-- What has been received is the beginning of what has been kept of the messages that the other user
-- has sent. It is all of it for ever behind an end of the stream that came while the connection was
-- whole.
theorem delivered_of_run {s₀ : Bool → Connection.State θ} {events' : List (Event θ)}
    (hi : ∀ b, Initial (prog b).own (s₀ b)) (e₁ : Steps (Step prog) (.new s₀) events s₁)
    (e₂ : Steps (Step prog) s₁ events' s₂) (b : Bool) :
    (s₂.peer b).taken ++ (s₂.peer b).state.conn.inputBuffer.content <+:
      keptBytes (s₂.peer !b).state.conn.ran ∧
    ((s₁.peer b).ended → s₁.broken b = false →
      (s₂.peer b).taken ++ (s₂.peer b).state.conn.inputBuffer.content =
        keptBytes (s₂.peer !b).state.conn.ran ∧
      (s₂.peer !b).state.conn.ran.map (·.message) =
        (s₂.peer !b).state.conn.accepted.map (·.2)) := by
  have h₁ := run_invariant hi e₁
  have h₂ := run_invariant hi (e₁.append e₂)
  have hs := (h₂.kept !b).single.steady.streams.bytes
  rw [← (h₂.kept b).input]
  refine ⟨(h₂.carried b).bytes.trans (hs ▸ List.prefix_append ..), fun he hb => ?_⟩
  have hw : Whole (s₁.peer !b) (s₁.peer b) := ((h₁.carried b).ended he).resolve_right (by simp [hb])
  obtain ⟨hsh, hr⟩ := e₂.invariant (P := fun s => Whole (s.peer !b) (s.peer b)) Whole.step hw
  obtain ⟨hc, hm⟩ := (h₂.kept !b).closed hsh
  rw [hc, List.append_nil] at hs
  exact ⟨hr.trans hs, hm⟩

def shutdownAfterSend : List (Event Unit) :=
  (List.map (.act true) [.exec () .none, .call () (.send [1, 2]), .exec () (.sent ⟨1, .other⟩),
    .call () .shutdown, .exec () .none, .exec () .none, .exec () .none, .swap (), .finish (),
    .poll () (some Events.POLLOUT), .dispatch (), .exec () (.sent ⟨1, .other⟩), .exec () .none]) ++
  (List.map (.act false) [.exec () .none, .exec () .none, .swap (), .finish (),
    .poll () (some Events.POLLIN), .dispatch (), .exec () (.read (.received [1, 2])),
    .exec () .none,
    .call () (.retrieve 1), .exec () .none, .swap (), .finish (), .poll () (some Events.POLLIN),
    .dispatch (), .exec () (.read (.received []))])

def closeAfterEnd : List (Event Unit) :=
  (List.map (.act false) [.exec () .none, .exec () .none, .exec () .none, .exec () .none,
    .exec () .none,
    .exec () .none, .swap (), .task (), .exec () .none, .exec () .none]) ++ [.close false]

theorem delivered_of_shutdown :
    ∃ s₁ s₂ : Pair Unit, Steps (Step fun _ => ⟨⟨true, true, false, true⟩, (), ()⟩)
        (.new fun _ => .new () 8 5) shutdownAfterSend s₁ ∧
      Steps (Step fun _ => ⟨⟨true, true, false, true⟩, (), ()⟩) s₁ closeAfterEnd s₂ ∧
      (s₂.peer false).taken = [1] ∧
      (s₂.peer false).taken ++ (s₂.peer false).state.conn.inputBuffer.content =
        keptBytes (s₂.peer true).state.conn.ran ∧
      (s₂.peer true).state.conn.ran.map (·.message) =
        (s₂.peer true).state.conn.accepted.map (·.2) := by
  obtain ⟨s₁, s₂, e₁, e₂, ht, he, hb⟩ : ∃ s₁ s₂ : Pair Unit,
      Steps (Step fun _ => ⟨⟨true, true, false, true⟩, (), ()⟩)
        (.new fun _ => .new () 8 5) shutdownAfterSend s₁ ∧
      Steps (Step fun _ => ⟨⟨true, true, false, true⟩, (), ()⟩) s₁ closeAfterEnd s₂ ∧
      (s₂.peer false).taken = [1] ∧ (s₁.peer false).ended ∧ s₁.broken false = false := by
    refine ⟨_, _, (Steps.of_isSome ?_).mono step_sound, (Steps.of_isSome ?_).mono step_sound, ?_⟩
    all_goals decide +kernel
  have h := delivered_of_run (fun _ => Connection.State.new_initial) e₁ e₂ false
  exact ⟨s₁, s₂, e₁, e₂, ht, h.right he hb⟩

end Bounce.Joined
