import Bounce.Execution.Server.Removal
import Bounce.Execution.Connection.Theorems.Trace

namespace Bounce.Server

open Connection (Code Answer Api Fresh Told WellFormed)
open Tagged

variable {θ : Type} [DecidableEq θ] {cfg : Callbacks} {initSize : Nat} {base t loop : θ}
variable {s s' : State θ}
variable {act : Act θ} {c d : Nat} {n : Nat → Nat}

-- No handler of the connection goes on to a callback, or to the notice of its end, if it is down.
def State.Heeds (cfg : Callbacks) (c : Nat) (s : State θ) : Act θ → Prop
  | .exec t answer =>
    (s.conn c).state = .disconnected → ∀ x ∈ (s.stack t).head?, x.1 = c → ¬x.2.notifies cfg answer
  | _ => True

instance : ∀ act, Decidable (s.Heeds cfg c act)
  | .exec t answer => inferInstanceAs <| Decidable <|
    (s.conn c).state = .disconnected → ∀ x ∈ (s.stack t).head?, x.1 = c → ¬x.2.notifies cfg answer
  | .accept _ _ | .hold _ | .drop _ | .call _ _ _ | .poll _ _ | .dispatch _ | .swap _ | .task _
  | .finish _ =>
    .isTrue trivial

def Spoken (cfg : Callbacks) (base : θ) (c : Nat) (s : State θ) : Prop :=
  c < s.created → Fresh (s.loop c) base (s.view c) ∨ Told cfg (s.loop c) base (s.view c)

omit [DecidableEq θ] in
theorem Act.For.heeds {a : Connection.Act θ} (hf : act.For c a)
    (ht : s.top act = ((s.view c).top a).map (c, ·)) (h : s.Heeds cfg c act) :
    (s.view c).Heeds cfg a := by
  cases hf
  case exec t answer =>
    intro hs code hm
    refine h hs (c, code) ?_ rfl
    have hh : (s.stack t).head? = ((s.view c).stack t).head?.map (c, ·) := ht
    rw [hh, Option.mem_def.mp hm]
    rfl
  all_goals trivial

namespace Spoken

theorem step (h : Spoken cfg base c s) (hs : Safe base s n) (hk : s.OnLoop act)
    (hh : s.Heeds cfg c act)
    (e : Step cfg initSize base s act s') : Spoken cfg base c s' := by
  intro hc
  cases act.accept_or
  case inl ha =>
    obtain ⟨loop, fd, rfl⟩ := ha
    cases e
    case accept hb _ hf =>
      by_cases he : c = s.created
      case pos =>
        subst he
        rw [State.newConnection_loop]
        exact .inl (State.view_newConnection hs.numbered (hs.not_mem_of_accept hf))
      case neg =>
        rw [State.newConnection_loop_of_ne he, State.view_newConnection_of_ne hb he]
        exact h (Nat.lt_of_le_of_ne (Nat.le_of_lt_succ hc) he)
  case inr ha =>
    have hf := e.frame ha
    have h := h (hf.created ▸ hc)
    rw [hf.loop]
    cases e.viewed hs.turns hs.matched ha c
    case none hv _ => rw [hv]; exact h
    case step a hfor hv ht =>
      cases h
      case inl h => exact (h.step hv).left.imp id Connection.Initial.told
      case inr h => exact .inr (h.step (hfor.onLoop hk) (hfor.heeds ht hh) hv)

theorem wellFormed (h : Spoken cfg base c s) (hc : c < s.created) :
    WellFormed (s.conn c).trace := by
  cases h hc
  case inr h => exact h.wellFormed
  case inl h =>
    have ⟨initSize, fd, hn⟩ := h.conn
    have hn : (s.conn c).trace = [] := congrArg Connection.trace hn
    rw [hn]
    exact ⟨⟨[], by simp, List.nil_prefix⟩, Nat.zero_le 1⟩

theorem broken (h : Spoken cfg base c s) (hs : Safe base s n) (hh : ¬s.Heeds cfg c act)
    (e : Step cfg initSize base s act s') :
    ∃ t s'', Step cfg initSize base s' (.exec t .none) s'' ∧ ¬WellFormed (s''.conn c).trace := by
  cases act
  case exec t answer =>
    have htop : ∃ code, (s.stack t).head? = some (c, code) ∧ code.notifies cfg answer ∧
        (s.conn c).state = .disconnected := by
      simp only [State.Heeds, Classical.not_imp, not_forall, not_not] at hh
      obtain ⟨hd, ⟨d, code⟩, hm, rfl, hn⟩ := hh
      exact ⟨code, hm, hn, hd⟩
    obtain ⟨code, htop, hn, hd⟩ := htop
    have hc : c < s.created := hs.numbered.stack t _ (List.mem_of_head? htop)
    cases e.viewed hs.turns hs.matched nofun c
    case none ht => exact absurd htop (ht code)
    case step a hfor hv ht =>
      cases hfor
      have hview : ((s.view c).stack t).head? = some code := by
        have hm : (s.stack t).head? = ((s.view c).stack t).head?.map (c, ·) := ht
        rw [htop] at hm
        cases hst : ((s.view c).stack t).head? <;> simp_all
      have hb : ¬(s.view c).Heeds cfg (.exec t answer) := fun hv => hv hd code hview hn
      cases h hc
      case inl h =>
        obtain ⟨initSize, fd, hnew⟩ := h.conn
        have hst : (s.conn c).state = .connecting := congrArg (fun c : Connection θ => c.state) hnew
        cases hst.symm.trans hd
      case inr h =>
        obtain ⟨cb, guarded, rest, r, hst, hr, hw⟩ := h.broken hb hv
        obtain ⟨rest', hst'⟩ := ((hs.turns.step e).layered (s.loop c)).top_of_only hst (by simp)
        refine ⟨s.loop c, s'.resume (s.loop c) c r rest', .exec hst' hr, ?_⟩
        simpa [State.resume] using hw
  all_goals exact absurd trivial hh

end Spoken
theorem run_spoken {acts : List (Act θ)}
    (e : Steps (Steps.When (fun s act => s.OnLoop act ∧ s.Heeds cfg c act) (Step cfg initSize base))
      (State.new base) acts s) : Spoken cfg base c s ∧ ∃ n, Safe base s n := by
  have hp : ∀ {s₁ : State θ} {act s₂}, (Spoken cfg base c s₁ ∧ ∃ n, Safe base s₁ n) →
      Steps.When (fun s act => s.OnLoop act ∧ s.Heeds cfg c act)
        (Step cfg initSize base) s₁ act s₂ →
        Spoken cfg base c s₂ ∧ ∃ n, Safe base s₂ n := by
    intro s₁ act s₂ ⟨h, n, hs⟩ ⟨⟨hk, hh⟩, e⟩
    exact ⟨h.step hs hk hh e, _, hs.step hk e⟩
  exact e.invariant (P := fun s => Spoken cfg base c s ∧ ∃ n, Safe base s n) hp
    ⟨fun hc => absurd hc (Nat.not_lt_zero c), 0, State.new_safe⟩

-- The callbacks of a connection, for the calls of the user on the threads of the loops, as in a
-- server with a single loop. They are well formed as long as the handlers of the connection heed
-- its end, and no longer.
theorem wellFormed_of_heeds (c : Nat) :
    (∀ acts s, Steps (Steps.When (fun s act => s.OnLoop act ∧ s.Heeds cfg c act)
      (Step cfg initSize base))
        (State.new base) acts s → c < s.created → WellFormed (s.conn c).trace) ∧
    (∀ acts s act s', Steps (Steps.When (fun s act => s.OnLoop act ∧ s.Heeds cfg c act)
        (Step cfg initSize base)) (State.new base) acts s →
      Step cfg initSize base s act s' → ¬s.Heeds cfg c act →
        ∃ t s'', Step cfg initSize base s' (.exec t .none) s'' ∧
          ¬WellFormed (s''.conn c).trace) where
  left _ _ e hc := (run_spoken e).left.wellFormed hc
  right _ _ _ _ e h hh :=
    have ⟨hs, _, hsafe⟩ := run_spoken e
    hs.broken hsafe hh h

def twoReady : List (Act Unit) :=
  [.poll () [], .accept () 5, .exec () .none, .exec () .none, .exec () .none, .accept () 6,
    .exec () .none, .exec () .none, .exec () .none, .swap (), .finish (),
    .poll () [(0, Events.POLLIN), (1, Events.POLLIN)], .dispatch (),
    .exec () (.read (.received [1])),
    .exec () .none, .call () 1 .forceClose, .exec () .none, .exec () .none, .exec () .none,
    .exec () .none,
    .exec () .none, .exec () .none, .exec () .none, .exec () .none, .exec () .none]

theorem wellFormed_of_force_close :
    ∃ s, Steps (Steps.When (fun s act => s.OnLoop act ∧ s.Heeds ⟨true, true, true, true⟩ 1 act)
        (Step ⟨true, true, true, true⟩ 8 ())) (State.new ()) twoReady s ∧
      (s.conn 1).state = .disconnected ∧ WellFormed (s.conn 1).trace := by
  have ⟨s, e, hs, hc⟩ : ∃ s,
      Steps (Steps.When (fun s act => s.OnLoop act ∧ s.Heeds ⟨true, true, true, true⟩ 1 act)
      (Step ⟨true, true, true, true⟩ 8 ())) (State.new ()) twoReady s ∧
        (s.conn 1).state = .disconnected ∧ 1 < s.created := by
    refine ⟨_, State.steps_of_guard ?_, ?_⟩
    all_goals decide +kernel
  exact ⟨s, e, hs, (wellFormed_of_heeds 1).left _ s e hc⟩

-- The second one is still in the batch, and has bytes that have been received.
theorem not_wellFormed_of_force_close :
    ∃ s, Steps (Steps.When State.OnLoop (Step ⟨true, true, true, true⟩ 8 ())) (State.new ())
        (twoReady ++ [.dispatch (), .exec () (.read (.received [2])), .exec () .none]) s ∧
      1 < s.created ∧ ¬WellFormed (s.conn 1).trace := by
  have ⟨s, e, hs, hc⟩ : ∃ s, Steps (Steps.When State.OnLoop (Step ⟨true, true, true, true⟩ 8 ()))
      (State.new ())
      (twoReady ++ [.dispatch (), .exec () (.read (.received [2])), .exec () .none]) s ∧
        1 < s.created ∧ (s.conn 1).trace =
          [.callback .connect .connected, .handleClose, .callback .connect .disconnected,
            .closeCb] ++
            [.callback .message .disconnected] := by
    refine ⟨_, State.steps_of_guard ?_, ?_⟩
    all_goals decide +kernel
  exact ⟨s, e, hs, hc ▸ Connection.not_wellFormed [] rfl rfl⟩

end Bounce.Server
