import Mathlib.Data.List.Forall2
import Bounce.Execution.Server.Removal

namespace Bounce

namespace Connection

variable {θ : Type} [DecidableEq θ] {cfg : Callbacks} {own base : θ} {v v' : State θ}
variable {as : List (Act θ)}

def Follows (cfg : Callbacks) (own base : θ) : State θ → List (Act θ) → State θ → Prop :=
  Steps (Steps.When (State.OnLoop own) (Step cfg own base))

theorem Fresh.run (h : Fresh own base v) (e : Follows cfg own base v as v') :
    Fresh own base v' ∨ ∃ as₁ as₂ v₁, as = as₁ ++ as₂ ∧ Initial own v₁ ∧
    Follows cfg own base v₁ as₂ v' := by
  induction e
  case refl => exact .inl h
  case step a as e he hi =>
    obtain h | hv := (h.step e.right).left
    · obtain hv | ⟨as₁, as₂, v₁, rfl, hv⟩ := hi h
      · exact .inl hv
      · exact .inr ⟨a :: as₁, as₂, v₁, rfl, hv⟩
    · exact .inr ⟨[a], as, _, rfl, hv, he⟩

-- The state of the output side of a connection, between the steps of a run. The messages of `send`
-- are run for in the order of the calls, and what has been sent and is in the buffer are the kept
-- ones.
structure Delivers (own : θ) (v : State θ) : Prop where
  bytes  : v.conn.socket.wire ++ v.conn.outputBuffer.content = keptBytes v.conn.ran
  order  : v.conn.accepted.map (·.2) = v.conn.ran.map (·.message) ++
    (v.stack own).filterMap Code.message?
  writes : WritesInStep own v

theorem Single.delivers (h : Single own base v) : Delivers own v :=
  ⟨h.steady.streams.bytes, h.ran, h.writesInStep⟩

theorem Fresh.stack (h : Fresh own base v) (t : θ) :
    v.stack t = [] ∨ v.stack t = [.queue .connectComplete] ∨
    v.stack t = [.task .connectComplete] := by
  cases hs : v.stack t
  case nil => exact .inl rfl
  case cons =>
    obtain ⟨rfl, -, -, ⟨rfl, -⟩ | ⟨rfl, -⟩⟩ := h.starts.exec hs
    · exact .inr (.inl rfl)
    · exact .inr (.inr rfl)

theorem Fresh.delivers (h : Fresh own base v) : Delivers own v := by
  obtain ⟨initSize, fd, hc⟩ := h.conn
  have hb : v.conn.outputBuffer.readableBytes = 0 := by
    rw [hc]
    rfl
  have hw : ¬v.conn.channel.isWriting := by
    rw [hc]
    simp [new, TcpConnection.new, Watch.isWriting, Watch.new]
    decide
  have hcode : ∀ {t code rest}, v.stack t = code :: rest → code = .queue .connectComplete ∨
      code = .task .connectComplete := by
    intro t code rest hs
    obtain hn | hq | hq := h.stack t
    · cases hn.symm.trans hs
    · cases hq.symm.trans hs
      exact .inl rfl
    · cases hq.symm.trans hs
      exact .inr rfl
  refine ⟨?_, ?_, fun _ => ?_, fun t rest hs => ?_, fun _ _ _ _ _ _ => hb, fun _ hs => ?_⟩
  · rw [hc]
    exact Buffer.new_content initSize
  · rw [hc]
    obtain hn | hq | hq := h.stack own
    · rw [hn]
      rfl
    · rw [hq]
      rfl
    · rw [hq]
      rfl
  · simp [hb, hw]
  · obtain hf | hf := hcode hs <;> simp at hf
  · rw [hc] at hs
    cases hs

end Connection

namespace Server

open Connection (Follows Fresh Initial)

variable {θ : Type} [DecidableEq θ] {cfg : Callbacks} {initSize : Nat} {base loop : θ}
variable {s s₀ s' : State θ}
variable {act : Act θ} {acts : List (Act θ)} {c : Nat} {n : Nat → Nat}

def Among (c : Nat) (as : List (Connection.Act θ)) (acts : List (Act θ)) : Prop :=
  List.SublistForall₂ (fun a act => act.For c a) as acts

theorem Safe.follow (h : Safe base s n) (hc : c < s.created) (hk : s.OnLoop act)
    (e : Step cfg initSize base s act s') :
    s'.loop c = s.loop c ∧ c < s'.created ∧
      (s'.view c = s.view c ∨
        ∃ a, act.For c a ∧ (s.view c).OnLoop (s.loop c) a ∧
          Connection.Step cfg (s.loop c) base (s.view c) a (s'.view c)) := by
  cases act.accept_or
  case inl ha =>
    obtain ⟨loop, fd, rfl⟩ := ha
    cases e
    case accept hb _ _ =>
      have hn := Nat.ne_of_lt hc
      exact ⟨State.newConnection_loop_of_ne hn, Nat.lt_succ_of_lt hc,
        .inl (State.view_newConnection_of_ne hb hn)⟩
  case inr ha =>
    have hf := e.frame ha
    refine ⟨congrFun hf.loop c, hf.created ▸ hc, ?_⟩
    cases e.viewed h.turns h.matched ha c
    case none hv _       => exact .inl hv
    case step a hfor hv _ => exact .inr ⟨a, hfor, hfor.onLoop hk, hv⟩

theorem Safe.next (h : Safe base s n) (hk : s.OnLoop act) (e : Step cfg initSize base s act s') :
    ∃ n, Safe base s' n :=
  ⟨_, h.step hk e⟩

theorem follow_run (h : Safe base s₀ n) (hc : c < s₀.created)
    (e : Steps (Steps.When State.OnLoop (Step cfg initSize base)) s₀ acts s) :
    s.loop c = s₀.loop c ∧
      ∃ as, Among c as acts ∧ Follows cfg (s₀.loop c) base (s₀.view c) as (s.view c) := by
  have hp : ∀ {s₁ act s₂}, ((∃ n, Safe base s₁ n) ∧ c < s₁.created ∧ s₁.loop c = s₀.loop c) →
      Steps.When State.OnLoop (Step cfg initSize base) s₁ act s₂ →
        (∃ n, Safe base s₂ n) ∧ c < s₂.created ∧ s₂.loop c = s₀.loop c := by
    intro s₁ act s₂ h e
    obtain ⟨⟨n, h⟩, hc, hl⟩ := h
    have hf := h.follow hc e.left e.right
    exact ⟨h.next e.left e.right, hf.right.left, hf.left.trans hl⟩
  let P := fun s : State θ => (∃ n, Safe base s n) ∧ c < s.created ∧ s.loop c = s₀.loop c
  refine ⟨(e.invariant (P := P) hp ⟨⟨n, h⟩, hc, rfl⟩).right.right, ?_⟩
  refine e.simulate_weakly (P := P) (L := Act.For c) (State.view · c) hp ?_ ⟨⟨n, h⟩, hc, rfl⟩
  intro s₁ act s₂ h e
  obtain ⟨⟨n, h⟩, hc, hl⟩ := h
  refine (h.follow hc e.left e.right).right.right.imp id ?_
  rw [hl]
  exact fun hv => hv.imp fun a hv => ⟨hv.left, hv.right.left, hv.right.right⟩

theorem exists_accept (h : Safe base s₀ n) (hc : s₀.created ≤ c) (hc' : c < s.created)
    (e : Steps (Steps.When State.OnLoop (Step cfg initSize base)) s₀ acts s) :
    ∃ acts₁ loop fd acts₂ s₁ s₂ n, acts = acts₁ ++ .accept loop fd :: acts₂ ∧ s₁.created = c ∧
      Safe base s₁ n ∧
      Step cfg initSize base s₁ (.accept loop fd) s₂ ∧
      Steps (Steps.When State.OnLoop (Step cfg initSize base)) s₂ acts₂ s := by
  induction e generalizing n
  case refl => exact absurd hc' (Nat.not_lt.mpr hc)
  case step s₀ s₁ _ act acts e he hi =>
    by_cases hs : s₁.created ≤ c
    case pos =>
      obtain ⟨acts₁, loop, fd, acts₂, s₂, s₃, n, rfl, ha⟩ := hi (h.step e.left e.right) hs hc'
      exact ⟨act :: acts₁, loop, fd, acts₂, s₂, s₃, n, rfl, ha⟩
    case neg =>
      have hs := Nat.lt_of_not_le hs
      obtain ⟨loop, fd, rfl⟩ | ha := act.accept_or
      · have hs₁ : s₁.created = s₀.created + 1 := by
          cases e.right
          rfl
        rw [hs₁] at hs
        exact ⟨[], loop, fd, acts, s₀, s₁, n, rfl, Nat.le_antisymm hc (Nat.le_of_lt_succ hs), h,
          e.right, he⟩
      · rw [(e.right.frame ha).created] at hs
        exact absurd hs (Nat.not_lt.mpr hc)

theorem follow_accept {s₁ s₂ : State θ} {fd : Int} (h : Safe base s₁ n)
    (ha : Step cfg initSize base s₁ (.accept loop fd) s₂)
    (e : Steps (Steps.When State.OnLoop (Step cfg initSize base)) s₂ acts s) :
    s.loop s₁.created = loop ∧ (s₂.view s₁.created).conn = .new initSize fd ∧
      Fresh loop base (s₂.view s₁.created) ∧
      ∃ as, Among s₁.created as acts ∧
        Follows cfg loop base (s₂.view s₁.created) as (s.view s₁.created) := by
  have hk : s₁.OnLoop (.accept loop fd) := trivial
  have h₂ := h.step hk ha
  cases ha
  case accept hf =>
    have ⟨hl, as, hm, hs⟩ := follow_run h₂ (Nat.lt_succ_self _) e
    rw [State.newConnection_loop] at hl hs
    refine ⟨hl, ?_, State.view_newConnection h.numbered (h.not_mem_of_accept hf), as, hm, hs⟩
    simp [State.view, State.newConnection]

-- A connection of a server, seen by itself, runs as a single connection does: from `newConnection`
-- on, its steps are some of the server's ones, in their order, and no other connection takes part
-- in them.
theorem connection_of_run (e : Steps (Steps.When State.OnLoop (Step cfg initSize base))
    (State.new base) acts s)
    (hc : c < s.created) :
    ∃ acts₁ fd acts₂ v as, acts = acts₁ ++ .accept (s.loop c) fd :: acts₂ ∧
      v.conn = .new initSize fd ∧
      Fresh (s.loop c) base v ∧ Among c as acts₂ ∧ Follows cfg (s.loop c) base v as (s.view c) := by
  obtain ⟨acts₁, loop, fd, acts₂, s₁, s₂, n, rfl, rfl, h, ha, e⟩ :=
    exists_accept State.new_safe (Nat.zero_le c) hc e
  obtain ⟨rfl, hv, hf, as, hm, hs⟩ := follow_accept h ha e
  exact ⟨acts₁, fd, acts₂, _, as, rfl, hv, hf, hm, hs⟩

theorem lift {P : θ → Connection.State θ → Prop} (hf : ∀ own v, Fresh own base v → P own v)
    (hi : ∀ own v₀ as v, Initial own v₀ → Follows cfg own base v₀ as v → P own v)
    (e : Steps (Steps.When State.OnLoop (Step cfg initSize base)) (State.new base) acts s)
    (hc : c < s.created) :
    P (s.loop c) (s.view c) := by
  obtain ⟨_, loop, fd, _, s₁, s₂, n, -, rfl, h, ha, e⟩ :=
    exists_accept State.new_safe (Nat.zero_le c) hc e
  obtain ⟨rfl, -, hv, as, -, e⟩ := follow_accept h ha e
  obtain hv | ⟨_, as₂, v₁, _, hv, e⟩ := hv.run e
  · exact hf _ _ hv
  · exact hi _ _ _ _ hv e

def partSent : List (Act Bool) :=
  [.poll false [], .accept true 5, .exec false .none, .poll true [], .swap true, .task true,
    .exec true .none,
    .exec true .none, .accept false 6, .call true 0 (.send [1, 2]), .exec false .none,
    .exec true (.sent ⟨1, .other⟩),
    .exec false .none]

theorem connection_of_part_sent :
    ∃ s, Steps (Steps.When State.OnLoop (Step ⟨true, true, true, true⟩ 8 false)) (State.new false)
      partSent s ∧
      (s.conn 0).socket.wire = [1] ∧
      ∃ acts₁ fd acts₂ v as, partSent = acts₁ ++ .accept (s.loop 0) fd :: acts₂ ∧
        v.conn = .new 8 fd ∧
        Fresh (s.loop 0) false v ∧ Among 0 as acts₂ ∧
        Follows ⟨true, true, true, true⟩ (s.loop 0) false v as (s.view 0) := by
  have ⟨s, e, hc, hw⟩ : ∃ s, Steps (Steps.When State.OnLoop (Step ⟨true, true, true, true⟩ 8 false))
      (State.new false)
      partSent s ∧ 0 < s.created ∧ (s.conn 0).socket.wire = [1] := by
    refine ⟨_, State.steps_of_guard ?_, ?_⟩
    all_goals decide +kernel
  exact ⟨s, e, hw, connection_of_run e hc⟩

theorem delivers_of_run (e : Steps (Steps.When State.OnLoop (Step cfg initSize base))
    (State.new base) acts s)
    (hc : c < s.created) : Connection.Delivers (s.loop c) (s.view c) :=
  lift (P := Connection.Delivers) (fun _ _ h => h.delivers)
    (fun _ _ _ _ hi e => (Connection.run_single hi e).delivers) e hc

theorem delivers_of_part_sent :
    ∃ s, Steps (Steps.When State.OnLoop (Step ⟨true, true, true, true⟩ 8 false)) (State.new false)
      partSent s ∧
      (s.conn 0).socket.wire = [1] ∧ Connection.Delivers (s.loop 0) (s.view 0) := by
  have ⟨s, e, hc, hw⟩ : ∃ s, Steps (Steps.When State.OnLoop (Step ⟨true, true, true, true⟩ 8 false))
      (State.new false)
      partSent s ∧ 0 < s.created ∧ (s.conn 0).socket.wire = [1] := by
    refine ⟨_, State.steps_of_guard ?_, ?_⟩
    all_goals decide +kernel
  exact ⟨s, e, hw, delivers_of_run e hc⟩

end Server
end Bounce
