import Bounce.Execution.Server.Refines

namespace Bounce

namespace Watch

open Channel (kReadEvent kWriteEvent)

variable {w : Watch}

structure Reading (w : Watch) : Prop where
  events : w.events &&& kReadEvent = kReadEvent
  slot   : w.slot = some { fd := w.fd, events := w.events, revents := 0 }

theorem update_reading (h : w.events &&& kReadEvent = kReadEvent) : w.update.Reading where
  events := h
  slot   := by
    have hn : w.events ≠ Channel.kNoneEvent := by
      intro hn
      rw [hn] at h
      revert h
      decide
    simp [update, hn]

theorem enableReading_reading : w.enableReading.Reading := by
  refine update_reading ?_
  ext i hi
  simp only [BitVec.getElem_and, BitVec.getElem_or]
  cases w.events[i] <;> simp

theorem enableWriting_reading (h : w.Reading) : w.enableWriting.Reading := by
  refine update_reading ?_
  rw [BitVec.and_comm, BitVec.and_or_distrib_left]
  rw [BitVec.and_comm _ w.events, h.events]
  decide

theorem disableWriting_reading (h : w.Reading) : w.disableWriting.Reading := by
  refine update_reading ?_
  rw [BitVec.and_assoc, show ~~~kWriteEvent &&& kReadEvent = kReadEvent by decide]
  exact h.events

end Watch

namespace TcpConnection

variable {c : TcpConnection} {bytes message : List Byte} {r : Sent}

theorem keep_reading (h : c.channel.Reading) : (c.keep bytes).channel.Reading := by
  rw [keep]
  split
  case isFalse => exact h
  case isTrue  =>
    dsimp only
    split
    case isTrue  => exact Watch.enableWriting_reading h
    case isFalse => exact h

theorem sendInLoop_reading (h : c.channel.Reading) :
    (c.sendInLoop message r).1.channel.Reading := by
  have ⟨socket, _, hk⟩ := @sendInLoop_keep c message r
  obtain hk | ⟨_, hk⟩ := hk <;> rw [hk]
  · exact h
  · exact keep_reading (c := { c with socket := socket }) h

theorem handleWrite_reading (h : c.channel.Reading) : (c.handleWrite r).1.channel.Reading := by
  simp only [handleWrite]
  split
  case isFalse => exact h
  case isTrue  =>
    split
    case isTrue  => exact Watch.disableWriting_reading h
    case isFalse => exact h

end TcpConnection

namespace Connection

variable {θ : Type} [DecidableEq θ] {cfg : Callbacks} {own base t t' : θ} {s s' : State θ}
variable {act : Act θ}
variable {c c' : Connection θ} {code : Code θ} {codes rest : List (Code θ)} {answer : Answer}
variable {api : Api} {n : Nat}

def Code.Removing : Code θ → Prop
  | .closeCb | .task .removeConnectionInLoop | .queue .removeConnectionInLoop => True
  | _                                                                         => False

def Leaving (s : State θ) : Prop :=
  (∃ t, ∃ code ∈ s.stack t, code.Removing) ∨ ∃ t, .removeConnectionInLoop ∈ (s.queue t).pending

theorem leaving_resume {r : Connection θ × List (Code θ)} (hm : code ∈ s.stack t')
    (hr : code.Removing)
    (hp : t' = t → code ∈ rest ∨ ∃ code ∈ r.2, code.Removing) : Leaving (s.resume t r rest) := by
  by_cases ht : t' = t
  case pos =>
    obtain hm | ⟨code, hm, hr⟩ := hp ht
    · exact .inl ⟨t, code, by simp [State.resume, hm], hr⟩
    · exact .inl ⟨t, code, by simp [State.resume, hm], hr⟩
  case neg => exact .inl ⟨t', code, by simpa [State.resume, ht] using hm, hr⟩

theorem Runs.removing (hr : Runs cfg base t c code answer c' codes) (h : code.Removing) :
    ∃ code ∈ codes, code.Removing := by
  cases hr
  case closeCb =>
    refine ⟨_, List.mem_singleton_self _, ?_⟩
    rw [doTaskInThread]
    split <;> trivial
  all_goals contradiction

theorem leaving_step (hb : Batched s) (h : Leaving s) (e : Step cfg own base s act s') :
    Leaving s' ∨ s'.mapped = false := by
  obtain ⟨t', code, hm, hr⟩ | ⟨t', hq⟩ := h
  · have hrest : ∀ {t top rest}, s.stack t = top :: rest → t' = t → code = top ∨ code ∈ rest :=
      fun hs ht => List.mem_cons.mp (hs ▸ ht ▸ hm)
    cases e
    case remove => exact .inr rfl
    case call   => exact .inl (leaving_resume hm hr fun ht => .inl (ht ▸ hm))
    case exec hs hrun =>
      refine .inl (leaving_resume hm hr fun ht => ?_)
      obtain rfl | hm := hrest hs ht
      · exact .inr ((run_cases hrun).removing hr)
      · exact .inl hm
    case queue t f rest hs =>
      by_cases hf : t' = t ∧ code = .queue f
      case pos =>
        obtain ⟨rfl, rfl⟩ := hf
        cases f <;> first | contradiction | skip
        exact .inl
          (.inr ⟨base, by simp [State.resume, State.setQueue, Task.home, TaskQueue.push_pending]⟩)
      case neg =>
        refine .inl (leaving_resume (s := s.setQueue _ _) hm hr fun ht => ?_)
        exact .inl ((hrest hs ht).resolve_left fun hc => hf ⟨ht, hc⟩)
    case dispatch hs =>
      exact .inl (leaving_resume (s := s.setPhase _ _) hm hr fun ht => .inl (hs ▸ ht ▸ hm))
    case task hs _ =>
      exact .inl (leaving_resume (s := s.setQueue _ _) hm hr fun ht => .inl (hs ▸ ht ▸ hm))
    case poll | swap | finish => exact .inl (.inl ⟨t', code, hm, hr⟩)
  · have hqueue : ∀ {t q}, (t' = t → .removeConnectionInLoop ∈ q.pending) →
        .removeConnectionInLoop ∈ ((s.setQueue t q).queue t').pending := by
      intro t q ht
      by_cases h : t' = t
      case pos => simpa [State.setQueue, h] using ht h
      case neg => simpa [State.setQueue, h] using hq
    cases e
    case remove => exact .inr rfl
    case queue t f rest hs =>
      refine .inl (.inr ⟨t', hqueue fun ht => ?_⟩)
      rw [TaskQueue.push_pending]
      exact List.mem_append_left _ (ht ▸ hq)
    case swap t hp _ =>
      have hs : (s.queue t).swap.pending = (s.queue t).pending :=
        TaskQueue.swap_pending (hb t (by simp [hp]))
      have hq := hqueue (t := t) (q := (s.queue t).swap) fun ht => hs ▸ ht ▸ hq
      exact .inl (.inr ⟨t', hq⟩)
    case task t f tasks hp hs ht =>
      by_cases hf : t' = t ∧ f = .removeConnectionInLoop
      case pos =>
        obtain ⟨rfl, rfl⟩ := hf
        exact .inl (.inl ⟨t', .task .removeConnectionInLoop, by simp [State.resume], trivial⟩)
      case neg =>
        refine .inl (.inr ⟨t', hqueue fun he => ?_⟩)
        subst he
        rw [TaskQueue.pending, ht, List.cons_append] at hq
        exact (List.mem_cons.mp hq).resolve_left fun he => hf ⟨rfl, he.symm⟩
    case call | exec | poll | dispatch | finish => exact .inl (.inr ⟨t', hq⟩)

-- As long as a connection is not closed, `::poll` tells what comes. Then, it leaves the map.
structure Attended (s : State θ) : Prop where
  reading : s.conn.state ≠ .disconnected → s.conn.channel.Reading
  leaving : s.conn.state = .disconnected → s.mapped → Leaving s

theorem Runs.reading (hr : Runs cfg base t c code answer c' codes)
    (hc : code.Closing → c.state = .disconnected)
    (hs : c.state ≠ .disconnected) (hs' : c'.state ≠ .disconnected) (h : c.channel.Reading) :
    c'.channel.Reading := by
  cases hr
  case connectComplete => exact Watch.enableReading_reading
  case sendInLoop      => exact TcpConnection.sendInLoop_reading h
  case handleWrite     => exact TcpConnection.handleWrite_reading h
  case shutdownInLoop | checkDisconnecting =>
    have hc : c.shutdownInLoop.channel = c.channel := TcpConnection.shutdownInLoop_channel
    exact hc.symm ▸ h
  case handleClose     => exact absurd rfl hs'
  case removeChannel   => exact absurd (hc trivial) hs
  all_goals exact h

theorem Calls.channel (hc : Calls own t c api c' codes) : c'.channel = c.channel := by
  cases hc <;> rfl

theorem Step.mapped (e : Step cfg own base s act s') (hm : s'.mapped) : s.mapped := by
  cases e
  case remove => contradiction
  all_goals exact hm

namespace Attended

theorem step_reading (h : Attended s) (hm : Managed own base s n) (hk : s.OnLoop own act)
    (e : Step cfg own base s act s') (hs' : s'.conn.state ≠ .disconnected) :
    s'.conn.channel.Reading := by
  have hs : s.conn.state ≠ .disconnected := fun hs => hs' (hm.single.step_state hk e hs)
  cases e
  case call t api _ _ => exact (call_cases own t s.conn api).channel ▸ h.reading hs
  case exec t code rest answer r hst hr =>
    have ha := (hm.single.after.code t code (hst ▸ List.mem_cons_self)).right
    exact (run_cases hr).reading ha hs hs' (h.reading hs)
  all_goals exact h.reading hs

theorem step_closed (hm : Managed own base s n) (e : Step cfg own base s act s')
    (hs : s.conn.state ≠ .disconnected) (hs' : s'.conn.state = .disconnected) : Leaving s' := by
  cases e
  case call t api _ _ => exact absurd ((call_cases own t s.conn api).frame.left.symm.trans hs') hs
  case exec t code rest answer r hst hr =>
    have hc := hst ▸ List.mem_cons_self
    have hr := run_cases hr
    obtain hq | ⟨state, rfl, -⟩ | ⟨forced, rfl, -⟩ | ⟨rfl, -⟩ :=
      hr.quiet (hm.single.placed.home.code t code hc)
    · exact absurd (hq.state.symm.trans hs') hs
    · have ha := (hm.single.after.code t _ hc).right
      obtain ⟨c', codes⟩ := r
      cases hr
      exact absurd (ha hs') hs
    · obtain ⟨c', codes⟩ := r
      cases hr
      exact .inl ⟨t, .closeCb, by simp [State.resume], trivial⟩
    · exact absurd ((hm.single.after.code t _ hc).right trivial) hs
  all_goals exact absurd hs' hs

theorem step (h : Attended s) (hm : Managed own base s n) (hk : s.OnLoop own act)
    (e : Step cfg own base s act s') : Attended s' where
  reading := h.step_reading hm hk e
  leaving := by
    intro hs' hmap
    by_cases hs : s.conn.state = .disconnected
    case neg => exact step_closed hm e hs hs'
    case pos =>
      refine (leaving_step hm.batched (h.leaving hs (e.mapped hmap)) e).resolve_right fun hn => ?_
      exact nomatch hn.symm.trans hmap

end Attended

theorem Initial.attended (h : Initial own s) : Attended s := by
  have ⟨initSize, fd, hc⟩ := h.conn
  refine ⟨fun _ => ?_, fun hs => ?_⟩
  · rw [hc]
    exact Watch.enableReading_reading
  · rw [hc] at hs
    cases hs

theorem run_attended {s₀ : State θ} {acts : List (Act θ)} (hi : Initial own s₀)
    (e : Follows cfg own base s₀ acts s) :
    (∃ n, Managed own base s n) ∧ Attended s := by
  have hp : ∀ {s₁ act s₂}, (∃ n, Managed own base s₁ n) ∧ Attended s₁ →
      Steps.When (State.OnLoop own) (Step cfg own base) s₁ act s₂ → (∃ n, Managed own base s₂ n) ∧
      Attended s₂ := by
    intro s₁ act s₂ h e
    obtain ⟨⟨n, hm⟩, ha⟩ := h
    exact ⟨⟨_, hm.step e.left e.right⟩, ha.step hm e.left e.right⟩
  exact e.invariant (P := fun s => (∃ n, Managed own base s n) ∧ Attended s) hp
    ⟨⟨0, hi.managed⟩, hi.attended⟩

structure AtRest (s : State θ) : Prop where
  stack : ∀ t, s.stack t = []
  queue : ∀ t, (s.queue t).pending = []

-- A connection at rest that has not been closed. The loop waits for what the peer sends, and for
-- room for the bytes that are still to be sent, and nothing else is left to be done.
structure Waiting (s : State θ) : Prop where
  state   : s.conn.state ≠ .disconnected
  mapped  : s.mapped
  reading : s.conn.channel.Reading
  writing : s.conn.channel.isWriting ↔ s.conn.outputBuffer.content ≠ []
  run     : s.conn.ran.map (·.message) = s.conn.accepted.map (·.2)
  opened  : s.conn.state = .connected → ¬s.conn.socket.shutWr
  shut    : s.conn.state = .disconnecting →
    (s.conn.socket.shutWr ↔ s.conn.outputBuffer.content = [])

structure Removed (s : State θ) : Prop where
  state  : s.conn.state = .disconnected
  mapped : s.mapped = false
  slot   : s.conn.channel.slot = none
  shared : ¬s.Shared

omit [DecidableEq θ] in
theorem AtRest.not_leaving (h : AtRest s) : ¬Leaving s := by
  rintro (⟨t, code, hm, -⟩ | ⟨t, hm⟩)
  · rw [h.stack t] at hm
    contradiction
  · rw [h.queue t] at hm
    contradiction

theorem AtRest.tokens (h : AtRest s) : tokens own base s = s.mapped.toNat := by
  simp [Connection.tokens, h.stack, h.queue]

theorem AtRest.not_fresh (h : AtRest s) : ¬Fresh own base s := by
  intro hf
  have hs := hf.starts
  have hst := h.stack
  have hq := h.queue
  generalize s.stack = stack at hs hst
  generalize s.queue = queue at hs hq
  cases hs
  case queueing  => simpa using hst base
  case starting  => simpa using hst own
  case queued hp =>
    have hn := hq own
    rw [Function.update_self] at hn
    cases hn.symm.trans hp

omit [DecidableEq θ] in
theorem AtRest.not_shared (h : AtRest s) (hm : s.mapped = false) : ¬s.Shared := by
  rintro (hs | ⟨t, code, hc, -⟩ | ⟨t, f, hf, -⟩)
  · cases hm.symm.trans hs
  · rw [h.stack t] at hc
    contradiction
  · rw [h.queue t] at hf
    contradiction

theorem AtRest.waiting (h : AtRest s) (hm : Managed own base s n) (ha : Attended s)
    (hs : s.conn.state ≠ .disconnected) (hmap : s.mapped) : Waiting s := by
  have hd := hm.single.doing
  have hr := hm.single.ran
  rw [h.stack own] at hd hr
  have hst : s.conn.Settled := by
    cases hd
    assumption
  exact {
    state   := hs
    mapped  := hmap
    reading := ha.reading hs
    writing := hm.single.steady.inStep hs
    run     := (hr.trans (List.append_nil _)).symm
    opened  := hm.single.steady.opened
    shut    := fun hd => ⟨hm.single.steady.shut hs, hst hd⟩
  }

theorem AtRest.removed (h : AtRest s) (hm : Managed own base s n)
    (hs : s.conn.state = .disconnected)
    (hmap : s.mapped = false) : Removed s := by
  refine ⟨hs, hmap, ?_, h.not_shared hmap⟩
  have hz : Connection.tokens own base s = 0 := by
    rw [h.tokens, hmap]
    rfl
  obtain ho | hg := (hm.stage.resolve_left (Nat.not_lt.mpr (Nat.le_of_eq hz))).right
  · cases (h.stack own).symm.trans ho.left
  · exact hg.slot

theorem AtRest.settled (h : AtRest s) (hm : Managed own base s n) (ha : Attended s) :
    (Waiting s ∧ n = 0) ∨ (Removed s ∧ n = 1) := by
  have ht := hm.tally
  rw [h.tokens] at ht
  by_cases hs : s.conn.state = .disconnected
  case pos =>
    have hn : s.mapped = false := Bool.eq_false_iff.mpr fun hm => h.not_leaving (ha.leaving hs hm)
    rw [hn, Bool.toNat_false, Nat.zero_add] at ht
    exact .inr ⟨h.removed hm hs hn, ht⟩
  case neg =>
    have hp := hm.stage.resolve_right fun hd => hs hd.left
    have hmap : s.mapped := by
      by_contra hn
      rw [h.tokens, Bool.eq_false_iff.mpr hn] at hp
      exact Nat.lt_irrefl 0 hp
    rw [hmap, Bool.toNat_true] at ht
    exact .inl ⟨h.waiting hm ha hs hmap, by omega⟩

end Connection

namespace Server

open Connection (AtRest Waiting Removed Attended Managed Fresh Owned)

variable {θ : Type} [DecidableEq θ] {cfg : Callbacks} {initSize : Nat} {base : θ} {s : State θ}
variable {acts : List (Act θ)} {c : Nat} {n : Nat → Nat}

structure State.Idle (s : State θ) : Prop where
  stack : ∀ t, s.stack t = []
  queue : ∀ t, (s.queue t).pending = []

omit [DecidableEq θ] in
theorem State.Idle.view (h : s.Idle) (c : Nat) : AtRest (s.view c) where
  stack t := by simp [State.view, h.stack]
  queue t := by
    obtain ⟨ht, hv⟩ := List.append_eq_nil_iff.mp (h.queue t)
    simp [State.view, TaskQueue.pending, ht, hv]

theorem settled (e : Steps (Steps.Tally (fun s act _ => s.destroys act)
      (Steps.When State.OnLoop (Step cfg initSize base))) (State.new base, 0) acts (s, n))
    (hr : s.Idle)
    (hc : c < s.created) :
    (Waiting (s.view c) ∧ n c = 0) ∨ (Removed (s.view c) ∧ n c = 1) := by
  have hrest := hr.view c
  have hrun : Steps (Steps.When State.OnLoop (Step cfg initSize base)) (State.new base) acts s :=
    e.simulate (P := fun _ => True) Prod.fst (fun _ _ => trivial) (fun _ h => h.left) trivial
  have hl : Fresh (s.loop c) base (s.view c) ∨ Attended (s.view c) :=
    lift (P := fun own v => Fresh own base v ∨ Attended v) (fun _ _ => .inl)
      (fun _ _ _ _ hi e => .inr (Connection.run_attended hi e).right) hrun hc
  have ha := hl.resolve_left hrest.not_fresh
  have hm : Managed (s.loop c) base (s.view c) (n c) := by
    generalize hn : n c = m
    cases hn ▸ (run_safe e).owned c hc
    case fresh hf   => exact absurd hf hrest.not_fresh
    case managed hm => exact hm
  exact hrest.settled hm ha

-- When no loop has anything to do, no connection is stuck and none has leaked: each one waits for
-- its peer, or has been removed, and `destroyConnection` has run for it. The map has the ones that
-- wait, and no other connection is there unless the user has kept it.
theorem settled_of_run (e : Steps (Steps.Tally (fun s act _ => s.destroys act)
      (Steps.When State.OnLoop (Step cfg initSize base))) (State.new base, 0) acts (s, n))
    (hr : s.Idle) :
    (∀ c < s.created, (Waiting (s.view c) ∧ n c = 0) ∨ (Removed (s.view c) ∧ n c = 1)) ∧
    (∀ (fd : Int) c, s.connectionMap[fd]? = some c ↔
      c < s.created ∧ s.getFd c = fd ∧ (s.conn c).state ≠ .disconnected) ∧
    ∀ c < s.created, s.Alive c ↔ (s.conn c).state ≠ .disconnected ∨ s.held c := by
  refine ⟨fun c hc => settled e hr hc, fun fd c => ⟨fun hm => ?_, fun ⟨hc, hf, hs⟩ => ?_⟩,
    fun c hc => ?_⟩
  · obtain ⟨hc, hf⟩ := (run_safe e).map fd c hm
    obtain ⟨hw, -⟩ | ⟨hd, -⟩ := settled e hr hc
    · exact ⟨hc, hf, hw.state⟩
    · have hn := hd.mapped
      simp [State.view, hf, hm] at hn
  · obtain ⟨hw, -⟩ | ⟨hd, -⟩ := settled e hr hc
    · exact hf ▸ beq_iff_eq.mp hw.mapped
    · exact absurd hd.state hs
  · obtain ⟨hw, -⟩ | ⟨hd, -⟩ := settled e hr hc
    · exact ⟨fun _ => .inl hw.state, fun _ => ⟨hc, .inl (.inl hw.mapped)⟩⟩
    · refine ⟨fun ha => .inr (ha.right.resolve_left hd.shared), fun ha => ⟨hc, .inr ?_⟩⟩
      exact ha.resolve_left fun hn => hn hd.state

def closedAtRest : List (Act Bool) :=
  twoCloses ++ [.exec false .none, .exec false .none, .exec false .none]

theorem settled_of_closed_at_rest :
    ∃ s, ∃ n : Nat → Nat, Steps (Steps.Tally (fun s act _ => s.destroys act)
        (Steps.When State.OnLoop (Step ⟨true, true, true, true⟩ 8 false))) (State.new false, 0)
          closedAtRest (s, n) ∧
      Removed (s.view 0) ∧ n 0 = 1 ∧ ¬s.Alive 0 ∧ Waiting (s.view 1) ∧
      s.connectionMap[(5 : Int)]? = some 1 := by
  have ⟨s, e, ht, hq, hc, h0, h1, hf, hh⟩ : ∃ s,
      Steps (Steps.When State.OnLoop (Step ⟨true, true, true, true⟩ 8 false))
      (State.new false) closedAtRest s ∧ (∀ t, s.stack t = []) ∧ (∀ t, (s.queue t).pending = []) ∧
      s.created = 2 ∧
        (s.conn 0).state = .disconnected ∧ (s.conn 1).state ≠ .disconnected ∧ s.getFd 1 = 5 ∧
        s.held 0 = false := by
    refine ⟨_, State.steps_of_guard ?_, ?_⟩
    all_goals decide +kernel
  have ⟨n, e⟩ := e.tally (fun s act _ => s.destroys act) 0
  have ⟨hs, hm, ha⟩ := settled_of_run e ⟨ht, hq⟩
  obtain ⟨hw, -⟩ | hr := hs 0 (by omega)
  · exact absurd h0 hw.state
  obtain ⟨hw, -⟩ | ⟨hd, -⟩ := hs 1 (by omega)
  · refine ⟨s, n, e, hr.left, hr.right, fun hl => ?_, hw, (hm 5 1).mpr ⟨by omega, hf, h1⟩⟩
    obtain hn | hn := (ha 0 (by omega)).mp hl
    · exact hn h0
    · exact nomatch hh.symm.trans hn
  · exact absurd hd.state h1

end Server
end Bounce
