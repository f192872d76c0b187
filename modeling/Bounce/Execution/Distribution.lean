import Bounce.Library.RoundRobin
import Bounce.Library.Steps
import Bounce.Objects.TcpServer.Basic

namespace Bounce.Distribution

structure LoopThreadPool (θ : Type) where
  started       : Bool
  threadNum     : UInt32
  nextLoopIndex : UInt32
  loops         : List θ

namespace LoopThreadPool

variable {θ : Type}

def new (threadNum : UInt32) : LoopThreadPool θ where
  started       := false
  threadNum     := threadNum
  nextLoopIndex := 0
  loops         := []

-- Each thread has pushed its loop by the time that the next thread is run.
def start (p : LoopThreadPool θ) (loops : List θ) : LoopThreadPool θ :=
  { p with started := true, loops := p.loops ++ loops }

def setThreadNumber (p : LoopThreadPool θ) (num : UInt32) : LoopThreadPool θ :=
  if p.started then p else { p with threadNum := num }

-- The result is `none` where the source reads behind the end of `loops_`.
def getLoopForNewConnection (p : LoopThreadPool θ) : Option θ × LoopThreadPool θ :=
  let idx := if p.nextLoopIndex ≥ p.threadNum then 0 else p.nextLoopIndex
  (p.loops[idx.toNat]?, { p with nextLoopIndex := idx + 1 })

def running (p : LoopThreadPool θ) : Bounce.LoopThreadPool θ where
  loops         := p.loops
  nextLoopIndex := p.nextLoopIndex.toNat

end LoopThreadPool

structure TcpServer (θ : Type) where
  started    : Bool
  threadPool : LoopThreadPool θ
  tasks      : TaskQueue Int
  given      : List θ

namespace TcpServer

variable {θ : Type}

def new (threadNum : UInt32) : TcpServer θ where
  started    := false
  threadPool := .new threadNum
  tasks      := .empty
  given      := []

def start (s : TcpServer θ) (loops : List θ) : TcpServer θ :=
  { s with threadPool := s.threadPool.start loops, started := true }

def setThreadNumber (s : TcpServer θ) (num : UInt32) : TcpServer θ :=
  if s.started then s else { s with threadPool := s.threadPool.setThreadNumber num }

def setNewConnection (s : TcpServer θ) (fd : Int) : TcpServer θ :=
  { s with tasks := s.tasks.push fd }

-- The loop that `newConnection` chooses. No loop of the pool is a null pointer, so that the test on
-- one does not make a difference.
def connLoop (s : TcpServer θ) (base : θ) : Option θ × LoopThreadPool θ :=
  if s.threadPool.threadNum = 0 then (some base, s.threadPool)
    else s.threadPool.getLoopForNewConnection

def newConnection (s : TcpServer θ) (base : θ) : Option (TcpServer θ) :=
  let (loop, pool) := s.connLoop base
  loop.map fun loop =>
    { s with
      threadPool := pool
      given      := if s.threadPool.threadNum = 0 then s.given else s.given ++ [loop] }

inductive Act (θ : Type)
  | setThreadNumber (num : UInt32)
  | start (loops : List θ)
  | setNewConnection (fd : Int)
  | swap
  | task
  | accept (fd : Int)

inductive Step (base : θ) : TcpServer θ → Act θ → TcpServer θ → Prop
  | setThreadNumber {s num} :
    Step base s (.setThreadNumber num) (s.setThreadNumber num)
  | start {s loops} :
    s.started = false → loops.length = s.threadPool.threadNum.toNat → loops.Nodup → base ∉ loops →
    Step base s (.start loops) (s.start loops)
  | setNewConnection {s fd} :
    Step base s (.setNewConnection fd) (s.setNewConnection fd)
  | swap {s} :
    s.tasks.tmpVec = [] → Step base s .swap { s with tasks := s.tasks.swap }
  | task {s s' fd tasks} :
    s.tasks.tmpVec = fd :: tasks → s.newConnection base = some s' →
    Step base s .task { s' with tasks := ⟨s.tasks.taskVec, tasks⟩ }
  | accept {s s' fd} :
    s.started = true → s.newConnection base = some s' → Step base s (.accept fd) s'

def Chooses (base : θ) (s : TcpServer θ) : Prop :=
  ∃ loop, (s.connLoop base).1 = some loop ∧ (loop = base ∨ loop ∈ s.threadPool.loops) ∧
    (s.threadPool.loops = [] → loop = base)

variable [DecidableEq θ] {base : θ} {s s₁ s₂ : TcpServer θ} {act : Act θ} {acts : List (Act θ)}

structure Invariant (s : TcpServer θ) : Prop where
  started : s.threadPool.started = s.started
  loops   : s.threadPool.loops.length = if s.started then s.threadPool.threadNum.toNat else 0
  nodup   : s.threadPool.loops.Nodup
  turns   : RoundRobin s.threadPool.loops s.threadPool.nextLoopIndex.toNat s.given
  fresh   : s.started = false → s.threadPool.nextLoopIndex = 0 ∧ s.given = []

namespace Invariant

theorem new (threadNum : UInt32) : (new threadNum : TcpServer θ).Invariant where
  started := rfl
  loops   := rfl
  nodup   := .nil
  turns   := .nil
  fresh _ := ⟨rfl, rfl⟩

theorem setThreadNumber (h : s.Invariant) (num : UInt32) : (s.setThreadNumber num).Invariant := by
  rw [TcpServer.setThreadNumber]
  split
  case isTrue    => exact h
  case isFalse hs =>
    have hs : s.started = false := Bool.eq_false_iff.mpr hs
    have hp : s.threadPool.started = false := h.started.trans hs
    have hl := h.loops
    simp only [hs, Bool.false_eq_true, if_false] at hl
    simp only [LoopThreadPool.setThreadNumber, hp, Bool.false_eq_true, if_false]
    exact ⟨hs.symm, by simpa [hs] using hl, h.nodup, h.turns, h.fresh⟩

theorem start {loops : List θ} (h : s.Invariant) (hs : s.started = false)
    (hl : loops.length = s.threadPool.threadNum.toNat) (hn : loops.Nodup) :
    (s.start loops).Invariant := by
  have ⟨hi, hg⟩ := h.fresh hs
  have hz := h.loops
  rw [hs, if_neg Bool.false_ne_true, List.length_eq_zero_iff] at hz
  simp only [TcpServer.start, LoopThreadPool.start, hz, hi, hg, List.nil_append]
  exact ⟨rfl, by simpa using hl, hn, ⟨Nat.zero_le _, 0, fun _ _ => by simp⟩, nofun⟩

theorem index (h : s.Invariant) (hs : s.started = true) (hz : s.threadPool.threadNum ≠ 0) :
    ∃ idx : UInt32, s.threadPool.getLoopForNewConnection =
        (s.threadPool.loops[idx.toNat]?, { s.threadPool with nextLoopIndex := idx + 1 }) ∧
      idx.toNat = (if s.threadPool.nextLoopIndex.toNat ≥ s.threadPool.loops.length then 0
        else s.threadPool.nextLoopIndex.toNat) ∧
      idx.toNat < s.threadPool.loops.length ∧ (idx + 1).toNat = idx.toNat + 1 := by
  have hl := h.loops
  rw [hs, if_pos rfl] at hl
  have hz : 0 < s.threadPool.threadNum.toNat := UInt32.pos_iff_ne_zero.mpr hz
  have hge : s.threadPool.nextLoopIndex ≥ s.threadPool.threadNum ↔
      s.threadPool.nextLoopIndex.toNat ≥ s.threadPool.loops.length :=
    hl ▸ UInt32.le_iff_toNat_le
  have hi : ∀ idx : UInt32, idx.toNat < s.threadPool.loops.length →
      (idx + 1).toNat = idx.toNat + 1 := by
    intro idx hi
    have := s.threadPool.threadNum.toNat_lt
    rw [UInt32.toNat_add]
    exact Nat.mod_eq_of_lt (by simp; omega)
  refine ⟨_, rfl, ?_⟩
  by_cases hw : s.threadPool.nextLoopIndex ≥ s.threadPool.threadNum
  case pos =>
    rw [if_pos hw, if_pos (hge.mp hw)]
    exact ⟨rfl, hl ▸ hz, hi 0 (hl ▸ hz)⟩
  case neg =>
    rw [if_neg hw, if_neg (hge.not.mp hw)]
    exact ⟨rfl, Nat.not_le.mp (hge.not.mp hw), hi _ (Nat.not_le.mp (hge.not.mp hw))⟩

theorem get (h : s.Invariant) (hs : s.started = true) (hz : s.threadPool.threadNum ≠ 0) :
    ∃ loop ∈ s.threadPool.loops, s.threadPool.getLoopForNewConnection.1 = some loop ∧
      RoundRobin s.threadPool.loops s.threadPool.getLoopForNewConnection.2.nextLoopIndex.toNat
        (s.given ++ [loop]) := by
  have ⟨idx, he, hidx, hi, hn⟩ := h.index hs hz
  have ht : RoundRobin s.threadPool.loops idx.toNat s.given := by
    rw [hidx]
    split
    case isTrue hw => exact h.turns.wrap hw
    case isFalse   => exact h.turns
  rw [he, List.getElem?_eq_getElem hi]
  exact ⟨_, List.getElem_mem hi, rfl, hn ▸ ht.take h.nodup hi⟩

theorem chooses_iff (h : s.Invariant) :
    s.Chooses base ↔ s.started = true ∨ s.threadPool.threadNum = 0 := by
  by_cases hz : s.threadPool.threadNum = 0
  case pos =>
    have hc : s.Chooses base := ⟨base, by simp [connLoop, hz], .inl rfl, fun _ => rfl⟩
    exact iff_of_true hc (.inr hz)
  case neg =>
    by_cases hs : s.started = true
    case pos =>
      have ⟨loop, hm, hg, _⟩ := h.get hs hz
      have hc : s.Chooses base :=
        ⟨loop, by simp [connLoop, hz, hg], .inr hm, fun he => absurd (he ▸ hm) List.not_mem_nil⟩
      exact iff_of_true hc (.inl hs)
    case neg =>
      refine iff_of_false ?_ (not_or.mpr ⟨hs, hz⟩)
      have hl := h.loops
      rw [if_neg hs, List.length_eq_zero_iff] at hl
      intro ⟨loop, hg, _⟩
      simp [connLoop, hz, LoopThreadPool.getLoopForNewConnection, hl] at hg

theorem newConnection (h : s₁.Invariant) (e : s₁.newConnection base = some s₂) : s₂.Invariant := by
  have hc : ∃ loop, (s₁.connLoop base).1 = some loop := by
    simp only [TcpServer.newConnection, Option.map_eq_some_iff] at e
    have ⟨loop, he, _⟩ := e
    exact ⟨loop, he⟩
  by_cases hz : s₁.threadPool.threadNum = 0
  case pos =>
    simp only [TcpServer.newConnection, connLoop, hz, if_true, Option.map_some,
      Option.some.injEq] at e
    exact e ▸ ⟨h.started, h.loops, h.nodup, h.turns, h.fresh⟩
  case neg =>
    have hs : s₁.started = true := by
      by_contra hs
      have hl := h.loops
      have ⟨_, hc⟩ := hc
      rw [if_neg hs, List.length_eq_zero_iff] at hl
      simp [connLoop, hz, LoopThreadPool.getLoopForNewConnection, hl] at hc
    have ⟨loop, _, hg, ht⟩ := h.get hs hz
    simp only [TcpServer.newConnection, connLoop, hz, if_false, hg, Option.map_some,
      Option.some.injEq] at e
    exact e ▸ ⟨h.started, h.loops, h.nodup, ht, fun hf => absurd (hs.symm.trans hf) (by decide)⟩

theorem step (h : s₁.Invariant) (e : Step base s₁ act s₂) : s₂.Invariant := by
  cases e
  case setThreadNumber                => exact h.setThreadNumber _
  case start hs hl hn _               => exact h.start hs hl hn
  case setNewConnection | swap        => exact ⟨h.started, h.loops, h.nodup, h.turns, h.fresh⟩
  case task he =>
    have h := h.newConnection he
    exact ⟨h.started, h.loops, h.nodup, h.turns, h.fresh⟩
  case accept he => exact h.newConnection he

end Invariant

theorem Invariant.connLoop_running {ι : Type} {t : Bounce.TcpServer ι θ} (h : s.Invariant)
    (hs : s.started = true) (ht : t.threadPool = s.threadPool.running) :
    (s.connLoop base).1 = some (t.connLoop base).1 ∧
    (s.connLoop base).2.running = (t.connLoop base).2 := by
  have hl := h.loops
  rw [hs, if_pos rfl] at hl
  have hz : s.threadPool.loops.length = 0 ↔ s.threadPool.threadNum = 0 := by
    rw [hl]
    exact UInt32.toNat_inj (b := 0)
  simp only [connLoop, Bounce.TcpServer.connLoop, ht, LoopThreadPool.running, hz]
  split
  case isTrue  => exact ⟨rfl, rfl⟩
  case isFalse hz =>
    have ⟨idx, he, hidx, hi, hn⟩ := h.index hs hz
    simp only [he, Bounce.LoopThreadPool.getLoopForNewConnection, ← hidx, hn,
      List.getElem?_eq_getElem hi,
      Option.getD_some, and_self]

theorem run_invariant {threadNum : UInt32} (e : Steps (Step base) (new threadNum) acts s) :
    s.Invariant :=
  e.invariant (fun h e => h.step e) (.new threadNum)

theorem chooses_iff_started {threadNum : UInt32} (e : Steps (Step base) (new threadNum) acts s) :
    (s.Chooses base ↔ s.started = true ∨ s.threadPool.threadNum = 0) ∧
    ∀ l ∈ s.threadPool.loops, ∀ l' ∈ s.threadPool.loops,
      s.given.count l ≤ s.given.count l' + 1 := by
  have h := run_invariant e
  exact ⟨h.chooses_iff, fun l hl l' hl' => h.turns.count_le hl hl'⟩

theorem chooses_of_two_threads :
    ∃ s : TcpServer Nat, Steps (Step 0) (new 0)
      [.setNewConnection 5, .swap, .task, .setThreadNumber 2, .start [1, 2],
        .setNewConnection 6, .swap,
        .accept 7, .task, .accept 8] s ∧ s.given = [1, 2, 1] ∧
      (s.Chooses 0 ↔ s.started = true ∨ s.threadPool.threadNum = 0) ∧
      ∀ l ∈ s.threadPool.loops, ∀ l' ∈ s.threadPool.loops,
        s.given.count l ≤ s.given.count l' + 1 := by
  have ⟨s, e, hg⟩ : ∃ s : TcpServer Nat, Steps (Step 0) (new 0)
      [.setNewConnection 5, .swap, .task, .setThreadNumber 2, .start [1, 2],
        .setNewConnection 6, .swap,
        .accept 7, .task, .accept 8] s ∧ s.given = [1, 2, 1] :=
    ⟨_, .step .setNewConnection (.step (.swap rfl) (.step (.task rfl rfl) (.step .setThreadNumber
      (.step (.start rfl rfl (by decide) (by decide)) (.step .setNewConnection (.step (.swap rfl)
        (.step (.accept rfl rfl) (.step (.task rfl rfl) (.single (.accept rfl rfl)))))))))), rfl⟩
  exact ⟨s, e, hg, chooses_iff_started e⟩

-- A server of one thread gets a connection before it is started.
theorem not_chooses_before_start :
    ∃ s : TcpServer Nat, Steps (Step 0) (new 1) [.setNewConnection 5, .swap] s ∧
      s.tasks.tmpVec = [5] ∧
      s.threadPool.loops = [] ∧ (s.connLoop 0).1 = none ∧ ¬s.Chooses 0 := by
  refine ⟨_, .step .setNewConnection (.single (.swap rfl)), rfl, rfl, rfl, ?_⟩
  intro ⟨_, h, _⟩
  cases h

end TcpServer
end Bounce.Distribution
