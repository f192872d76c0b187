import Bounce.Execution.Accepting.Basic
import Bounce.Objects.PollPoller.Theorems.Consistent

namespace Bounce

namespace PollPoller

variable {χ : Type} [DecidableEq χ] {p p' : PollPoller χ} {c : χ} {call : Call χ}

structure Frame (p p' : PollPoller χ) (own : Int) : Prop where
  fd   : ∀ c, (p'.channel c).fd = (p.channel c).fd
  keys : ∀ k ∈ p'.channels, k ∈ p.channels ∨ k = own

theorem updateChannel_frame (h : p.updateChannel c = .ok p') : p.Frame p' (p.channel c).fd := by
  simp only [updateChannel] at h
  split at h
  case isTrue =>
    split at h
    case isTrue  => cases h; exact ⟨fun _ => rfl, fun _ hk => .inl hk⟩
    case isFalse => contradiction
  case isFalse =>
    cases h
    refine ⟨fun c' => ?_, fun k hk => ?_⟩
    · by_cases hc : c' = c <;> simp [hc, Channel.setIndex]
    · rw [Std.TreeMap.mem_insert] at hk
      exact hk.symm.imp_right fun he => (Std.LawfulEqCmp.eq_of_compare he).symm

theorem removeChannel_frame (h : p.removeChannel c = .ok p') : p.Frame p' (p.channel c).fd := by
  have he : ∀ k ∈ p.channels.erase (p.channel c).fd, k ∈ p.channels ∨ k = (p.channel c).fd :=
    fun k hk => .inl (Std.TreeMap.mem_of_mem_erase hk)
  simp only [removeChannel] at h
  split at h
  case isFalse => cases h; exact ⟨fun _ => rfl, fun _ hk => .inl hk⟩
  case isTrue =>
    split at h
    case isFalse => cases h; exact ⟨fun _ => rfl, he⟩
    case isTrue =>
      split at h
      case h_2 => contradiction
      case h_1 =>
        split at h
        case h_1 l _ =>
          cases h
          refine ⟨fun c' => ?_, he⟩
          by_cases hc : c' = l <;> simp [hc, Channel.setIndex]
        case h_2 => contradiction
        case h_3 => contradiction

theorem exec_frame (h : call.exec p = .ok p') : p.Frame p' (p.channel call.channel).fd := by
  have hset : ∀ c (channel : Channel), channel.fd = (p.channel c).fd →
      (p.set c channel).updateChannel c = .ok p' → p.Frame p' (p.channel c).fd := by
    intro c channel hf hu
    have hfr := updateChannel_frame hu
    have hfd : ∀ c', ((p.set c channel).channel c').fd = (p.channel c').fd := by
      intro c'
      by_cases hc : c' = c <;> simp [set, hc, hf]
    exact ⟨fun c' => (hfr.fd c').trans (hfd c'), fun k hk => hfd c ▸ hfr.keys k hk⟩
  cases call
  case remove c         => exact removeChannel_frame h
  case enableReading c  => exact hset c (p.channel c).enableReading rfl h
  case disableReading c => exact hset c (p.channel c).disableReading rfl h
  case enableWriting c  => exact hset c (p.channel c).enableWriting rfl h
  case disableWriting c => exact hset c (p.channel c).disableWriting rfl h
  case disableAll c     => exact hset c (p.channel c).disableAll rfl h

end PollPoller
open Accepting

namespace TcpServer

variable {ι θ : Type} [DecidableEq ι] [DecidableEq θ] {base t : θ} {s s' s₀ : TcpServer ι θ}
variable {fd : Int} {c : Nat}
variable {act : Act ι θ} {acts : List (Act ι θ)}

structure NonNeg (s : TcpServer ι θ) : Prop where
  map    : ∀ k ∈ s.connectionMap, 0 ≤ k
  poller : ∀ t, ∀ k ∈ (s.poller t).channels, 0 ≤ k

structure Unchanged (s s' : TcpServer ι θ) : Prop where
  map       : s'.connectionMap = s.connectionMap
  channels  : ∀ t, (s'.poller t).channels = (s.poller t).channels
  pollfds   : ∀ t, (s'.poller t).pollfds = (s.poller t).pollfds
  connected : s'.connected = s.connected
  polled    : ∀ t c, (s.poller t).Registered c → (s'.poller t).watch c = (s.poller t).watch c

structure Withstands (base : θ) (s₀ : TcpServer ι θ) (acts : List (Act ι θ)) : Prop where
  failed : ∀ as₁ as₂ fd s s', acts = as₁ ++ .accept fd :: as₂ → fd < 0 →
    Steps (Steps.Of (step base)) s₀ as₁ s → s.step base (.accept fd) = some s' → s.Unchanged s'
  nonneg : ∀ as₁ as₂ s, acts = as₁ ++ as₂ → Steps (Steps.Of (step base)) s₀ as₁ s → s.NonNeg

structure Initial (s : TcpServer ι θ) : Prop where
  map      : s.connectionMap = ∅
  created  : s.created = 0
  queue    : ∀ t, s.queue t = .empty
  channels : ∀ t, ∀ k ∈ (s.poller t).channels, 0 ≤ k
  own      : ∀ t i, 0 ≤ ((s.poller t).channel (.inl i)).fd

structure Sound (s : TcpServer ι θ) : Prop where
  nonneg : s.NonNeg
  own    : ∀ t i, 0 ≤ ((s.poller t).channel (.inl i)).fd
  conn   : ∀ c < s.created, 0 ≤ ((s.poller (s.loop c)).channel (.inr c)).fd
  queue  : ∀ t, ∀ c ∈ (s.queue t).pending, c < s.created

theorem connectComplete_map (h : s.connectComplete c = some s') :
    s'.connectionMap = s.connectionMap := by
  rw [connectComplete] at h
  split at h
  case h_1 => cases h; rfl
  case h_2 => contradiction

theorem newConnection_map (h : s.newConnection base fd = some s') :
    s'.connectionMap = s.connectionMap.insertIfNew fd s.created := by
  simp only [newConnection] at h
  split at h
  case isTrue  => exact connectComplete_map h
  case isFalse => cases h; rfl

theorem Sound.call {p : PollPoller (ι ⊕ Nat)} {call : PollPoller.Call (ι ⊕ Nat)} (h : s.Sound)
    (ho : s.Owns t call.channel) (hp : call.exec (s.poller t) = .ok p) :
    ({ s with poller := Function.update s.poller t p } : TcpServer ι θ).Sound := by
  have hf := PollPoller.exec_frame hp
  have hfd : ∀ t' c, ((Function.update s.poller t p t').channel c).fd =
      ((s.poller t').channel c).fd := by
    intro t' c
    by_cases ht : t' = t
    case pos =>
      subst ht
      rw [Function.update_self]
      exact hf.fd c
    case neg => rw [Function.update_of_ne ht]
  have hown : 0 ≤ ((s.poller t).channel call.channel).fd := by
    cases hc : call.channel
    case inl i => exact h.own t i
    case inr c =>
      rw [hc] at ho
      exact ho.right ▸ h.conn c ho.left
  exact {
    nonneg := {
      map    := h.nonneg.map
      poller := by
        intro t' k hk
        by_cases ht : t' = t
        case pos =>
          subst ht
          have hk : k ∈ p.channels := by simpa using hk
          cases hf.keys k hk
          case inl hk => exact h.nonneg.poller t' k hk
          case inr he => exact he ▸ hown
        case neg => exact h.nonneg.poller t' k (by simpa [ht] using hk)
    }
    own    := fun t' i => hfd t' (.inl i) ▸ h.own t' i
    conn   := fun c hc => hfd (s.loop c) (.inr c) ▸ h.conn c hc
    queue  := h.queue
  }

theorem Sound.connectComplete (h : s.Sound) (hc : c < s.created)
    (he : s.connectComplete c = some s') :
    s'.Sound := by
  rw [TcpServer.connectComplete] at he
  split at he
  case h_2 => contradiction
  case h_1 p hp =>
    cases he
    have ho : s.Owns (s.loop c) (PollPoller.Call.enableReading (.inr c)).channel := ⟨hc, rfl⟩
    have hs := h.call ho hp
    exact ⟨⟨hs.nonneg.map, hs.nonneg.poller⟩, hs.own, hs.conn, hs.queue⟩

theorem Sound.insert (h : s.Sound) (base : θ) (hf : 0 ≤ fd) : (s.insert base fd).Sound where
  nonneg := {
    map    := by
      intro k hk
      rw [TcpServer.insert, Std.TreeMap.mem_insertIfNew] at hk
      cases hk
      case inl he => exact Std.LawfulEqCmp.eq_of_compare he ▸ hf
      case inr hk => exact h.nonneg.map k hk
    poller := by
      intro t k hk
      by_cases ht : t = (s.connLoop base).1 <;> simp [TcpServer.insert, ht] at hk
      case pos => exact h.nonneg.poller _ k hk
      case neg => exact h.nonneg.poller t k hk
  }
  own t i := by
    by_cases ht : t = (s.connLoop base).1 <;> simp [TcpServer.insert, ht, PollPoller.set, h.own]
  conn c hc := by
    by_cases he : c = s.created
    case pos => simp [TcpServer.insert, he, PollPoller.set, Channel.new, hf]
    case neg =>
      have hc : c < s.created := by simp [TcpServer.insert] at hc; omega
      have hn := h.conn c hc
      by_cases ht : s.loop c = (s.connLoop base).1 <;>
        simp [TcpServer.insert, he, ht, PollPoller.set] <;> simpa [ht] using hn
  queue t c hc := Nat.lt_succ_of_lt (h.queue t c hc)

theorem Sound.newConnection (h : s.Sound) (hf : 0 ≤ fd) (he : s.newConnection base fd = some s') :
    s'.Sound := by
  have hi := h.insert base hf
  have hc : s.created < (s.insert base fd).created := Nat.lt_succ_self _
  simp only [TcpServer.newConnection] at he
  split at he
  case isTrue  => exact hi.connectComplete hc he
  case isFalse =>
    cases he
    refine ⟨⟨hi.nonneg.map, hi.nonneg.poller⟩, hi.own, hi.conn, fun t c' hm => ?_⟩
    by_cases ht : t = (s.connLoop base).1
    case pos =>
      simp only [ht, Function.update_self, TaskQueue.push_pending, List.mem_append,
        List.mem_singleton] at hm
      cases hm
      case inl hm => exact hi.queue _ c' hm
      case inr he => exact he ▸ hc
    case neg => exact hi.queue t c' (by simpa [ht] using hm)

omit [DecidableEq ι] in
theorem Sound.setQueue {q : TaskQueue Nat} (h : s.Sound) (hq : ∀ c ∈ q.pending, c < s.created) :
    ({ s with queue := Function.update s.queue t q } : TcpServer ι θ).Sound := by
  refine ⟨⟨h.nonneg.map, h.nonneg.poller⟩, h.own, h.conn, fun t' c hm => ?_⟩
  by_cases ht : t' = t
  case pos => exact hq c (by simpa [ht] using hm)
  case neg => exact h.queue t' c (by simpa [ht] using hm)

theorem Sound.step (h : s.Sound) (ha : ∀ fd, act = .accept fd → 0 ≤ fd)
    (he : s.step base act = some s') :
    s'.Sound := by
  cases act <;> simp only [TcpServer.step] at he
  case accept fd =>
    split at he
    case isTrue  => exact h.newConnection (ha fd rfl) he
    case isFalse => contradiction
  case newConnection fd =>
    split at he
    case isTrue hf => exact h.newConnection hf he
    case isFalse   => contradiction
  case swap t =>
    split at he
    case isTrue ht =>
      cases he
      refine h.setQueue fun c hm => h.queue t c ?_
      rwa [TaskQueue.swap_pending ht] at hm
    case isFalse => contradiction
  case connectComplete t =>
    split at he
    case h_1 => contradiction
    case h_2 c cs hq =>
      have hm : ∀ c' ∈ c :: (cs ++ (s.queue t).taskVec), c' < s.created := by
        intro c' hm
        exact h.queue t c' (by simpa [TaskQueue.pending, hq] using hm)
      have hs :=
        h.setQueue (t := t) (q := { s.queue t with tmpVec := cs }) fun c' hc => hm c' (.tail _ hc)
      exact hs.connectComplete (hm c List.mem_cons_self) he
  case call t call =>
    split at he
    case isFalse => contradiction
    case isTrue ho =>
      split at he
      case h_1 hp => cases he; exact h.call ho hp
      case h_2    => contradiction
  case remove fd =>
    cases he
    refine ⟨⟨fun k hk => ?_, h.nonneg.poller⟩, h.own, h.conn, h.queue⟩
    exact h.nonneg.map k (Std.TreeMap.mem_of_mem_erase hk)

theorem Sound.run (h : s.Sound) (ha : ∀ fd, .accept fd ∈ acts → 0 ≤ fd)
    (e : Steps (Steps.Of (TcpServer.step base)) s acts s') : s'.Sound := by
  induction e
  case refl => exact h
  case step hr _ hi =>
    refine hi (h.step (fun fd he => ?_) hr) fun fd hm => ha fd (.tail _ hm)
    exact ha fd (he ▸ List.mem_cons_self)

omit [DecidableEq ι] [DecidableEq θ] in
theorem Initial.sound (h : Initial s) : s.Sound where
  nonneg := ⟨fun k hk => by simp [h.map] at hk, h.channels⟩
  own    := h.own
  conn c hc := by simp [h.created] at hc
  queue t c hc := by simp [h.queue, TaskQueue.pending, TaskQueue.empty] at hc

theorem withstands_iff (hi : Initial s₀) (e : Steps (Steps.Of (step base)) s₀ acts s) :
    Withstands base s₀ acts ↔ ∀ fd, .accept fd ∈ acts → 0 ≤ fd where
  mp h fd hm := by
    by_contra hf
    have ⟨as₁, as₂, ha⟩ := List.append_of_mem hm
    have ⟨s₁, e₁, e₂⟩ := (ha ▸ e).split
    cases e₂
    case step s₂ hr _ =>
      have hs : s₁.step base (.accept fd) = some s₂ := hr
      have hu := (h.failed as₁ as₂ fd s₁ s₂ ha (Int.not_le.mp hf) e₁ hs).map
      have hn := (h.nonneg as₁ (.accept fd :: as₂) s₁ ha e₁).map fd
      simp only [step] at hs
      split at hs
      case isFalse => contradiction
      case isTrue  =>
        rw [newConnection_map hs] at hu
        exact hf (hn (hu ▸ Std.TreeMap.mem_insertIfNew_self))
  mpr ha := by
    refine ⟨fun as₁ as₂ fd _ _ he hf => ?_, fun as₁ as₂ s he e => ?_⟩
    · exact absurd (ha fd (he ▸ List.mem_append_right _ List.mem_cons_self)) (Int.not_le.mpr hf)
    · refine (hi.sound.run (fun fd hm => ?_) e).nonneg
      exact ha fd (he ▸ List.mem_append_left _ hm)

inductive Own
  | timer
  | weakUp
  | listen
  deriving DecidableEq

def ownPoller : PollPoller (Own ⊕ Nat) where
  channel
    | .inl .timer  => ⟨3, Channel.kReadEvent, 0, 0⟩
    | .inl .weakUp => ⟨4, Channel.kReadEvent, 0, 1⟩
    | .inl .listen => ⟨5, Channel.kReadEvent, 0, 2⟩
    | .inr _       => .new 0
  channels := (∅ : Std.TreeMap Int (Option (Own ⊕ Nat))).insert 3 (some (.inl .timer)) |>.insert 4
    (some (.inl .weakUp)) |>.insert 5 (some (.inl .listen))
  pollfds  := #[⟨3, Channel.kReadEvent, 0⟩, ⟨4, Channel.kReadEvent, 0⟩, ⟨5, Channel.kReadEvent, 0⟩]

def started : TcpServer Own Unit where
  threadPool    := ⟨[], 0⟩
  connectionMap := ∅
  created       := 0
  loop          := fun _ => ()
  poller        := fun _ => ownPoller
  queue         := fun _ => .empty
  connected     := []

theorem started_initial : Initial started where
  map      := rfl
  created  := rfl
  queue _  := rfl
  channels := by
    intro _ k hk
    simp only [started, ownPoller, Std.TreeMap.mem_insert, Std.LawfulEqCmp.compare_eq_iff_eq] at hk
    obtain rfl | rfl | rfl | hk := hk
    · decide
    · decide
    · decide
    · simp at hk
  own t i  := by cases t; cases i <;> decide

theorem withstands_of_two_connections :
    ∃ s, Steps (Steps.Of (step ())) started
      [.accept 7, .accept 8, .call () (.disableAll (.inr 0)), .remove 7,
        .call () (.remove (.inr 0))] s ∧
      Withstands () started
        [.accept 7, .accept 8, .call () (.disableAll (.inr 0)), .remove 7,
          .call () (.remove (.inr 0))] := by
  refine ⟨_, Steps.of_isSome ?run,
    (withstands_iff started_initial (Steps.of_isSome ?run)).mpr ?answers⟩
  case run     => decide +kernel
  case answers => simp

-- The first failure puts a connection into the map and the poller. The second one overwrites the
-- entry of the timers.
theorem not_withstands_of_failures :
    ∃ s s', started.step () (.accept (-1)) = some s ∧ s.step () (.accept (-1)) = some s' ∧
      -1 ∈ s.connectionMap ∧ -1 ∈ (s.poller ()).channels ∧ s.connected = [0] ∧
      s'.connected = [0, 1] ∧
      (started.poller ()).pollfds[0]? = some ⟨3, Channel.kReadEvent, 0⟩ ∧
      (s'.poller ()).pollfds[0]? = some ⟨-1, Channel.kReadEvent, 0⟩ ∧
      ¬Withstands () started [.accept (-1), .accept (-1)] := by
  have ⟨s, s', hs, hs', hp⟩ :
      ∃ s s', started.step () (.accept (-1)) = some s ∧ s.step () (.accept (-1)) = some s' ∧
      -1 ∈ s.connectionMap ∧ -1 ∈ (s.poller ()).channels ∧ s.connected = [0] ∧
      s'.connected = [0, 1] ∧
      (started.poller ()).pollfds[0]? = some ⟨3, Channel.kReadEvent, 0⟩ ∧
      (s'.poller ()).pollfds[0]? = some ⟨-1, Channel.kReadEvent, 0⟩ := by
    refine ⟨_, _, (Option.some_get ?first).symm, (Option.some_get ?second).symm, ?_⟩
    case first => decide +kernel
    all_goals decide +kernel
  have ⟨hm, hk, hc, hc', he, he'⟩ := hp
  refine ⟨s, s', hs, hs', hm, hk, hc, hc', he, he', fun h => ?_⟩
  have hu := (h.failed [] [.accept (-1)] (-1) started s rfl (by decide) .refl hs).map
  rw [hu] at hm
  simp [started] at hm

end TcpServer
end Bounce
