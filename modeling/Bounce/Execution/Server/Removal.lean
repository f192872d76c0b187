import Bounce.Execution.Server.View

namespace Bounce.Server

open Connection (Code Answer Api Owned doTaskInThread)
open Tagged

variable {θ : Type} [DecidableEq θ] {cfg : Callbacks} {initSize : Nat} {base t loop : θ}
variable {s s' : State θ}
variable {act : Act θ} {c d : Nat} {n : Nat → Nat}

namespace State

def OnLoop (s : State θ) : Act θ → Prop
  | .call t c _ => t = s.loop c
  | _           => True

instance : ∀ act, Decidable (s.OnLoop act)
  | .call t c _ => inferInstanceAs (Decidable (t = s.loop c))
  | .accept _ _ | .hold _ | .drop _ | .exec _ _ | .poll _ _ | .dispatch _ | .swap _ | .task _
  | .finish _ =>
    .isTrue trivial

def Registered (s : State θ) (c : Nat) : Prop :=
  (s.conn c).channel.slot ≠ none

def Waiting (s : State θ) (c : Nat) : Prop :=
  ∃ t batch, s.phase t = .dispatch batch ∧ c ∈ batch.map (·.1)

end State

omit [DecidableEq θ] in
theorem Act.For.onLoop {a : Connection.Act θ} (hf : act.For c a) (h : s.OnLoop act) :
    (s.view c).OnLoop (s.loop c) a := by
  cases hf
  case call => exact h
  all_goals trivial

structure Numbered (s : State θ) : Prop where
  stack : ∀ t, ∀ x ∈ s.stack t, x.1 < s.created
  queue : ∀ t, ∀ x ∈ (s.queue t).pending, x.1 < s.created
  batch : ∀ t batch, s.phase t = .dispatch batch → ∀ x ∈ batch, x.1 < s.created

namespace Numbered

theorem resume {r : Connection θ × List (Code θ)} {rest : List (Nat × Code θ)} (h : Numbered s)
    (hc : c < s.created) (hr : ∀ x ∈ rest, x.1 < s.created) : Numbered (s.resume t c r rest) where
  stack t' x hx := by
    by_cases ht : t' = t
    case neg => exact h.stack t' x (by simpa [State.resume, ht] using hx)
    case pos =>
      have hx : x ∈ tag c r.2 ++ rest := by simpa [State.resume, ht] using hx
      cases List.mem_append.mp hx
      case inl hx => exact (mem_tag hx).left ▸ hc
      case inr hx => exact hr x hx
  queue := h.queue
  batch := h.batch

theorem setPhase {p : Phase} (h : Numbered s)
    (hp : ∀ batch, p = .dispatch batch → ∀ x ∈ batch, x.1 < s.created) :
    Numbered (s.setPhase t p) where
  stack := h.stack
  queue := h.queue
  batch t' batch hb := by
    by_cases ht : t' = t
    case pos => exact hp batch (by simpa [State.setPhase, ht] using hb)
    case neg => exact h.batch t' batch (by simpa [State.setPhase, ht] using hb)

theorem setQueue {q : TaskQueue (Nat × Connection.Task θ)} (h : Numbered s)
    (hq : ∀ x ∈ q.pending, x.1 < s.created) : Numbered (s.setQueue t q) where
  stack := h.stack
  queue t' x hx := by
    by_cases ht : t' = t
    case pos => exact hq x (by simpa [State.setQueue, ht] using hx)
    case neg => exact h.queue t' x (by simpa [State.setQueue, ht] using hx)
  batch := h.batch

theorem step (h : Numbered s) (e : Step cfg initSize base s act s') : Numbered s' := by
  have hrest : ∀ {t x rest}, s.stack t = x :: rest →
      x.1 < s.created ∧ ∀ y ∈ rest, y.1 < s.created := by
    intro t x rest hs
    have hm := hs ▸ h.stack t
    exact ⟨hm x List.mem_cons_self, fun y hy => hm y (.tail _ hy)⟩
  cases e
  case accept loop fd _ _ _ _ =>
    have hlt : ∀ {c}, c < s.created → c < s.created + 1 := fun hc => Nat.lt_succ_of_lt hc
    refine ⟨fun t x hx => ?_, fun t x hx => hlt (h.queue t x hx),
      fun t b hb x hx => hlt (h.batch t b hb x hx)⟩
    by_cases ht : t = base
    case pos =>
      obtain rfl : x = (s.created, doTaskInThread loop base .connectComplete) := by
        simpa [State.newConnection, ht] using hx
      exact Nat.lt_succ_self _
    case neg => exact hlt (h.stack t x (by simpa [State.newConnection, ht] using hx))
  case hold | drop => exact ⟨h.stack, h.queue, h.batch⟩
  case call t c _ hl _ _ => exact h.resume hl.left (h.stack t)
  case exec hs _ => exact h.resume (hrest hs).left (hrest hs).right
  case queue t c f rest hs =>
    have hq : Numbered (s.setQueue (f.home (s.loop c) base)
        ((s.queue (f.home (s.loop c) base)).push (c, f))) := by
      refine h.setQueue fun x hx => ?_
      rw [TaskQueue.push_pending, List.mem_append, List.mem_singleton] at hx
      cases hx
      case inl hx => exact h.queue _ x hx
      case inr hx => exact hx ▸ (hrest hs).left
    exact hq.resume (hrest hs).left (hrest hs).right
  case remove t c rest hs =>
    have hr : Numbered (s.removeConnectionInLoop c).1 ∧
        (s.removeConnectionInLoop c).1.created = s.created := by
      rw [State.removeConnectionInLoop]
      split <;> exact ⟨⟨h.stack, h.queue, h.batch⟩, rfl⟩
    exact hr.left.resume (hr.right ▸ (hrest hs).left) (hr.right ▸ (hrest hs).right)
  case poll hb => exact h.setPhase fun batch hp x hx => (hb x (Phase.dispatch.inj hp ▸ hx)).left
  case dispatch t c revents batch hp _ =>
    have hb := h.batch t _ hp
    have hs : Numbered (s.setPhase t (.dispatch batch)) :=
      h.setPhase fun batch hp x hx => hb x (.tail _ (Phase.dispatch.inj hp ▸ hx))
    exact hs.resume (hb _ List.mem_cons_self) (by simp)
  case swap t _ _ =>
    have hs : Numbered (s.setPhase t .tasks) := h.setPhase fun _ hp => by cases hp
    exact hs.setQueue fun x hx => h.queue t x
      (List.mem_append_right _ (by simpa [TaskQueue.pending, TaskQueue.swap] using hx))
  case task t c f tasks _ _ hq =>
    have hx : ∀ x ∈ (c, f) :: (tasks ++ (s.queue t).taskVec), x.1 < s.created :=
      fun x hx => h.queue t x (by simpa [TaskQueue.pending, hq] using hx)
    have hs : Numbered (s.setQueue t { s.queue t with tmpVec := tasks }) :=
      h.setQueue fun x hm => hx x (.tail _ hm)
    exact hs.resume (hx _ List.mem_cons_self) (by simp)
  case finish => exact h.setPhase fun _ hp => by cases hp

theorem destroys (h : Numbered s) (hc : s.created ≤ c) : s.destroys act c = 0 := by
  refine if_neg fun ht => ?_
  cases act
  case exec t answer =>
    have hd := h.stack t _ (List.mem_of_head? ht)
    exact Nat.not_lt.mpr hc hd
  all_goals contradiction

end Numbered

omit [DecidableEq θ] in
theorem Act.accept_or (act : Act θ) :
    (∃ loop fd, act = .accept loop fd) ∨ ∀ loop fd, act ≠ .accept loop fd := by
  cases act
  case accept loop fd => exact .inl ⟨loop, fd, rfl⟩
  all_goals exact .inr nofun

structure Frame (s s' : State θ) : Prop where
  created : s'.created = s.created
  loop    : s'.loop = s.loop
  map     : ∀ (fd : Int) c, s'.connectionMap[fd]? = some c → s.connectionMap[fd]? = some c
  held    : ∀ c, s'.held c → s.held c ∨ s.Alive c

theorem Step.frame (e : Step cfg initSize base s act s') (ha : ∀ loop fd, act ≠ .accept loop fd) :
    Frame s s' := by
  cases e
  case accept loop fd _ _ _ _ => exact absurd rfl (ha loop fd)
  case hold c hl =>
    refine ⟨rfl, rfl, fun _ _ => id, fun d hd => ?_⟩
    by_cases hc : d = c
    case pos => exact .inr (hc ▸ hl)
    case neg => exact .inl (by simpa [State.setHeld, hc] using hd)
  case drop c =>
    refine ⟨rfl, rfl, fun _ _ => id, fun d hd => ?_⟩
    by_cases hc : d = c
    case pos => simp [State.setHeld, hc] at hd
    case neg => exact .inl (by simpa [State.setHeld, hc] using hd)
  case remove t c rest _ =>
    have hr : Frame s (s.removeConnectionInLoop c).1 := by
      rw [State.removeConnectionInLoop]
      split
      case h_2 => exact ⟨rfl, rfl, fun _ _ => id, fun _ => .inl⟩
      case h_1 =>
        refine ⟨rfl, rfl, fun fd d hd => ?_, fun _ => .inl⟩
        rw [Std.TreeMap.getElem?_erase] at hd
        split at hd
        case isTrue  => contradiction
        case isFalse => exact hd
    exact ⟨hr.created, hr.loop, hr.map, hr.held⟩
  all_goals exact ⟨rfl, rfl, fun _ _ => id, fun _ => .inl⟩

theorem Viewed.fd (h : Viewed cfg base s act s' c) : s'.getFd c = s.getFd c := by
  cases h
  case none hv _   => exact congrArg (fun v : Connection.State θ => v.conn.socket.fd) hv
  case step e _    => exact e.fd

namespace State

theorem view_newConnection {fd : Int} (hn : Numbered s) (hm : s.connectionMap[fd]? = none) :
    Connection.Fresh loop base ((s.newConnection initSize base loop fd).view s.created) := by
  have hst : (fun t => only s.created ((s.newConnection initSize base loop fd).stack t)) =
      Function.update (fun _ => []) base [doTaskInThread loop base .connectComplete] := by
    funext t
    by_cases ht : t = base
    case pos => simp [newConnection, ht]
    case neg => simp [newConnection, ht, only_eq_nil fun x hx => Nat.ne_of_lt (hn.stack t x hx)]
  have hq : ((s.newConnection initSize base loop fd).view s.created).queue = fun _ => .empty := by
    funext t
    have hq : ∀ l, (∀ x ∈ l, x ∈ (s.queue t).pending) → only s.created l = [] :=
      fun l hl => only_eq_nil fun x hx => Nat.ne_of_lt (hn.queue t x (hl x hx))
    have ht := hq (s.queue t).tmpVec fun x hx => List.mem_append_left _ hx
    have hv := hq (s.queue t).taskVec fun x hx => List.mem_append_right _ hx
    simp [view, newConnection, TaskQueue.empty, ht, hv]
  exact {
    conn    := ⟨initSize, fd, by simp [view, newConnection]⟩
    mapped  := by
      have hm : fd ∉ s.connectionMap := by simpa using hm
      have hg : (s.connectionMap.insertIfNew fd s.created)[fd]? = some s.created := by
        rw [Std.TreeMap.getElem?_insertIfNew, if_pos ⟨Std.compare_self, hm⟩]
      simp only [view, newConnection_getFd]
      exact beq_iff_eq.mpr hg
    starts  := by
      rw [hq, view, hst, doTaskInThread]
      split
      case isTrue h  => exact h ▸ .starting
      case isFalse h => exact .queueing
    phase   := by
      intro t r hp
      cases hs : s.phase t <;> simp [view, newConnection, hs, Phase.of] at hp
      case dispatch batch =>
        obtain ⟨l₁, l₂, hl, _⟩ := List.lookup_eq_some_iff.mp hp
        exact Nat.lt_irrefl _ (hn.batch t batch hs (s.created, r) (by simp [hl]))
    batched := Connection.Batched.of_empty hq
  }

theorem view_newConnection_of_ne {fd : Int} (hb : s.stack base = []) (hc : c ≠ s.created) :
    (s.newConnection initSize base loop fd).view c = s.view c := by
  have hst : (fun t => only c ((s.newConnection initSize base loop fd).stack t)) =
      fun t => only c (s.stack t) := by
    funext t
    by_cases ht : t = base
    case pos => simp [newConnection, ht, hb, only_cons_of_ne (Ne.symm hc)]
    case neg => simp [newConnection, ht]
  have hm : ((s.connectionMap.insertIfNew fd s.created)[s.getFd c]? == some c) =
      (s.connectionMap[s.getFd c]? == some c) := by
    rw [Std.TreeMap.getElem?_insertIfNew]
    split
    case isFalse => rfl
    case isTrue hf =>
      obtain ⟨hf, hn⟩ := hf
      obtain rfl := Std.LawfulEqOrd.eq_of_compare hf
      rw [Std.TreeMap.getElem?_eq_none hn]
      simp [Ne.symm hc]
  simp only [view, hst, ← hm]
  simp [newConnection, getFd, hc]

end State

structure Safe (base : θ) (s : State θ) (n : Nat → Nat) : Prop where
  turns    : Turns s
  numbered : Numbered s
  map      : ∀ (fd : Int) c, s.connectionMap[fd]? = some c → c < s.created ∧ s.getFd c = fd
  owned    : ∀ c < s.created, Owned (s.loop c) base (s.view c) (n c)
  fresh    : ∀ c, s.created ≤ c → n c = 0
  unique   : ∀ c d, s.Alive c → s.Alive d → s.getFd c = s.getFd d → c = d

namespace Safe

theorem alive_of_map {fd : Int} (h : Safe base s n) (hm : s.connectionMap[fd]? = some c) :
    s.Alive c := by
  have ⟨hc, hf⟩ := h.map fd c hm
  exact ⟨hc, .inl (.inl (by simp [State.view, hf, hm]))⟩

theorem alive_of_stack {code : Code θ} (h : Safe base s n) (hm : (c, code) ∈ s.stack t)
    (hs : code.shared) :
    s.Alive c :=
  ⟨h.numbered.stack t _ hm, .inl (Connection.Managed.shared_of_mem_stack (mem_only.mpr hm) hs)⟩

theorem matched (h : Safe base s n) : Matched s := by
  intro t c rest hs d hd
  have hc := h.alive_of_stack (hs ▸ List.mem_cons_self) rfl
  exact h.unique d c (h.alive_of_map hd) hc (h.map _ d hd).right

theorem alive_of_step (h : Safe base s n) (e : Step cfg initSize base s act s')
    (ha : ∀ loop fd, act ≠ .accept loop fd) (hc : s'.Alive c) : s.Alive c := by
  have hf := e.frame ha
  have hlt : c < s.created := hf.created ▸ hc.left
  by_contra hn
  have hs : ¬(s.view c).Shared := fun hs => hn ⟨hlt, .inl hs⟩
  refine hc.right.elim ?_ fun hh => ?_
  · cases e.viewed h.turns h.matched ha c
    case none hv _ => exact hv ▸ hs
    case step a ho hv _ =>
      refine (h.owned c hlt).not_shared_step hs (fun t api hca => ?_) hv
      subst hca
      cases ho
      cases e
      case call => exact hn ‹s.Alive c›
  · cases hf.held c hh
    case inl hh => exact hn ⟨hlt, .inr hh⟩
    case inr hl => exact hn hl

theorem not_mem_of_accept {fd : Int} (h : Safe base s n) (hf : ∀ c, s.Alive c → s.getFd c ≠ fd) :
    s.connectionMap[fd]? = none :=
  Option.eq_none_iff_forall_ne_some.mpr fun c hm => hf c (h.alive_of_map hm) (h.map fd c hm).right

theorem step_accept {fd : Int} (h : Safe base s n) (hb : s.stack base = [])
    (hf : ∀ c, s.Alive c → s.getFd c ≠ fd) (ht : Turns (s.newConnection initSize base loop fd))
    (hn : Numbered (s.newConnection initSize base loop fd)) :
    Safe base (s.newConnection initSize base loop fd) n := by
  have hm := h.not_mem_of_accept hf
  have hv : ∀ {c}, c ≠ s.created → (s.newConnection initSize base loop fd).view c = s.view c :=
    fun hc => State.view_newConnection_of_ne hb hc
  have hlt : ∀ {c}, c < s.created + 1 → c ≠ s.created → c < s.created :=
    fun hc hn => Nat.lt_of_le_of_ne (Nat.le_of_lt_succ hc) hn
  have hal : ∀ {c}, c ≠ s.created → (s.newConnection initSize base loop fd).Alive c →
      s.Alive c := by
    intro c hc ⟨hl, hs⟩
    refine ⟨hlt hl hc, ?_⟩
    rw [hv hc] at hs
    simpa [State.newConnection, hc] using hs
  exact {
    turns    := ht
    numbered := hn
    map      := by
      intro fd' c hc
      have hi : (s.connectionMap.insertIfNew fd s.created)[fd']? = some c := hc
      rw [Std.TreeMap.getElem?_insertIfNew] at hi
      split at hi
      case isTrue he =>
        obtain rfl := Std.LawfulEqOrd.eq_of_compare he.left
        obtain rfl := Option.some.inj hi
        exact ⟨Nat.lt_succ_self _, State.newConnection_getFd⟩
      case isFalse =>
        obtain ⟨hl, he⟩ := h.map fd' c hi
        exact ⟨Nat.lt_succ_of_lt hl, (State.newConnection_getFd_of_ne (Nat.ne_of_lt hl)).trans he⟩
    owned    := by
      intro c hc
      by_cases he : c = s.created
      case pos =>
        subst he
        rw [State.newConnection_loop, h.fresh _ (Nat.le_refl _)]
        exact .fresh (State.view_newConnection h.numbered hm)
      case neg =>
        rw [State.newConnection_loop_of_ne he, hv he]
        exact h.owned c (hlt hc he)
    fresh    := fun c hc => h.fresh c (Nat.le_of_succ_le hc)
    unique   := by
      intro c d hc hd he
      by_cases hcn : c = s.created
      case pos =>
        refine not_not.mp fun hdn => ?_
        have hdn : d ≠ s.created := fun hd => hdn (hcn.trans hd.symm)
        rw [hcn, State.newConnection_getFd, State.newConnection_getFd_of_ne hdn] at he
        exact hf d (hal hdn hd) he.symm
      case neg =>
        rw [State.newConnection_getFd_of_ne hcn] at he
        by_cases hdn : d = s.created
        case pos =>
          rw [hdn, State.newConnection_getFd] at he
          exact absurd he (hf c (hal hcn hc))
        case neg =>
          rw [State.newConnection_getFd_of_ne hdn] at he
          exact h.unique c d (hal hcn hc) (hal hdn hd) he
  }

theorem step (h : Safe base s n) (hk : s.OnLoop act) (e : Step cfg initSize base s act s') :
    Safe base s' (n + s.destroys act) := by
  cases act.accept_or
  case inl ha =>
    obtain ⟨loop, fd, rfl⟩ := ha
    have ht := h.turns.step e
    have hn := h.numbered.step e
    cases e
    case accept hb _ hf => exact h.step_accept hb hf ht hn
  case inr ha =>
    have hf := e.frame ha
    have hv := e.viewed h.turns h.matched ha
    exact {
      turns    := h.turns.step e
      numbered := h.numbered.step e
      map      := by
        intro fd c hm
        rw [hf.created, (hv c).fd]
        exact h.map fd c (hf.map fd c hm)
      owned    := by
        intro c hc
        have ho := h.owned c (hf.created ▸ hc)
        rw [hf.loop, Pi.add_apply]
        cases hv c
        case none hv ht => rw [hv, State.destroys, if_neg (ht _)]; exact ho
        case step a hfor hv ht =>
          rw [destroys_of_map ht]
          exact ho.step (hfor.onLoop hk) hv
      fresh    := by
        intro c hc
        rw [hf.created] at hc
        rw [Pi.add_apply, h.fresh c hc, h.numbered.destroys hc]
      unique   := by
        intro c d hc hd he
        rw [(hv c).fd, (hv d).fd] at he
        exact h.unique c d (h.alive_of_step e ha hc) (h.alive_of_step e ha hd) he
    }

end Safe

theorem State.new_safe : Safe base (new base) 0 where
  turns    := ⟨fun _ => .nil, nofun⟩
  numbered := ⟨by simp [new], by simp [new, TaskQueue.pending, TaskQueue.empty], nofun⟩
  map      := by simp [new]
  owned    := fun _ hc => absurd hc (Nat.not_lt_zero _)
  fresh    := fun _ _ => rfl
  unique   := fun _ _ hc => absurd hc.left (Nat.not_lt_zero _)

theorem run_safe {acts : List (Act θ)}
    (e : Steps (Steps.Tally (fun s act _ => s.destroys act)
      (Steps.When State.OnLoop (Step cfg initSize base)))
      (State.new base, 0) acts (s, n)) : Safe base s n := by
  have hp : ∀ {x₁ : State θ × (Nat → Nat)} {act x₂}, Safe base x₁.1 x₁.2 →
      Steps.Tally (fun s act _ => s.destroys act)
        (Steps.When State.OnLoop (Step cfg initSize base)) x₁ act x₂ →
        Safe base x₂.1 x₂.2 := by
    intro x₁ act x₂ h ⟨e, hn⟩
    exact hn ▸ h.step e.left e.right
  exact e.invariant (P := fun x => Safe base x.1 x.2) hp State.new_safe

-- The removal of connections, over all loops. A new connection finds no entry of its descriptor, an
-- entry is erased by its own connection, `destroyConnection` is run once at most, and a connection
-- is not destroyed as long as its channel is in the tables of a poller, or in the batch of a loop.
theorem removal_safe :
    (∀ acts s, Steps (Steps.When State.OnLoop (Step cfg initSize base)) (State.new base) acts s →
      (∀ loop fd s', Step cfg initSize base s (.accept loop fd) s' → s.connectionMap[fd]? = none) ∧
      (∀ t c rest, s.stack t = (c, .task .removeConnectionInLoop) :: rest →
        ∀ d, s.connectionMap[s.getFd c]? = some d → d = c) ∧
      (∀ c < s.created, s.Registered c ∨ s.Waiting c → s.Alive c)) ∧
    (∀ acts s n, Steps (Steps.Tally (fun s act _ => s.destroys act)
        (Steps.When State.OnLoop (Step cfg initSize base))) (State.new base, 0) acts (s, n) →
      ∀ c, n c ≤ 1) where
  left acts s e := by
    have ⟨n, e⟩ := e.tally (fun s act _ => s.destroys act) 0
    have h := run_safe e
    refine ⟨fun loop fd s' e => ?_, h.matched, fun c hc hr => ⟨hc, .inl ?_⟩⟩
    · cases e
      case accept hf => exact h.not_mem_of_accept hf
    · refine (h.owned c hc).shared (hr.imp id ?_)
      rintro ⟨t, batch, hp, hm⟩
      obtain ⟨x, hx, rfl⟩ := List.mem_map.mp hm
      have hl : (batch.lookup x.1).isSome := List.lookup_isSome_iff.mpr ⟨x, hx, beq_self_eq_true _⟩
      have ⟨r, hl⟩ := Option.isSome_iff_exists.mp hl
      exact ⟨t, r, by simp [State.view, hp, Phase.of, hl]⟩
  right acts s n e c := by
    have h := run_safe e
    by_cases hc : c < s.created
    case pos => exact (h.owned c hc).le_one
    case neg => exact h.fresh c (Nat.not_lt.mp hc) ▸ Nat.zero_le 1

-- Two close notifications of a connection on a loop of its own. The second one finds no entry, and
-- its functor keeps the descriptor from being accepted before.
def twoCloses : List (Act Bool) :=
  [.poll false [], .accept true 5, .exec false .none, .poll true [], .swap true, .task true,
    .exec true .none, .exec true .none, .exec true .none, .finish true,
    .poll true [(0, Events.POLLHUP ||| Events.POLLPRI)], .dispatch true, .exec true .none,
    .exec true .none, .exec true .none, .exec true .none, .exec true .none,
    .exec true (.read (.received [])), .exec true .none, .exec true .none, .exec true .none,
    .exec true .none, .exec true .none, .swap false, .task false, .exec false .none,
    .exec false .none, .swap true, .task true, .exec true .none, .exec true .none, .task false,
    .exec false .none, .accept false 5]

theorem removal_safe_of_two_closes :
    ∃ s, Steps (Steps.When State.OnLoop (Step ⟨true, true, true, true⟩ 8 false)) (State.new false)
      twoCloses s ∧
      ¬s.Alive 0 ∧ s.connectionMap[(5 : Int)]? = some 1 ∧
      (∀ c < s.created, s.Registered c ∨ s.Waiting c → s.Alive c) ∧ ∃ n : Nat → Nat, ∀ c,
        n c ≤ 1 := by
  have ⟨s, e, hs⟩ : ∃ s, Steps (Steps.When State.OnLoop (Step ⟨true, true, true, true⟩ 8 false))
      (State.new false) twoCloses s ∧ ¬s.Alive 0 ∧ s.connectionMap[(5 : Int)]? = some 1 := by
    refine ⟨_, State.steps_of_guard ?_, ?_⟩
    all_goals decide +kernel
  have ⟨n, e'⟩ := e.tally (fun s act _ => s.destroys act) 0
  exact ⟨s, e, hs.left, hs.right, (removal_safe.left _ s e).right.right, n,
    removal_safe.right _ s n e'⟩

end Bounce.Server
