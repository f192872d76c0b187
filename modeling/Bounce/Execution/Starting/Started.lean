import Bounce.Execution.Starting.Basic

namespace Bounce.Starting

variable {θ : Type} {threadCb : StdFunction} {loop : Nat → θ} {s s' : State θ} {act : Act} {k : Nat}
variable {w w' : Worker} {ws : List Worker}

namespace Worker

def Holds (w : Worker) : Prop :=
  w = .push ∨ w = .init ∨ w = .unlock

def Pushed (w : Worker) : Prop :=
  w ≠ .construct ∧ w ≠ .lock ∧ w ≠ .push

def Late (w : Worker) : Prop :=
  w = .notify ∨ w = .callback ∨ w = .loop

def Inited (w : Worker) : Prop :=
  w = .unlock ∨ w.Late

instance : Decidable w.Holds := inferInstanceAs (Decidable (_ ∨ _))
instance : Decidable w.Pushed := inferInstanceAs (Decidable (_ ∧ _))
instance : Decidable w.Late := inferInstanceAs (Decidable (_ ∨ _))
instance : Decidable w.Inited := inferInstanceAs (Decidable (_ ∨ _))

end Worker

-- How the main thread and the thread `i`, which it waits for, share the mutex. A wait that has
-- begun still has its notification in front of it.
inductive Sync (i : Nat) : Main → Worker → Option Thread → Prop
  | apart {m : Main} {w : Worker} :
    m = .lock ∨ m = .waiting ∨ m = .woken → ¬w.Holds → (m = .waiting → w ≠ .callback ∧ w ≠ .loop) →
    Sync i m w none
  | worker {m : Main} {w : Worker} :
    m = .lock ∨ m = .waiting ∨ m = .woken → w.Holds → Sync i m w (some (.worker i))
  | main {w : Worker} :
    ¬w.Holds → Sync i .test w (some .main)

theorem Sync.woken {i : Nat} {m m' : Main} {x : Option Thread} (h : Sync i m w x)
    (hm : m' = m ∨ m = .waiting ∧ m' = .woken) : Sync i m' w x := by
  obtain rfl | ⟨rfl, rfl⟩ := hm
  · exact h
  · cases h
    case apart hh _ => exact .apart (.inr (.inr rfl)) hh (by simp)
    case worker hh  => exact .worker (.inr (.inr rfl)) hh

-- The stages of an iteration of `start`. The main thread has not run a thread, or waits for the
-- thread `i`, or has seen that its loop is there.
inductive Stage (loop : Nat → θ) (s : State θ) : Prop
  | idle :
    s.main = .entry ∨ s.main = .head ∨ s.main = .done → s.workers.length = s.i →
    (∀ w ∈ s.workers, w.Late) → s.mutex = none → s.loopInited = false →
    s.pool.loops = (List.range s.i).map loop → s.threads = List.range s.i → Stage loop s
  | waits {ws : List Worker} {w : Worker} :
    s.workers = ws ++ [w] → ws.length = s.i → (∀ w ∈ ws, w.Late) → Sync s.i s.main w s.mutex →
    s.loopInited = decide w.Inited →
    s.pool.loops = (List.range s.i).map loop ++ (if w.Pushed then [loop s.i] else []) →
    s.threads = List.range s.i → Stage loop s
  | joined :
    s.main = .push ∨ s.main = .reset ∨ s.main = .unlock → s.workers.length = s.i + 1 →
    (∀ w ∈ s.workers, w.Late) → s.mutex = some .main → s.loopInited = decide (s.main ≠ .unlock) →
    s.pool.loops = (List.range (s.i + 1)).map loop →
    s.threads = List.range (if s.main = .push then s.i else s.i + 1) → Stage loop s

theorem late_set (h : ∀ w ∈ ws, w.Late) (hw : w'.Late) : ∀ w ∈ ws.set k w', w.Late := by
  intro w hm
  cases List.mem_or_eq_of_mem_set hm
  case inl hm => exact h w hm
  case inr he => exact he ▸ hw

structure LateStep (s : State θ) (k : Nat) (s' : State θ) : Prop where
  worker     : ∃ w, w.Late ∧ s'.workers = s.workers.set k w
  pool       : s'.pool = s.pool
  i          : s'.i = s.i
  mutex      : s'.mutex = s.mutex
  loopInited : s'.loopInited = s.loopInited
  threads    : s'.threads = s.threads
  main       : s'.main = s.main ∨ s.main = .waiting ∧ s'.main = .woken

theorem step_late (hw : s.workers[k]? = some w) (hl : w.Late)
    (h : s.stepWorker threadCb loop k = some s') : LateStep s k s' := by
  rw [State.stepWorker, hw] at h
  obtain rfl | rfl | rfl := hl
  · obtain rfl := Option.some.inj h
    rw [State.notify]
    split
    case isTrue hm =>
      exact ⟨⟨.callback, .inr (.inl rfl), rfl⟩, rfl, rfl, rfl, rfl, rfl, .inr ⟨hm, rfl⟩⟩
    case isFalse   => exact ⟨⟨.callback, .inr (.inl rfl), rfl⟩, rfl, rfl, rfl, rfl, rfl, .inl rfl⟩
  · obtain rfl := Option.some.inj h
    exact ⟨⟨.loop, .inr (.inr rfl), rfl⟩, rfl, rfl, rfl, rfl, rfl, .inl rfl⟩
  · contradiction

namespace Stage

theorem acquire_main (h : (s.acquire .main).map (State.goto · .test) = some s') :
    s.mutex = none ∧ s' = { s with mutex := some .main, main := .test } := by
  rw [State.acquire] at h
  split at h
  case isTrue hx => exact ⟨hx, (Option.some.inj h).symm⟩
  case isFalse   => contradiction

theorem step_main (h : Stage loop s) (hs : s.stepMain = some s') : Stage loop s' := by
  rw [State.stepMain] at hs
  cases h
  case idle hm hl hw hx hi hp ht =>
    obtain hm | hm | hm := hm <;> rw [hm] at hs
    · obtain rfl := Option.some.inj hs
      exact .idle (.inr (.inl rfl)) hl hw hx hi hp ht
    · dsimp only at hs
      split at hs
      case isTrue hlt =>
        obtain rfl := Option.some.inj hs
        refine .waits rfl hl hw ?_ hi ?_ ht
        · exact hx ▸ .apart (.inl rfl) (by decide) (by simp)
        · simpa [Worker.Pushed] using hp
      case isFalse =>
        obtain rfl := Option.some.inj hs
        exact .idle (.inr (.inr rfl)) hl hw hx hi hp ht
    · contradiction
  case waits ws w hws hl hw hsy hi hp ht =>
    generalize hm : s.main = m at hs hsy
    generalize hx : s.mutex = x at hsy
    cases hsy
    case apart hl' hh hn =>
      obtain rfl | rfl | rfl := hl'
      · obtain ⟨-, rfl⟩ := acquire_main hs
        exact .waits hws hl hw (.main hh) hi hp ht
      · contradiction
      · obtain ⟨-, rfl⟩ := acquire_main hs
        exact .waits hws hl hw (.main hh) hi hp ht
    case worker hl' hh =>
      obtain rfl | rfl | rfl := hl'
      · cases hx.symm.trans (acquire_main hs).left
      · contradiction
      · cases hx.symm.trans (acquire_main hs).left
    case main hh =>
      obtain rfl := Option.some.inj hs
      split
      case isTrue ht' =>
        have hin : w.Late := by
          rw [hi, decide_eq_true_eq] at ht'
          exact ht'.resolve_left fun hu => hh (.inr (.inr hu))
        have hp' : w.Pushed := by
          obtain rfl | rfl | rfl := hin <;> decide
        refine .joined (.inl rfl) (by simp [State.goto, hws, hl]) ?_ hx
          (by simpa [State.goto] using ht') ?_ ht
        · simpa [State.goto, hws, or_imp, forall_and] using ⟨hw, hin⟩
        · simpa [State.goto, hp', List.range_succ] using hp
      case isFalse hf =>
        refine .waits hws hl hw (.apart (.inr (.inl rfl)) hh fun _ => ?_) hi hp ht
        rw [hi, decide_eq_true_eq] at hf
        exact ⟨fun hc => hf (.inr (.inr (.inl hc))), fun hc => hf (.inr (.inr (.inr hc)))⟩
  case joined hm hl hw hx hi hp ht =>
    obtain hm | hm | hm := hm <;> rw [hm] at hs
    · obtain rfl := Option.some.inj hs
      refine .joined (.inr (.inl rfl)) hl hw hx ?_ hp ?_
      · simpa [hm] using hi
      · simp [ht, hm, List.range_succ]
    · obtain rfl := Option.some.inj hs
      refine .joined (.inr (.inr rfl)) hl hw hx ?_ hp ?_
      · simp
      · simpa [hm] using ht
    · obtain rfl := Option.some.inj hs
      refine .idle (.inr (.inl rfl)) hl hw rfl ?_ hp ?_
      · simpa [State.release, hm] using hi
      · simpa [State.release, hm] using ht

theorem step_spurious (h : Stage loop s) (hm : s.main = .waiting) : Stage loop (s.goto .woken) := by
  cases h
  case idle hm' _ _ _ _ _ _   => simp [hm] at hm'
  case joined hm' _ _ _ _ _ _ => simp [hm] at hm'
  case waits hws hl hw hsy hi hp ht =>
    exact .waits hws hl hw (hsy.woken (.inr ⟨hm, rfl⟩)) hi hp ht

theorem step_last (hws : s.workers = ws ++ [w]) (hl : ws.length = s.i) (hw : ∀ w ∈ ws, w.Late)
    (hsy : Sync s.i s.main w s.mutex) (hi : s.loopInited = decide w.Inited)
    (hp : s.pool.loops = (List.range s.i).map loop ++ (if w.Pushed then [loop s.i] else []))
    (ht : s.threads = List.range s.i) (hs : s.stepWorker threadCb loop s.i = some s') :
    Stage loop s' := by
  have hset : ∀ w', s.workers.set s.i w' = ws ++ [w'] := by
    intro w'
    rw [hws, ← hl, List.set_append_right _ _ (Nat.le_refl _), Nat.sub_self, List.set_cons_zero]
  have hget : s.workers[s.i]? = some w := by
    rw [hws, ← hl, List.getElem?_append_right (Nat.le_refl _), Nat.sub_self,
      List.getElem?_cons_zero]
  rw [State.stepWorker, hget] at hs
  generalize hm : s.main = m at hsy
  generalize hx : s.mutex = x at hsy
  cases w
  case construct =>
    obtain rfl := Option.some.inj hs
    refine .waits (hset _) hl hw ?_ hi hp ht
    cases hsy
    case apart hl' _ hn => exact hm ▸ hx ▸ .apart hl' (by decide) (by simp)
    case worker hh      => contradiction
    case main           => exact hm ▸ hx ▸ .main (by decide)
  case lock =>
    dsimp only at hs
    rw [State.acquire] at hs
    split at hs
    case isFalse   => contradiction
    case isTrue hn =>
      obtain rfl := Option.some.inj hs
      refine .waits (hset _) hl hw ?_ hi hp ht
      cases hsy
      case apart hl' _ _ => exact hm ▸ .worker hl' (by decide)
      case worker hh     => contradiction
      case main          => simp [hn] at hx
  case push =>
    obtain rfl := Option.some.inj hs
    refine .waits (hset _) hl hw ?_ hi (by simpa [State.setWorker, Worker.Pushed] using hp) ht
    cases hsy
    case apart hh _    => exact absurd (.inl rfl) hh
    case worker hl' hh => exact hm ▸ hx ▸ .worker hl' (by decide)
    case main hh       => exact absurd (.inl rfl) hh
  case init =>
    obtain rfl := Option.some.inj hs
    refine .waits (hset _) hl hw ?_ rfl hp ht
    cases hsy
    case apart hh _    => exact absurd (.inr (.inl rfl)) hh
    case worker hl' hh => exact hm ▸ hx ▸ .worker hl' (by decide)
    case main hh       => exact absurd (.inr (.inl rfl)) hh
  case unlock =>
    obtain rfl := Option.some.inj hs
    refine .waits (hset _) hl hw ?_ hi hp ht
    cases hsy
    case apart hh _    => exact absurd (.inr (.inr rfl)) hh
    case worker hl' hh => exact hm ▸ .apart hl' (by decide) (by simp)
    case main hh       => exact absurd (.inr (.inr rfl)) hh
  case notify =>
    obtain rfl := Option.some.inj hs
    cases hsy
    case worker hh => contradiction
    case main      =>
      rw [State.notify, if_neg (by simp [hm])]
      exact .waits (hset _) hl hw (hm ▸ hx ▸ .main (by decide)) hi hp ht
    case apart hl' _ hn =>
      rw [State.notify]
      split
      case isTrue =>
        exact .waits (hset _) hl hw (hx ▸ .apart (.inr (.inr rfl))
          (by decide) (by simp [State.goto, State.setWorker])) hi hp ht
      case isFalse hnw =>
        refine .waits (hset _) hl hw (hm ▸ hx ▸ .apart hl' (by decide) fun hw => ?_) hi hp ht
        exact absurd (hm.trans hw) hnw
  case callback =>
    obtain rfl := Option.some.inj hs
    refine .waits (hset _) hl hw ?_ hi hp ht
    cases hsy
    case worker hh      => contradiction
    case main           => exact hm ▸ hx ▸ .main (by decide)
    case apart hl' _ hn => exact hm ▸ hx ▸ .apart hl' (by decide) fun hw => absurd rfl (hn hw).left
  case loop => contradiction

theorem step_worker (h : Stage loop s) (hs : s.stepWorker threadCb loop k = some s') :
    Stage loop s' := by
  have ⟨w, hg⟩ : ∃ w, s.workers[k]? = some w := by
    rw [← Option.isSome_iff_exists, Option.isSome_iff_ne_none]
    intro hn
    simp [State.stepWorker, hn] at hs
  cases h
  case idle hm hl hw hx hi hp ht =>
    have hs := step_late hg (hw w (List.mem_of_getElem? hg)) hs
    obtain ⟨w', hw', hws'⟩ := hs.worker
    have hm' : s'.main = s.main := hs.main.resolve_right fun hc => by simp [hc.left] at hm
    exact .idle (hm' ▸ hm) (by simp [hws', hs.i, hl]) (hws' ▸ late_set hw hw') (hs.mutex.trans hx)
      (hs.loopInited.trans hi) (by rw [hs.pool, hs.i, hp]) (by rw [hs.threads, hs.i, ht])
  case joined hm hl hw hx hi hp ht =>
    have hs := step_late hg (hw w (List.mem_of_getElem? hg)) hs
    obtain ⟨w', hw', hws'⟩ := hs.worker
    have hm' : s'.main = s.main := hs.main.resolve_right fun hc => by simp [hc.left] at hm
    exact .joined (hm' ▸ hm) (by simp [hws', hs.i, hl]) (hws' ▸ late_set hw hw') (hs.mutex.trans hx)
      (by rw [hs.loopInited, hi, hm']) (by rw [hs.pool, hs.i, hp])
        (by rw [hs.threads, hs.i, hm', ht])
  case waits ws w₀ hws hl hw hsy hi hp ht =>
    have hk : k ≤ ws.length := by
      have hk := (List.getElem?_eq_some_iff.mp hg).1
      rw [hws, List.length_append] at hk
      exact Nat.le_of_lt_succ hk
    cases Nat.eq_or_lt_of_le hk
    case inl hk =>
      rw [hk, hl] at hs
      exact step_last hws hl hw hsy hi hp ht hs
    case inr hk =>
      rw [hws, List.getElem?_append_left hk] at hg
      have hs :=
        step_late (by rw [hws, List.getElem?_append_left hk, hg])
          (hw w (List.mem_of_getElem? hg)) hs
      obtain ⟨w', hw', hws'⟩ := hs.worker
      rw [hws, List.set_append_left _ _ hk] at hws'
      refine .waits hws' (by rw [List.length_set, hl, hs.i]) (late_set hw hw') ?_
        (hs.loopInited.trans hi)
        (by rw [hs.pool, hs.i, hp]) (by rw [hs.threads, hs.i, ht])
      rw [hs.i, hs.mutex]
      exact hsy.woken hs.main

theorem step (h : Stage loop s) (hs : s.step threadCb loop act = some s') : Stage loop s' := by
  cases act
  case main     => exact h.step_main hs
  case worker k => exact h.step_worker hs
  case spurious =>
    rw [State.step] at hs
    split at hs
    case isTrue hm => exact Option.some.inj hs ▸ h.step_spurious hm
    case isFalse   => contradiction

end Stage
structure WorkerStep (threadCb : StdFunction) (loop : Nat → θ) (s : State θ) (k : Nat)
    (s' : State θ) : Prop where
  worker : ∃ w w', s.workers[k]? = some w ∧ w ≠ .loop ∧ s'.workers = s.workers.set k w' ∧
    (w' = .loop ∧ s'.called = (if threadCb.isSet then s.called ++ [loop k] else s.called) ∨
      w' ≠ .loop ∧ s'.called = s.called)
  pool   : s'.pool = { s.pool with loops := s'.pool.loops }
  i      : s'.i = s.i
  main   : s'.main = s.main ∨ s.main = .waiting ∧ s'.main = .woken

theorem stepWorker_cases (h : s.stepWorker threadCb loop k = some s') :
    WorkerStep threadCb loop s k s' := by
  rw [State.stepWorker] at h
  have hacq : ∀ {s'}, (s.acquire (.worker k)).map (State.setWorker · k .push) = some s' →
      s' = State.setWorker { s with mutex := some (.worker k) } k .push := by
    intro s' h
    rw [State.acquire] at h
    split at h
    case isTrue  => exact (Option.some.inj h).symm
    case isFalse => contradiction
  split at h
  case h_1 hg =>
    cases h; exact ⟨⟨_, .lock, hg, by decide, rfl, .inr ⟨by decide, rfl⟩⟩, rfl, rfl, .inl rfl⟩
  case h_2 hg =>
    cases hacq h; exact ⟨⟨_, .push, hg, by decide, rfl, .inr ⟨by decide, rfl⟩⟩, rfl, rfl, .inl rfl⟩
  case h_3 hg =>
    cases h; exact ⟨⟨_, .init, hg, by decide, rfl, .inr ⟨by decide, rfl⟩⟩, rfl, rfl, .inl rfl⟩
  case h_4 hg =>
    cases h; exact ⟨⟨_, .unlock, hg, by decide, rfl, .inr ⟨by decide, rfl⟩⟩, rfl, rfl, .inl rfl⟩
  case h_5 hg =>
    cases h; exact ⟨⟨_, .notify, hg, by decide, rfl, .inr ⟨by decide, rfl⟩⟩, rfl, rfl, .inl rfl⟩
  case h_6 hg =>
    cases h
    rw [State.notify]
    split
    case isTrue hm =>
      exact ⟨⟨_, .callback, hg, by decide, rfl, .inr ⟨by decide, rfl⟩⟩, rfl, rfl, .inr ⟨hm, rfl⟩⟩
    case isFalse =>
      exact ⟨⟨_, .callback, hg, by decide, rfl, .inr ⟨by decide, rfl⟩⟩, rfl, rfl, .inl rfl⟩
  case h_7 hg =>
    cases h; exact ⟨⟨_, .loop, hg, by decide, rfl, .inl ⟨rfl, rfl⟩⟩, rfl, rfl, .inl rfl⟩
  case h_8 | h_9 => contradiction

structure MainStep (s s' : State θ) : Prop where
  workers : s'.workers = s.workers ∨ s'.workers = s.workers ++ [.construct]
  called  : s'.called = s.called
  pool    : s'.pool = { s.pool with started := true }

def Main.Body (m : Main) : Prop :=
  m ≠ .entry ∧ m ≠ .head ∧ m ≠ .done

instance {m : Main} : Decidable m.Body := inferInstanceAs (Decidable (_ ∧ _))

structure Counted (n : UInt32) (s : State θ) : Prop where
  threadNum : s.pool.threadNum = n
  nextIndex : s.pool.nextLoopIndex = 0
  started   : s.pool.started = decide (s.main ≠ .entry)
  bound     : s.i ≤ n.toNat
  body      : s.main.Body → s.i < n.toNat
  done      : s.main = .done → s.i = n.toNat

namespace Counted

variable {n : UInt32}

theorem goto {m : Main} (h : Counted n s) (hb : s.main.Body) (hm : s'.main = m) (hb' : m.Body)
    (hp : s'.pool = s.pool) (hi : s'.i = s.i) : Counted n s' where
  threadNum := hp ▸ h.threadNum
  nextIndex := hp ▸ h.nextIndex
  started   := by simp [hp, h.started, hb.left, hm, hb'.left]
  bound     := hi ▸ h.bound
  body _    := hi ▸ h.body hb
  done hd   := absurd (hm.symm.trans hd) hb'.right.right

theorem step_main (h : Counted n s) (hs : s.stepMain = some s') :
    MainStep s s' ∧ Counted n s' := by
  have hst : ∀ {m}, s.main = m → m ≠ .entry → { s.pool with started := true } = s.pool := by
    intro m hm hn
    have h := h.started
    rw [hm, decide_eq_true hn] at h
    rw [← h]
  rw [State.stepMain] at hs
  generalize hm : s.main = m at hs
  cases m <;> dsimp only at hs
  case entry =>
    cases hs
    exact ⟨⟨.inl rfl, rfl, rfl⟩, h.threadNum, h.nextIndex, rfl, h.bound,
      fun hb => absurd rfl hb.right.left, nofun⟩
  case head =>
    have hst := (hst hm (by decide)).symm
    rw [h.threadNum] at hs
    split at hs
    case isTrue hlt =>
      cases hs
      exact ⟨⟨.inr rfl, rfl, hst⟩, h.threadNum,
        h.nextIndex, by simp [h.started, hm], h.bound, fun _ => hlt, nofun⟩
    case isFalse hge =>
      cases hs
      refine ⟨⟨.inl rfl, rfl, hst⟩, h.threadNum,
        h.nextIndex, by simp [State.goto, h.started, hm], h.bound,
        fun hb => absurd rfl hb.right.right, fun _ => ?_⟩
      exact Nat.le_antisymm h.bound (Nat.not_lt.mp hge)
  case lock | woken =>
    obtain ⟨-, rfl⟩ := Stage.acquire_main hs
    exact ⟨⟨.inl rfl, rfl, (hst hm (by decide)).symm⟩,
      h.goto (m := .test) (hm ▸ by decide) rfl (by decide) rfl rfl⟩
  case test =>
    cases hs
    split
    case isTrue  =>
      exact ⟨⟨.inl rfl, rfl, (hst hm (by decide)).symm⟩,
        h.goto (m := .push) (hm ▸ by decide) rfl (by decide) rfl rfl⟩
    case isFalse =>
      exact ⟨⟨.inl rfl, rfl, (hst hm (by decide)).symm⟩,
        h.goto (m := .waiting) (hm ▸ by decide) rfl (by decide) rfl rfl⟩
  case push =>
    cases hs
    exact ⟨⟨.inl rfl, rfl, (hst hm (by decide)).symm⟩,
      h.goto (m := .reset) (hm ▸ by decide) rfl (by decide) rfl rfl⟩
  case reset =>
    cases hs
    exact ⟨⟨.inl rfl, rfl, (hst hm (by decide)).symm⟩,
      h.goto (m := .unlock) (hm ▸ by decide) rfl (by decide) rfl rfl⟩
  case unlock =>
    cases hs
    refine ⟨⟨.inl rfl, rfl, (hst hm (by decide)).symm⟩, h.threadNum,
      h.nextIndex, by simp [State.release, h.started, hm],
      ?_, fun hb => absurd rfl hb.right.left, nofun⟩
    exact Nat.succ_le_of_lt (h.body (hm ▸ by decide))
  case waiting | done => contradiction

theorem step (h : Counted n s) (hs : s.step threadCb loop act = some s') : Counted n s' := by
  cases act
  case main     => exact (h.step_main hs).right
  case worker k =>
    have hw := stepWorker_cases hs
    have hp := hw.pool
    have hm : (s'.main = .entry ↔ s.main = .entry) ∧ (s'.main.Body ↔ s.main.Body) ∧
        (s'.main = .done ↔ s.main = .done) := by
      obtain hm | ⟨hm, hm'⟩ := hw.main
      · simp [hm]
      · simp [hm, hm', Main.Body]
    exact {
      threadNum := by rw [hp]; exact h.threadNum
      nextIndex := by rw [hp]; exact h.nextIndex
      started   := by rw [hp, decide_eq_decide.mpr (not_congr hm.left)]; exact h.started
      bound     := hw.i ▸ h.bound
      body hb   := hw.i ▸ h.body (hm.right.left.mp hb)
      done hd   := hw.i ▸ h.done (hm.right.right.mp hd)
    }
  case spurious =>
    rw [State.step] at hs
    split at hs
    case isTrue hm =>
      exact Option.some.inj hs ▸ h.goto (m := .woken) (hm ▸ by decide) rfl (by decide) rfl rfl
    case isFalse   => contradiction

end Counted
def Called [DecidableEq θ] (threadCb : StdFunction) (loop : Nat → θ) (s : State θ) : Prop :=
  ∀ k, s.called.count (loop k) = if threadCb.isSet ∧ s.workers[k]? = some .loop then 1 else 0

namespace Called

variable [DecidableEq θ] {n : UInt32}

theorem step_main (h : Called threadCb loop s) (hs : MainStep s s') : Called threadCb loop s' := by
  intro k
  rw [hs.called, h k]
  obtain hw | hw := hs.workers
  · rw [hw]
  · rw [hw]
    by_cases hk : k < s.workers.length
    case pos => rw [List.getElem?_append_left hk]
    case neg =>
      rw [List.getElem?_append_right (Nat.not_lt.mp hk), List.getElem?_eq_none (Nat.not_lt.mp hk)]
      cases k - s.workers.length <;> simp

theorem step_worker (h : Called threadCb loop s) (hl : Function.Injective loop)
    (hs : WorkerStep threadCb loop s k s') : Called threadCb loop s' := by
  intro k'
  obtain ⟨w, w', hg, hn, hws, hc⟩ := hs.worker
  have hk : k < s.workers.length := (List.getElem?_eq_some_iff.mp hg).1
  have h := h k'
  by_cases hk' : k = k'
  case pos =>
    subst hk'
    rw [hws, List.getElem?_set_self hk]
    rw [hg, if_neg (by simp [hn])] at h
    obtain ⟨rfl, hc⟩ | ⟨hw', hc⟩ := hc
    · by_cases hb : threadCb.isSet <;> simp [hc, hb, h]
    · simp [hc, hw', h]
  case neg =>
    rw [hws, List.getElem?_set_ne hk', ← h]
    obtain ⟨-, hc⟩ | ⟨-, hc⟩ := hc
    · rw [hc]
      split
      case isTrue =>
        rw [List.count_append, List.count_singleton,
          if_neg (by simp [hl.eq_iff, hk']), Nat.add_zero]
      case isFalse => rfl
    · rw [hc]

theorem step (h : Called threadCb loop s) (hl : Function.Injective loop) (hc : Counted n s)
    (hs : s.step threadCb loop act = some s') : Called threadCb loop s' := by
  cases act
  case main     => exact h.step_main (hc.step_main hs).left
  case worker k => exact h.step_worker hl (stepWorker_cases hs)
  case spurious =>
    rw [State.step] at hs
    split at hs
    case isTrue  => exact Option.some.inj hs ▸ h
    case isFalse => contradiction

end Called

structure Invariant [DecidableEq θ] (threadCb : StdFunction) (loop : Nat → θ) (n : UInt32)
    (s : State θ) : Prop where
  stage   : Stage loop s
  counted : Counted n s
  called  : Called threadCb loop s

theorem State.new_invariant [DecidableEq θ] {n : UInt32} : Invariant threadCb loop n (new n) where
  stage   := .idle (.inl rfl) rfl (by simp [new]) rfl rfl rfl rfl
  counted := ⟨rfl, rfl, rfl, Nat.zero_le _, fun hb => absurd rfl hb.left, nofun⟩
  called  := by simp [Called, new]

theorem run_invariant [DecidableEq θ] {n : UInt32} {acts : List Act} (hl : Function.Injective loop)
    (e : Steps (Steps.Of (State.step threadCb loop)) (State.new n) acts s) :
    Invariant threadCb loop n s := by
  have hp : ∀ {s₁ act s₂}, Invariant threadCb loop n s₁ →
      Steps.Of (State.step threadCb loop) s₁ act s₂ →
      Invariant threadCb loop n s₂ :=
    fun h hs => ⟨h.stage.step hs, h.counted.step hs, h.called.step hl h.counted hs⟩
  exact e.invariant hp State.new_invariant

def Main.Holds (m : Main) : Prop :=
  m = .test ∨ m = .push ∨ m = .reset ∨ m = .unlock

namespace Stage

theorem worker_holds (h : Stage loop s) (hk : s.workers[k]? = some w) (hw : w.Holds) :
    s.mutex = some (.worker k) := by
  have hn : ∀ {ws : List Worker}, (∀ w ∈ ws, w.Late) → w ∉ ws := by
    intro ws hl hm
    obtain rfl | rfl | rfl := hl w hm <;> contradiction
  cases h
  case idle hl _ _ _ _     => exact absurd (List.mem_of_getElem? hk) (hn hl)
  case joined hl _ _ _ _   => exact absurd (List.mem_of_getElem? hk) (hn hl)
  case waits ws w₀ hws hl hw' hsy _ _ _ =>
    rw [hws] at hk
    by_cases hlt : k < ws.length
    case pos =>
      rw [List.getElem?_append_left hlt] at hk
      exact absurd (List.mem_of_getElem? hk) (hn hw')
    case neg =>
      rw [List.getElem?_append_right (Nat.not_lt.mp hlt), List.getElem?_singleton] at hk
      split at hk
      case isFalse   => contradiction
      case isTrue hz =>
        obtain rfl := Option.some.inj hk
        have hk : k = s.i := hl ▸ Nat.le_antisymm (Nat.sub_eq_zero_iff_le.mp hz) (Nat.not_lt.mp hlt)
        rw [hk]
        generalize s.main = m at hsy
        generalize s.mutex = x at hsy
        cases hsy
        case worker     => rfl
        case apart hh _ => exact absurd hw hh
        case main hh    => exact absurd hw hh

theorem main_holds (h : Stage loop s) (hm : s.main.Holds) : s.mutex = some .main := by
  cases h
  case idle hm' _ _ _ _ _ _   => obtain hm | hm | hm | hm := hm <;> simp [hm] at hm'
  case joined hx _ _ _        => exact hx
  case waits hsy _ _ _ =>
    generalize s.main = m at hm hsy
    generalize s.mutex = x at hsy
    cases hsy
    case apart hl _ _  => obtain rfl | rfl | rfl := hl <;> simp [Main.Holds] at hm
    case worker hl _   => obtain rfl | rfl | rfl := hl <;> simp [Main.Holds] at hm
    case main          => rfl

theorem done (h : Stage loop s) (hm : s.main = .done) :
    (∀ w ∈ s.workers, w.Late) ∧ s.workers.length = s.i ∧ s.pool.loops = (List.range s.i).map loop ∧
      s.threads = List.range s.i := by
  cases h
  case idle hl hw _ _ hp ht => exact ⟨hw, hl, hp, ht⟩
  case joined hm' _ _ _ _ _ _ => simp [hm] at hm'
  case waits hsy _ _ _ =>
    rw [hm] at hsy
    generalize s.mutex = x at hsy
    cases hsy
    case apart hl _ _  => simp at hl
    case worker hl _   => simp at hl

end Stage

theorem step_done (h : Stage loop s) (hm : s.main = .done)
    (hs : s.step threadCb loop act = some s') :
    s'.main = .done ∧ s'.pool = s.pool ∧ s'.threads = s.threads := by
  cases act
  case main     => simp [State.step, State.stepMain, hm] at hs
  case spurious => simp [State.step, hm] at hs
  case worker k =>
    obtain ⟨w, -, hg, -⟩ := (stepWorker_cases hs).worker
    have hs := step_late hg ((h.done hm).left w (List.mem_of_getElem? hg)) hs
    exact ⟨(hs.main.resolve_right fun hc => by simp [hm] at hc).trans hm, hs.pool, hs.threads⟩

theorem run_done {acts : List Act} (h : Stage loop s) (hm : s.main = .done)
    (e : Steps (Steps.Of (State.step threadCb loop)) s acts s') :
    s'.main = .done ∧ s'.pool = s.pool ∧ s'.threads = s.threads := by
  induction e
  case refl => exact ⟨hm, rfl, rfl⟩
  case step hs _ hi =>
    have ⟨hm', hp, ht⟩ := step_done h hm hs
    have ⟨hm', hp', ht'⟩ := hi (h.step hs) hm'
    exact ⟨hm', hp'.trans hp, ht'.trans ht⟩

theorem Invariant.pool_done [DecidableEq θ] {n : UInt32} (h : Invariant threadCb loop n s)
    (hm : s.main = .done) :
    s.pool = (Distribution.LoopThreadPool.new n).start ((List.range n.toNat).map loop) := by
  have hp := (h.stage.done hm).right.right.left
  rw [h.counted.done hm] at hp
  calc
    s.pool = ⟨s.pool.started, s.pool.threadNum, s.pool.nextLoopIndex, s.pool.loops⟩ := rfl
    _      = ⟨true, n, 0, (List.range n.toNat).map loop⟩ := by
      rw [h.counted.started, h.counted.threadNum, h.counted.nextIndex, hp, hm]
      rfl

theorem Invariant.pool_step [DecidableEq θ] {n : UInt32} {base : θ}
    (h : Invariant threadCb loop n s)
    (hl : Function.Injective loop) (hm : s.main = .done) (hb : ∀ k, loop k ≠ base) :
    Distribution.TcpServer.Step base (.new n) (.start s.pool.loops)
      { Distribution.TcpServer.new n with threadPool := s.pool, started := true } := by
  have hs : Distribution.TcpServer.Step base (.new n) (.start ((List.range n.toNat).map loop))
      ((Distribution.TcpServer.new n).start ((List.range n.toNat).map loop)) := by
    refine .start rfl ?_ (List.nodup_range.map hl) (by simp [hb])
    rw [List.length_map, List.length_range]
    rfl
  rw [h.pool_done hm]
  exact hs

-- The start of a pool, over all interleavings of its threads. What a thread does between its lock
-- and its unlock, it does alone. When `start` has returned, the pool is what the start in one step
-- makes of it, which is one that a server may make, and no thread changes it any more. A thread
-- calls `thread_cb_` once, with its own loop, in front of the loop.
theorem started_of_run [DecidableEq θ] {n : UInt32} {acts : List Act} (hl : Function.Injective loop)
    (e : Steps (Steps.Of (State.step threadCb loop)) (State.new n) acts s) :
    (∀ k w, s.workers[k]? = some w → w.Holds → s.mutex = some (.worker k)) ∧
    (s.main.Holds → s.mutex = some .main) ∧
    (s.main = .done →
      s.pool = (Distribution.LoopThreadPool.new n).start ((List.range n.toNat).map loop) ∧
      s.threads = List.range n.toNat ∧
      (∀ base, (∀ k, loop k ≠ base) →
        Distribution.TcpServer.Step base (.new n) (.start s.pool.loops)
        { Distribution.TcpServer.new n with threadPool := s.pool, started := true }) ∧
      ∀ acts' s', Steps (Steps.Of (State.step threadCb loop)) s acts' s' →
        s'.pool = s.pool ∧ s'.threads = s.threads) ∧
    ∀ k, s.called.count (loop k) = if threadCb.isSet ∧ s.workers[k]? = some .loop then 1
      else 0 := by
  have h := run_invariant hl e
  refine ⟨fun k w => h.stage.worker_holds, h.stage.main_holds,
    fun hm => ⟨?_, ?_, fun base hb => ?_, ?_⟩, h.called⟩
  · exact h.pool_done hm
  · exact h.counted.done hm ▸ (h.stage.done hm).right.right.right
  · exact h.pool_step hl hm hb
  · exact fun acts' s' e => (run_done h.stage hm e).right

-- Two threads, where the second wait is ended by the late notification of the first thread, and
-- once more by itself.
def lateNotify : List Act :=
  [.main, .main, .main, .main, .worker 0, .worker 0, .worker 0, .worker 0, .worker 0, .spurious,
    .main, .main,
    .main, .main, .main, .main, .main, .main, .worker 0, .main, .main, .spurious, .worker 1,
    .worker 1, .worker 1,
    .worker 1, .worker 1, .main, .main, .main, .main, .main, .main, .worker 1, .worker 1]

theorem started_of_late_notify :
    ∃ s, Steps (Steps.Of (State.step .user id)) (State.new 2) lateNotify s ∧ s.main = .done ∧
      s.pool = (Distribution.LoopThreadPool.new 2).start [0, 1] ∧ s.called.count 0 = 0 ∧
      s.called.count 1 = 1 := by
  have ⟨s, e, hm, hw⟩ : ∃ s, Steps (Steps.Of (State.step .user id)) (State.new 2) lateNotify s ∧
      s.main = .done ∧ s.workers = [.callback, .loop] := by
    refine ⟨_, Steps.of_isSome ?_, ?_⟩
    all_goals decide
  have ⟨_, _, hd, hc⟩ := started_of_run Function.injective_id e
  refine ⟨s, e, hm, (hd hm).left, ?_, ?_⟩
  · exact (hc 0).trans (by rw [hw]; rfl)
  · exact (hc 1).trans (by rw [hw]; rfl)

end Bounce.Starting
