import Bounce.Execution.Connection.Theorems.InStep

namespace Bounce.Connection

variable {θ : Type} [DecidableEq θ] {cfg : Callbacks} {own base t t' : θ} {s s' s₀ : State θ}
variable {act : Act θ} {c c' : Connection θ} {code : Code θ} {codes rest popped : List (Code θ)}
variable {answer : Answer} {api : Api} {n : Nat}

-- What `destroyConnection` may come from: the entry in the map, or the task on its way.
def tokens (own base : θ) (s : State θ) : Nat :=
  s.mapped.toNat + (s.stack base).count (.queue .destroyConnection) +
    (s.queue own).pending.count .destroyConnection + (s.stack own).count (.task .destroyConnection)

def State.top (s : State θ) : Act θ → Option (Code θ)
  | .exec t _ => (s.stack t).head?
  | _         => none

def State.destroys (s : State θ) (act : Act θ) : Nat :=
  if s.top act = some (.task .destroyConnection) then 1 else 0

def destroys (codes : List (Code θ)) : Nat :=
  codes.count (.queue .destroyConnection) + codes.count (.task .destroyConnection)

theorem destroys_eq_zero (h : ∀ code ∈ codes, code ≠ .queue .destroyConnection ∧
    code ≠ .task .destroyConnection) :
    destroys codes = 0 := by
  rw [destroys, List.count_eq_zero.mpr fun hm => (h _ hm).left rfl,
    List.count_eq_zero.mpr fun hm => (h _ hm).right rfl]

theorem not_mem_of_destroys (h : destroys codes = 0) : .task .destroyConnection ∉ codes :=
  List.count_eq_zero.mp (Nat.eq_zero_of_add_eq_zero_left h)

theorem Runs.destroys (hr : Runs cfg base t c code answer c' codes) : destroys codes = 0 := by
  refine destroys_eq_zero fun code' hm => ?_
  cases hr.leaves code' hm <;> exact ⟨nofun, nofun⟩

theorem Calls.destroys (hc : Calls own t c api c' codes) : destroys codes = 0 := by
  refine destroys_eq_zero fun code hm => ?_
  cases hc.puts code hm <;> exact ⟨nofun, nofun⟩

theorem Calls.late (hc : Calls own t c api c' codes) (hd : c.state = .disconnected) :
    c'.channel = c.channel ∧ codes = [] := by
  cases hc
  case send hs       => exact nomatch hs.symm.trans hd
  case shutdown hs   => exact absurd hd hs
  case forceClose hs => exact absurd hd hs
  all_goals exact ⟨rfl, rfl⟩

theorem handleChannel_destroys {revents : Events} :
    destroys (handleChannel revents : List (Code θ)) = 0 := by
  refine destroys_eq_zero fun code hm => ?_
  obtain rfl | rfl | rfl | rfl := mem_handleChannel hm <;> simp

theorem resume_count (code : Code θ) (t' : θ) {r : Connection θ × List (Code θ)}
    (h : s.stack t = popped ++ rest)
    (hp : code ∈ popped → t = t') (hr : code ∈ r.2 → t = t') :
    ((s.resume t r rest).stack t').count code + popped.count code =
      (s.stack t').count code + r.2.count code := by
  by_cases ht : t' = t
  case pos =>
    subst ht
    simp only [State.resume, Function.update_self, List.count_append, h]
    omega
  case neg =>
    rw [List.count_eq_zero.mpr fun hm => ht (hp hm).symm,
      List.count_eq_zero.mpr fun hm => ht (hr hm).symm]
    simp [State.resume, ht]

theorem tokens_resume (own base : θ) (popped : List (Code θ)) {r : Connection θ × List (Code θ)}
    (h : s.stack t = popped ++ rest)
    (hp : ∀ code ∈ popped, code.Home own base t) (hr : ∀ code ∈ r.2, code.Home own base t) :
    tokens own base (s.resume t r rest) + destroys popped = tokens own base s + destroys r.2 := by
  have hq := resume_count (.queue .destroyConnection) base h
    (fun hm => hp _ hm) (fun hm => hr _ hm)
  have ht := resume_count (.task .destroyConnection) own h
    (fun hm => hp _ hm) (fun hm => hr _ hm)
  have hm : (s.resume t r rest).mapped = s.mapped := rfl
  have hu : (s.resume t r rest).queue = s.queue := rfl
  simp only [tokens, destroys, hm, hu]
  omega

theorem tokens_setQueue (own base : θ) {q : TaskQueue (Task θ)} :
    tokens own base (s.setQueue t q) +
        (if t = own then (s.queue t).pending.count .destroyConnection else 0) =
      tokens own base s + (if t = own then q.pending.count .destroyConnection else 0) := by
  by_cases ht : t = own
  case pos =>
    subst ht
    simp only [tokens, State.setQueue, Function.update_self, if_pos]
    omega
  case neg => simp [tokens, State.setQueue, Ne.symm ht, ht]

theorem Placed.step_tokens (h : Placed own base s) (hb : Batched s)
    (e : Step cfg own base s act s') :
    tokens own base s' + s.destroys act = tokens own base s := by
  have hhome : ∀ {t code rest}, s.stack t = code :: rest →
      ∀ code' ∈ [code], code'.Home own base t := by
    intro t code rest hs code' hm
    exact List.mem_singleton.mp hm ▸ h.home.code t code (hs ▸ List.mem_cons_self)
  cases e
  case call t api _ _ =>
    have hc := call_cases own t s.conn api
    have ht := tokens_resume own base [] (s := s) rfl (by simp) hc.home
    rw [hc.destroys] at ht
    exact ht
  case exec t code rest answer r hs hr =>
    have hr := run_cases hr
    have hm := hhome hs
    have ht := tokens_resume own base [code] hs hm (hr.home (hm code (by simp)))
    have hq : destroys [code] = s.destroys (.exec t answer) := by
      rw [destroys, List.count_eq_zero.mpr
        fun hm => by obtain rfl := List.mem_singleton.mp hm; cases hr]
      simp [State.destroys, State.top, hs, List.count_singleton]
    rw [hr.destroys, hq] at ht
    exact ht
  case queue t f rest hs =>
    have hm := hhome hs
    have hq := tokens_setQueue own base (s := s) (t := f.home own base)
      (q := (s.queue (f.home own base)).push f)
    have ht :=
      tokens_resume own base [.queue f]
        (s := s.setQueue (f.home own base) ((s.queue (f.home own base)).push f))
      (r := (s.conn, [])) hs hm (by simp)
    simp only [TaskQueue.push_pending, List.count_append] at hq
    by_cases hf : f = .destroyConnection
    case pos =>
      subst hf
      simp [destroys, State.destroys, State.top, Task.home, hs] at hq ht ⊢
      omega
    case neg =>
      simp [destroys, State.destroys, State.top, hs, hf] at hq ht ⊢
      omega
  case remove t rest hs =>
    have hm := hhome hs
    have hb : t = base := hm _ (List.mem_singleton.mpr rfl)
    have hr : ∀ code ∈ (if s.mapped then [Code.queue .destroyConnection] else []),
        code.Home own base t := by
      intro code hm'
      split at hm'
      case isTrue  => obtain rfl := List.mem_singleton.mp hm'; exact hb
      case isFalse => contradiction
    have ht := tokens_resume own base _ (s := { s with mapped := false })
      (r := (s.conn, if s.mapped then [.queue .destroyConnection] else [])) hs hm hr
    have hmap : tokens own base { s with mapped := false } + s.mapped.toNat =
        tokens own base s := by
      simp only [tokens, Bool.toNat_false]
      omega
    cases hc : s.mapped <;>
      simp [hc, destroys, State.destroys, State.top, hs] at hmap ht ⊢ <;>
      omega
  case dispatch t revents hp hs =>
    have hr := tokens_resume own base [] (s := s.setPhase t (.dispatch none))
      (r := (s.conn, handleChannel revents)) hs (by simp) (fun code hm => by
        have ht := h.phase t revents hp
        obtain rfl | rfl | rfl | rfl := mem_handleChannel hm <;> exact ht)
    rw [handleChannel_destroys] at hr
    exact hr
  case swap t hp hs =>
    have hq := tokens_setQueue own base (s := s.setPhase t .tasks) (t := t)
      (q := (s.queue t).swap)
    rw [TaskQueue.swap_pending (hb t (by simp [hp]))] at hq
    exact Nat.add_right_cancel hq
  case task t f tasks hp hs ht =>
    have hq := tokens_setQueue own base (s := s) (t := t)
      (q := { s.queue t with tmpVec := tasks })
    have hf := h.home.task t f (by simp [TaskQueue.pending, ht])
    have hc : ∀ code ∈ [Code.task f], code.Home own base t :=
      fun code hm => List.mem_singleton.mp hm ▸ hf.start
    have hr := tokens_resume own base [] (s := s.setQueue t { s.queue t with tmpVec := tasks })
      (r := (s.conn, [.task f])) hs (by simp) hc
    simp only [TaskQueue.pending, ht, List.cons_append, List.count_cons] at hq
    by_cases hd : f = .destroyConnection
    case pos =>
      subst hd
      simp [destroys, State.destroys, State.top, show t = own from hf] at hq hr ⊢
      omega
    case neg =>
      simp [destroys, State.destroys, State.top, hd] at hq hr ⊢
      omega
  case poll | finish => rfl

def Act.thread : Act θ → θ
  | .call t _ | .exec t _ | .poll t _ | .dispatch t | .swap t | .task t | .finish t => t

theorem step_of_thread_ne (ht : act.thread ≠ t) (e : Step cfg own base s act s') :
    s'.stack t = s.stack t ∧ s'.phase t = s.phase t := by
  cases e <;> rw [Act.thread] at ht <;>
    simp [State.resume, State.setPhase, State.setQueue, Ne.symm ht]

theorem Single.step_conn (h : Single own base s) (hk : s.OnLoop own act)
    (e : Step cfg own base s act s')
    (ht : act.thread ≠ own) : s'.conn = s.conn := by
  cases e
  case call       => exact absurd hk ht
  case exec hs hr => exact absurd (h.exec_own hs (run_cases hr)) ht
  all_goals rfl

-- The codes that may still come when `destroyConnection` has been run.
def Code.Late (code : Code θ) : Prop :=
  code = .user ∨ code = .task .writeComplete ∨ code = .task .removeConnectionInLoop

structure Gone (own : θ) (s : State θ) : Prop where
  slot  : s.conn.channel.slot = none
  ready : ∀ r, s.phase own ≠ .dispatch (some r)
  codes : ∀ code ∈ s.stack own, code.Late

def Only (own : θ) (s : State θ) (code : Code θ) : Prop :=
  s.stack own = [code] ∧ s.phase own = .tasks

structure Managed (own base : θ) (s : State θ) (n : Nat) : Prop where
  single  : Single own base s
  batched : Batched s
  tally   : tokens own base s + n = 1
  alone   : .task .destroyConnection ∈ s.stack own → Only own s (.task .destroyConnection)
  stage   : 0 < tokens own base s ∨
    (s.conn.state = .disconnected ∧ (Only own s .removeChannel ∨ Gone own s))

namespace Managed

theorem step_alone (h : Managed own base s n) (e : Step cfg own base s act s') :
    .task .destroyConnection ∈ s'.stack own → Only own s' (.task .destroyConnection) := by
  intro hm
  by_cases ht : act.thread = own
  case neg =>
    have ⟨hs, hp⟩ := step_of_thread_ne ht e
    rw [hs] at hm
    rw [Only, hs, hp]
    exact h.alone hm
  case pos =>
    have hrest : ∀ {code rest}, s.stack own = code :: rest → .task .destroyConnection ∉ rest := by
      intro code rest hs hm
      obtain ⟨ha, _⟩ := h.alone (hs ▸ .tail _ hm)
      rw [hs, List.cons.injEq] at ha
      exact List.not_mem_nil (ha.right ▸ hm)
    have hresume : ∀ {s : State θ} {r : Connection θ × List (Code θ)} {rest : List (Code θ)},
        .task .destroyConnection ∈ (s.resume own r rest).stack own →
          .task .destroyConnection ∈ r.2 ∨ .task .destroyConnection ∈ rest := by
      intro s r rest hm
      simpa [State.resume] using hm
    cases e <;> dsimp only [Act.thread] at ht <;> subst ht
    case call t api _ hc =>
      cases hresume hm
      case inl hm => exact absurd hm (not_mem_of_destroys (call_cases ..).destroys)
      case inr hm =>
        obtain ⟨ha, _⟩ := h.alone hm
        obtain hs | ⟨_, hs⟩ := hc <;> simp [hs] at ha
    case exec t code rest answer r hs hr =>
      cases hresume hm
      case inl hm => exact absurd hm (not_mem_of_destroys (run_cases hr).destroys)
      case inr hm => exact absurd hm (hrest hs)
    case queue t f rest hs =>
      cases hresume hm
      case inl hm => contradiction
      case inr hm => exact absurd hm (hrest hs)
    case remove t rest hs =>
      cases hresume hm
      case inl hm => split at hm <;> simp at hm
      case inr hm => exact absurd hm (hrest hs)
    case dispatch t revents hp hs =>
      cases hresume hm
      case inl hm => exact absurd hm (not_mem_of_destroys handleChannel_destroys)
      case inr hm => contradiction
    case task t f tasks hp hs hq =>
      cases hresume hm
      case inl hm =>
        obtain rfl : .destroyConnection = f := by simpa using hm
        exact ⟨by simp [State.resume], hp⟩
      case inr hm => contradiction
    case poll t _ _ hs _ | swap t _ hs | finish t _ hs _ =>
      exact absurd (hs ▸ hm) List.not_mem_nil

theorem step_destroy (h : Managed own base s n) (e : Step cfg own base s act s')
    (hp : 0 < s.destroys act) :
    s.conn.state = .disconnected ∧ Only own s' .removeChannel := by
  have htop : s.top act = some (.task .destroyConnection) :=
    not_not.mp fun hn => by simp [State.destroys, hn] at hp
  cases act
  case exec t answer =>
    have hm : .task .destroyConnection ∈ s.stack t := List.mem_of_head? htop
    obtain rfl : t = own := h.single.placed.home.code t _ hm
    have ⟨ha, hph⟩ := h.alone hm
    have hd := (h.single.after.code t _ hm).right trivial
    refine ⟨hd, ?_⟩
    cases e
    case exec code rest' r hs' hr =>
      obtain ⟨rfl, rfl⟩ := List.cons.inj (ha.symm.trans hs')
      have hr := run_cases hr
      obtain ⟨c', codes⟩ := r
      cases hr
      case destroyConnected hc  => cases hc.symm.trans hd
      case destroyConnection    => exact ⟨by simp [State.resume], hph⟩
    case queue hs'  => cases ha.symm.trans hs'
    case remove hs' => cases ha.symm.trans hs'
  all_goals contradiction

theorem step_only (h : Managed own base s n) (hk : s.OnLoop own act)
    (e : Step cfg own base s act s')
    (hs : Only own s .removeChannel) : Only own s' .removeChannel ∨ Gone own s' := by
  obtain ⟨hs, hp⟩ := hs
  by_cases ht : act.thread = own
  case neg =>
    have ⟨hs', hp'⟩ := step_of_thread_ne ht e
    exact .inl ⟨hs'.trans hs, hp'.trans hp⟩
  case pos =>
    cases e <;> dsimp only [Act.thread] at ht <;> subst ht
    case call t api _ hc =>
      obtain hc | ⟨_, hc⟩ := hc <;> simp [hs] at hc
    case exec t code rest answer r hs' hr =>
      obtain ⟨rfl, rfl⟩ := List.cons.inj (hs.symm.trans hs')
      have hr := run_cases hr
      obtain ⟨c', codes⟩ := r
      cases hr
      exact .inr ⟨rfl, fun r hr => (by cases hp.symm.trans hr), by simp [State.resume]⟩
    case queue t _ _ hs' | remove t _ hs' =>
      cases hs.symm.trans hs'
    case poll t _ _ hs' _ | dispatch t _ _ hs' | swap t _ hs' | task t _ _ _ hs' _ |
      finish t _ hs' _ =>
      cases hs.symm.trans hs'

theorem step_gone (h : Managed own base s n) (hk : s.OnLoop own act)
    (e : Step cfg own base s act s')
    (hz : tokens own base s = 0) (hd : s.conn.state = .disconnected) (hg : Gone own s) :
    Gone own s' := by
  by_cases ht : act.thread = own
  case neg =>
    have ⟨hs, hp⟩ := step_of_thread_ne ht e
    exact ⟨h.single.step_conn hk e ht ▸ hg.slot, hp ▸ hg.ready, hs ▸ hg.codes⟩
  case pos =>
    have hresume : ∀ {s : State θ} {r : Connection θ × List (Code θ)} {rest : List (Code θ)},
        r.1.channel.slot = none → (∀ r, s.phase own ≠ .dispatch (some r)) →
        (∀ code ∈ r.2, code.Late) →
          (∀ code ∈ rest, code.Late) → Gone own (s.resume own r rest) := by
      intro s r rest hc hp hr hrest
      refine ⟨hc, hp, fun code hm => ?_⟩
      obtain ⟨_, hm | hm⟩ | ⟨hn, _⟩ := mem_resume hm
      · exact hr code hm
      · exact hrest code hm
      · exact absurd rfl hn
    have hrest : ∀ {code rest}, s.stack own = code :: rest → ∀ code ∈ rest, code.Late :=
      fun hs code hm => hg.codes code (hs ▸ .tail _ hm)
    cases e <;> dsimp only [Act.thread] at ht <;> subst ht
    case call t api _ _ =>
      have ⟨hc, hr⟩ := (call_cases t t s.conn api).late hd
      exact hresume (hc ▸ hg.slot) hg.ready (by simp [hr]) hg.codes
    case exec t code rest answer r hs hr =>
      have hr := run_cases hr
      obtain ⟨c', codes⟩ := r
      obtain rfl | rfl | rfl := hg.codes code (hs ▸ List.mem_cons_self)
      all_goals cases hr
      case user          => exact hresume hg.slot hg.ready (by simp) (hrest hs)
      case writeComplete => exact hresume hg.slot hg.ready (by simp [Code.Late]) (hrest hs)
    case queue t f rest hs =>
      have hc := hg.codes (.queue f) (hs ▸ List.mem_cons_self)
      simp [Code.Late] at hc
    case remove t rest hs =>
      have hm : s.mapped = false := by
        cases hm : s.mapped
        case false => rfl
        case true  => simp [tokens, hm] at hz
      exact hresume (s := { s with mapped := false }) hg.slot hg.ready (by simp [hm]) (hrest hs)
    case poll t ready hp hs hr =>
      refine ⟨hg.slot, fun r hp' => ?_, hg.codes⟩
      obtain rfl : ready = some r := by simpa [State.setPhase] using hp'
      have hv := (hr r rfl).right.left
      simp [Watch.visible, hg.slot] at hv
    case dispatch t revents hp hs =>
      exact absurd hp (hg.ready revents)
    case swap t hp hs =>
      exact ⟨hg.slot, by simp [State.setPhase, State.setQueue], hg.codes⟩
    case task t f tasks hp hs hq =>
      have hm : f ∈ (s.queue t).pending := by simp [TaskQueue.pending, hq]
      have hf : f ≠ .destroyConnection := by
        rintro rfl
        have hc := List.count_pos_iff.mpr hm
        rw [tokens] at hz
        omega
      have ha := (h.single.after.task t f hm).left
      refine hresume (s := s.setQueue t _) hg.slot hg.ready (fun code hm => ?_) (by simp)
      obtain rfl := List.mem_singleton.mp hm
      cases f
      case writeComplete          => exact .inr (.inl rfl)
      case removeConnectionInLoop => exact .inr (.inr rfl)
      case destroyConnection      => exact absurd rfl hf
      all_goals contradiction
    case finish t hp hs hq =>
      exact ⟨hg.slot, by simp [State.setPhase], hg.codes⟩

theorem step_stage (h : Managed own base s n) (hk : s.OnLoop own act)
    (e : Step cfg own base s act s') :
    0 < tokens own base s' ∨
      (s'.conn.state = .disconnected ∧ (Only own s' .removeChannel ∨ Gone own s')) := by
  have ht := h.single.placed.step_tokens h.batched e
  by_cases hz : tokens own base s = 0
  case pos =>
    have ⟨hd, hg⟩ := h.stage.resolve_left (Nat.not_lt.mpr (Nat.le_of_eq hz))
    refine .inr ⟨h.single.step_state hk e hd, ?_⟩
    cases hg
    case inl hg => exact h.step_only hk e hg
    case inr hg => exact .inr (h.step_gone hk e hz hd hg)
  case neg =>
    by_cases hz' : tokens own base s' = 0
    case neg => exact .inl (Nat.pos_of_ne_zero hz')
    case pos =>
      have ⟨hd, ho⟩ := h.step_destroy e (by omega)
      exact .inr ⟨h.single.step_state hk e hd, .inl ho⟩

theorem step (h : Managed own base s n) (hk : s.OnLoop own act) (e : Step cfg own base s act s') :
    Managed own base s' (n + s.destroys act) where
  single  := h.single.step hk e
  batched := h.batched.step e
  tally   := by
    have ht := h.single.placed.step_tokens h.batched e
    have hn := h.tally
    omega
  alone   := h.step_alone e
  stage   := h.step_stage hk e

omit [DecidableEq θ] in
theorem shared_of_mem_stack {code : Code θ} (h : code ∈ s.stack t) (hs : code.shared) : s.Shared :=
  .inr (.inl ⟨t, code, h, hs⟩)

theorem shared_of_tokens (hp : 0 < tokens own base s) : s.Shared := by
  by_contra hn
  have hm : s.mapped = false := Bool.eq_false_iff.mpr fun hm => hn (.inl hm)
  have hq : .queue .destroyConnection ∉ s.stack base := fun hq => hn (shared_of_mem_stack hq rfl)
  have hf : .destroyConnection ∉ (s.queue own).pending :=
    fun hf => hn (.inr (.inr ⟨own, _, hf, rfl⟩))
  have ht : .task .destroyConnection ∉ s.stack own := fun ht => hn (shared_of_mem_stack ht rfl)
  rw [tokens, hm, List.count_eq_zero.mpr hq, List.count_eq_zero.mpr hf,
    List.count_eq_zero.mpr ht] at hp
  exact Nat.lt_irrefl 0 hp

theorem shared (h : Managed own base s n)
    (hr : s.conn.channel.slot ≠ none ∨ ∃ r, s.phase own = .dispatch (some r)) : s.Shared := by
  cases h.stage
  case inl hp => exact shared_of_tokens hp
  case inr hg =>
    obtain ⟨_, ho | hg⟩ := hg
    · exact shared_of_mem_stack (ho.left ▸ List.mem_singleton_self _) rfl
    · obtain hr | ⟨r, hr⟩ := hr
      · exact absurd hg.slot hr
      · exact absurd hr (hg.ready r)

theorem idle (h : Managed own base s n) (hn : ¬s.Shared) :
    Gone own s ∧ (∀ t, s.stack t = []) ∧ ∀ t, (s.queue t).pending = [] := by
  have hc : ∀ t, ∀ code ∈ s.stack t, ¬code.shared :=
    fun t code hm hs => hn (shared_of_mem_stack hm hs)
  have hg : Gone own s := by
    cases h.stage
    case inl hp => exact absurd (shared_of_tokens hp) hn
    case inr hg =>
      refine hg.right.resolve_left fun ho => ?_
      exact hc own .removeChannel (ho.left ▸ List.mem_singleton_self _) rfl
  refine ⟨hg, fun t => List.eq_nil_iff_forall_not_mem.mpr fun code hm => ?_,
    fun t => List.eq_nil_iff_forall_not_mem.mpr fun f hm => ?_⟩
  · refine hc t code hm ?_
    by_cases ht : t = own
    case pos =>
      subst ht
      obtain rfl | rfl | rfl := hg.codes code hm <;> rfl
    case neg =>
      have ⟨hcalm, hcl⟩ := (h.single.after.code t code hm).left ht
      cases code
      case task f | queue f => cases f <;> trivial
      all_goals trivial
  · refine hn (.inr (.inr ⟨t, f, hm, ?_⟩))
    have hp := (h.single.after.task t f hm).left
    cases f <;> trivial

theorem not_shared_step (h : Managed own base s n) (hn : ¬s.Shared)
    (hc : ∀ t api, act ≠ .call t api)
    (e : Step cfg own base s act s') : ¬s'.Shared := by
  have ⟨hg, hs, hq⟩ := h.idle hn
  have hqueue : ∀ t, (s.queue t).tmpVec = [] ∧ (s.queue t).taskVec = [] :=
    fun t => List.append_eq_nil_iff.mp (hq t)
  cases e
  case call t api _ _              => exact absurd rfl (hc t api)
  case exec t _ _ _ _ hs' _        => exact nomatch (hs t).symm.trans hs'
  case queue t _ _ hs' | remove t _ hs' => exact nomatch (hs t).symm.trans hs'
  case poll                        => exact hn
  case dispatch t r hp _ =>
    obtain rfl := h.single.placed.phase t r hp
    exact absurd hp (hg.ready r)
  case swap t _ _ =>
    have he : s.setQueue t (s.queue t).swap = s := by
      obtain ⟨ht, hv⟩ := hqueue t
      have he : (s.queue t).swap = s.queue t := by
        cases hq : s.queue t
        simp_all [TaskQueue.swap]
      rw [he]
      simp [State.setQueue]
    have hn : ¬(s.setQueue t (s.queue t).swap).Shared := he.symm ▸ hn
    exact hn
  case task t _ _ _ _ ht           => cases (hqueue t).left.symm.trans ht
  case finish                      => exact hn

end Managed

-- Where `connectComplete` is, from `newConnection` up to its run. Nothing else is to be done.
inductive Starting (own base : θ) : (θ → List (Code θ)) → (θ → TaskQueue (Task θ)) → Prop
  | queueing :
    Starting own base (Function.update (fun _ => []) base [.queue .connectComplete])
      (fun _ => .empty)
  | queued {q} :
    q.pending = [.connectComplete] →
    Starting own base (fun _ => []) (Function.update (fun _ => .empty) own q)
  | starting :
    Starting own base (Function.update (fun _ => []) own [.task .connectComplete]) (fun _ => .empty)

structure Fresh (own base : θ) (s : State θ) : Prop where
  conn    : ∃ initSize fd, s.conn = new initSize fd
  mapped  : s.mapped = true
  starts  : Starting own base s.stack s.queue
  phase   : ∀ t r, s.phase t ≠ .dispatch (some r)
  batched : Batched s

namespace Starting

variable {stack : θ → List (Code θ)} {queue : θ → TaskQueue (Task θ)} {f : Task θ}
variable {tasks : List (Task θ)}

theorem exec (h : Starting own base stack queue) (hs : stack t = code :: rest) :
    rest = [] ∧ queue = (fun _ => .empty) ∧ stack = Function.update (fun _ => []) t [code] ∧
      ((code = .queue .connectComplete ∧ t = base) ∨
        (code = .task .connectComplete ∧ t = own)) := by
  have hu : ∀ {t' : θ} {x : Code θ}, Function.update (fun _ => []) t' [x] t = code :: rest →
      t = t' ∧ x = code ∧ rest = [] := by
    intro t' x hs
    by_cases ht : t = t'
    case pos => simp_all
    case neg => simp [ht] at hs
  cases h
  case queueing =>
    obtain ⟨rfl, rfl, rfl⟩ := hu hs
    exact ⟨rfl, rfl, rfl, .inl ⟨rfl, rfl⟩⟩
  case queued   => contradiction
  case starting =>
    obtain ⟨rfl, rfl, rfl⟩ := hu hs
    exact ⟨rfl, rfl, rfl, .inr ⟨rfl, rfl⟩⟩

theorem task (h : Starting own base stack queue) (hq : (queue t).tmpVec = f :: tasks) :
    t = own ∧ f = .connectComplete ∧ stack = (fun _ => []) ∧
      Function.update queue t { queue t with tmpVec := tasks } = fun _ => .empty := by
  cases h
  case queued q hp =>
    by_cases ht : t = own
    case neg => simp [ht, TaskQueue.empty] at hq
    case pos =>
      subst ht
      obtain ⟨taskVec, tmpVec⟩ := q
      simp only [Function.update_self] at hq
      subst hq
      obtain ⟨rfl, hn⟩ := List.cons.inj hp
      obtain ⟨rfl, rfl⟩ := List.append_eq_nil_iff.mp hn
      refine ⟨rfl, rfl, rfl, ?_⟩
      funext t'
      by_cases ht : t' = t <;> simp [ht, TaskQueue.empty]
  all_goals simp [TaskQueue.empty] at hq

theorem swap (h : Starting own base stack queue) (hq : (queue t).tmpVec = []) :
    Starting own base stack (Function.update queue t (queue t).swap) := by
  have he : ∀ {t' : θ}, (queue t') = .empty → Function.update queue t' (queue t').swap = queue :=
    fun he => Function.update_eq_self_iff.mpr (by rw [he]; rfl)
  cases h
  case queueing => rw [he rfl]; exact .queueing
  case starting => rw [he rfl]; exact .starting
  case queued q hp =>
    by_cases ht : t = own
    case pos =>
      subst ht
      simp only [Function.update_self] at hq
      simp only [Function.update_self, Function.update_idem]
      exact .queued ((TaskQueue.swap_pending hq).trans hp)
    case neg =>
      rw [he (by simp [ht])]
      exact .queued hp

end Starting

namespace Fresh

theorem step_phase (h : Fresh own base s) (e : Step cfg own base s act s') :
    ∀ t r, s'.phase t ≠ .dispatch (some r) := by
  intro t' r hp
  cases e
  case call | exec | queue | remove | task => exact h.phase t' r hp
  case poll ready _ _ hr =>
    cases setPhase_dispatch hp
    case inl hp =>
      obtain rfl := Phase.dispatch.inj hp.right
      have ⟨_, _, hc⟩ := h.conn
      have hv := (hr r rfl).right.left
      simp [hc, new, TcpConnection.new, Watch.new, Watch.visible] at hv
    case inr hp => exact h.phase t' r hp
  case dispatch hp' _ => exact h.phase _ _ hp'
  case swap =>
    have hp : (s.setPhase _ .tasks).phase t' = .dispatch (some r) := hp
    cases setPhase_dispatch hp
    case inl hp => simp at hp
    case inr hp => exact h.phase t' r hp
  case finish =>
    cases setPhase_dispatch hp
    case inl hp => simp at hp
    case inr hp => exact h.phase t' r hp

theorem step (h : Fresh own base s) (e : Step cfg own base s act s') :
    (Fresh own base s' ∨ Initial own s') ∧ s.destroys act = 0 := by
  have hb := h.batched.step e
  have hp := h.step_phase e
  cases e
  case call hk _ =>
    have ⟨_, _, hc⟩ := h.conn
    exact absurd (by rw [hc]; rfl) hk
  case exec t code rest answer r hs hr =>
    obtain ⟨rfl, hq, hst, ⟨rfl, _⟩ | ⟨rfl, rfl⟩⟩ := h.starts.exec hs
    · cases run_cases hr
    · have ⟨initSize, fd, hc⟩ := h.conn
      have hr := run_cases hr
      obtain ⟨c', codes⟩ := r
      cases hr
      refine ⟨.inr ⟨⟨initSize, fd, ?_⟩, ?_, hq, hp, h.mapped⟩, ?_⟩
      · simp [State.resume, hc, new]
      · simp [State.resume, hst]
      · simp [State.destroys, State.top, hs]
  case queue t f rest hs =>
    obtain ⟨rfl, hq, hst, ⟨hf, _⟩ | ⟨hf, _⟩⟩ := h.starts.exec hs
    · obtain rfl := Code.queue.inj hf
      refine ⟨.inl ⟨h.conn, h.mapped, ?_, hp, hb⟩, ?_⟩
      · simp only [State.resume, State.setQueue, hst, hq, Function.update_idem, List.nil_append,
          Function.update_eq_self, Task.home]
        exact .queued rfl
      · simp [State.destroys, State.top, hs]
    · contradiction
  case remove t rest hs =>
    obtain ⟨rfl, hq, hst, ⟨hf, _⟩ | ⟨hf, _⟩⟩ := h.starts.exec hs <;> simp at hf
  case poll            => exact ⟨.inl ⟨h.conn, h.mapped, h.starts, hp, hb⟩, rfl⟩
  case dispatch hp' _  => exact absurd hp' (h.phase _ _)
  case swap t hp' _    =>
    exact ⟨.inl ⟨h.conn, h.mapped, h.starts.swap (h.batched t (by simp [hp'])), hp, hb⟩, rfl⟩
  case task t f tasks hp' hs ht =>
    obtain ⟨rfl, rfl, hst, hq⟩ := h.starts.task ht
    refine ⟨.inl ⟨h.conn, h.mapped, ?_, hp, hb⟩, rfl⟩
    simp only [State.resume, State.setQueue, hst, hq, List.append_nil]
    exact .starting
  case finish          => exact ⟨.inl ⟨h.conn, h.mapped, h.starts, hp, hb⟩, rfl⟩

end Fresh

theorem Initial.managed (h : Initial own s) : Managed own base s 0 := by
  have ht : tokens own base s = 1 := by
    have hb : (s.stack base).count (.queue .destroyConnection) = 0 := by
      rw [h.stack]
      by_cases hb : base = own <;> simp [hb]
    rw [tokens, h.mapped, hb, h.stack, h.queue]
    simp [TaskQueue.pending, TaskQueue.empty]
  exact {
    single  := h.single
    batched := Batched.of_empty h.queue
    tally   := ht
    alone   := by simp [h.stack]
    stage   := .inl (ht ▸ Nat.one_pos)
  }

inductive Owned (own base : θ) (s : State θ) : Nat → Prop
  | fresh       : Fresh own base s → Owned own base s 0
  | managed {m} : Managed own base s m → Owned own base s m

namespace Owned

theorem step (h : Owned own base s n) (hk : s.OnLoop own act) (e : Step cfg own base s act s') :
    Owned own base s' (n + s.destroys act) := by
  cases h
  case managed h => exact .managed (h.step hk e)
  case fresh h =>
    have ⟨he, hn⟩ := h.step e
    rw [hn]
    cases he
    case inl h => exact .fresh h
    case inr h => exact .managed h.managed

theorem le_one (h : Owned own base s n) : n ≤ 1 := by
  cases h
  case fresh     => exact Nat.zero_le 1
  case managed h => exact h.tally ▸ Nat.le_add_left ..

theorem shared (h : Owned own base s n)
    (hr : s.conn.channel.slot ≠ none ∨ ∃ t r, s.phase t = .dispatch (some r)) : s.Shared := by
  cases h
  case fresh h   => exact .inl h.mapped
  case managed h =>
    refine h.shared (hr.imp id ?_)
    rintro ⟨t, r, hp⟩
    obtain rfl := h.single.placed.phase t r hp
    exact ⟨r, hp⟩

theorem not_shared_step (h : Owned own base s n) (hn : ¬s.Shared) (hc : ∀ t api, act ≠ .call t api)
    (e : Step cfg own base s act s') : ¬s'.Shared := by
  cases h
  case fresh h   => exact absurd (.inl h.mapped) hn
  case managed h => exact h.not_shared_step hn hc e

end Owned

end Bounce.Connection
