import Bounce.Execution.Connection.Theorems.Lifetime

namespace Bounce.Connection

variable {θ : Type} [DecidableEq θ] {cfg : Callbacks} {own base t : θ} {s s' s₀ : State θ}
variable {act : Act θ} {c c' : Connection θ} {code : Code θ} {codes rest l l' : List (Code θ)}
variable {answer : Answer} {api : Api}

def Event.isNotice : Event → Bool
  | .callback .connect _ | .callback .message _ => true
  | _                                           => false

def notices (c : Connection θ) : List Event :=
  c.trace.filter Event.isNotice

def IsMessage (e : Event) : Prop :=
  ∃ state, e = .callback .message state

-- The connection is up, has any messages, and is down in the end. `close_cb_` is called once at
-- most.
structure WellFormed (trace : List Event) : Prop where
  notices  : ∃ messages : List Event, (∀ e ∈ messages, IsMessage e) ∧
    trace.filter Event.isNotice <+:
    .callback .connect .connected :: messages ++ [.callback .connect .disconnected]
  closings : trace.count .closeCb ≤ 1

def Code.notifies (cfg : Callbacks) : Code θ → Answer → Bool
  | .handleClose forced, _ => !forced
  | .handleRead, .read r   => cfg.message && 0 < r.ret
  | _, _                   => false

def State.Heeds (cfg : Callbacks) (s : State θ) : Act θ → Prop
  | .exec t answer =>
    s.conn.state = .disconnected → ∀ code ∈ (s.stack t).head?, ¬code.notifies cfg answer
  | _ => True

def Code.isCallback : Code θ → Bool
  | .callback _ _ => true
  | _             => false

-- How far the notices are, where `l` is what the loop's thread has still to do.
inductive Notices (cfg : Callbacks) (c : Connection θ) : List (Code θ) → Prop
  | connect :
    c.notices = [] → c.closes = 0 → c.state = .connected → Notices cfg c [.callback .connect false]
  | bad :
    c.notices = [] → Notices cfg c [.badFunctionCall]
  | opened {messages l} :
    cfg.connect → c.notices = .callback .connect .connected :: messages →
    (∀ e ∈ messages, IsMessage e) →
    c.closes = 0 → (∀ guarded, l.head? ≠ some (.callback .connect guarded)) → Notices cfg c l
  | closing {messages l} :
    cfg.connect → c.notices = .callback .connect .connected :: messages →
    (∀ e ∈ messages, IsMessage e) →
    c.closes = 1 → Notices cfg c (.callback .connect true :: l)
  | closed {messages l} :
    cfg.connect →
    c.notices = .callback .connect .connected :: messages ++ [.callback .connect .disconnected] →
    (∀ e ∈ messages, IsMessage e) → c.closes = 1 →
    (∀ guarded, l.head? ≠ some (.callback .connect guarded)) → Notices cfg c l

structure Tells (cfg : Callbacks) (c : Connection θ) (l : List (Code θ)) : Prop where
  tops     : ∀ code ∈ l.tail, ¬code.isCallback
  message  : ∀ guarded, l.head? = some (.callback .message guarded) → cfg.message → c.closes = 0
  closings : c.trace.count .closeCb + l.count .closeCb = c.closes
  notices  : Notices cfg c l

def Ordinary (l : List (Code θ)) : Prop :=
  (∀ guarded, l.head? ≠ some (.callback .connect guarded)) ∧ l.head? ≠ some .badFunctionCall

namespace Tells

theorem keep (h : Tells cfg c l) (hl : Ordinary l) (hn : c'.notices = c.notices)
    (hc : c'.closes = c.closes)
    (ht : ∀ code ∈ l'.tail, ¬code.isCallback)
    (hm : ∀ guarded, l'.head? = some (.callback .message guarded) → cfg.message → c.closes = 0)
    (hcb : c'.trace.count .closeCb + l'.count .closeCb = c.trace.count .closeCb + l.count .closeCb)
    (hl' : ∀ guarded, l'.head? ≠ some (.callback .connect guarded)) : Tells cfg c' l' where
  tops     := ht
  message  := hc ▸ hm
  closings := hcb.trans (h.closings.trans hc.symm)
  notices  := by
    cases h.notices
    case connect                => exact absurd rfl (hl.left false)
    case bad                    => exact absurd rfl hl.right
    case closing                => exact absurd rfl (hl.left true)
    case opened hcfg ho hms hz _  => exact .opened hcfg (hn.trans ho) hms (hc.trans hz) hl'
    case closed hcfg ho hms hz _  => exact .closed hcfg (hn.trans ho) hms (hc.trans hz) hl'

theorem push (h : Tells cfg c l) (codes : List (Code θ)) (hl : l = [] ∨ ∃ rest, l = .user :: rest)
    (ht : c'.trace = c.trace)
    (hc : ∀ code ∈ codes, ¬code.isCallback ∧ code ≠ .closeCb) : Tells cfg c' (codes ++ l) := by
  have hcl : ∀ code ∈ codes ++ l, ¬code.isCallback := by
    intro code hm
    cases List.mem_append.mp hm
    case inl hm => exact (hc code hm).left
    case inr hm =>
      obtain rfl | ⟨rest, rfl⟩ := hl
      · contradiction
      · cases hm
        case head    => exact Bool.false_ne_true
        case tail hm => exact h.tops code hm
  have hh : ∀ {cb guarded}, (codes ++ l).head? ≠ some (.callback cb guarded) :=
    fun hh => hcl _ (List.mem_of_head? hh) rfl
  refine h.keep ?_ (congrArg (List.filter _) ht) (congrArg (List.count _) ht)
    (fun code hm => hcl code (List.mem_of_mem_tail hm))
    (fun _ hm => absurd hm hh) ?_ fun _ => hh
  · obtain rfl | ⟨rest, rfl⟩ := hl <;> simp [Ordinary]
  · rw [ht, List.count_append, List.count_eq_zero.mpr fun hm => (hc _ hm).right rfl, Nat.zero_add]

theorem call (h : Tells cfg c l) (hl : l = [] ∨ ∃ rest, l = .user :: rest)
    (hc : Calls own t c api c' codes) : Tells cfg c' (codes ++ l) := by
  cases hc
  case send | shutdown | forceClose =>
    refine h.push _ hl rfl ?_
    by_cases ht : t = own <;> simp [doTaskInThread, ht, Code.isCallback]
  all_goals exact h.push _ hl rfl (by simp)

theorem quiet (h : Tells cfg c (code :: rest)) (ht : c'.trace = c.trace)
    (hcode : (∀ guarded, code ≠ .callback .connect guarded) ∧ code ≠ .badFunctionCall ∧
      code ≠ .closeCb)
    (hc : ∀ code ∈ codes, code ≠ .closeCb ∧ ∀ guarded, code ≠ .callback .connect guarded)
    (hcs : ∀ code ∈ codes.tail, ¬code.isCallback)
    (hm : ∀ guarded, codes.head? = some (.callback .message guarded) → cfg.message → c.closes = 0) :
    Tells cfg c' (codes ++ rest) := by
  have hrest : ∀ code ∈ rest, ¬code.isCallback := h.tops
  refine h.keep ?_ (congrArg (List.filter _) ht) (congrArg (List.count _) ht) (fun code hm => ?_)
    (fun guarded hm' => ?_) ?_ fun guarded hm => ?_
  · simp [Ordinary, hcode]
  · cases codes
    case nil => exact hrest code (List.mem_of_mem_tail hm)
    case cons =>
      cases List.mem_append.mp hm
      case inl hm => exact hcs code hm
      case inr hm => exact hrest code hm
  · cases codes
    case nil  => exact absurd rfl (hrest _ (List.mem_of_head? hm'))
    case cons => exact hm guarded hm'
  · rw [ht, List.count_append, List.count_eq_zero.mpr fun hm => (hc _ hm).left rfl, List.count_cons]
    simp [hcode.right.right]
  · cases codes
    case nil  => exact absurd rfl (hrest _ (List.mem_of_head? hm))
    case cons => exact (hc _ (List.mem_of_head? hm)).right guarded rfl

theorem handleClose {forced : Bool} (h : Tells cfg c (.handleClose forced :: rest))
    (hz : c.closes = 0) :
    Tells cfg ({ c with toTcpConnection := c.handleClose }.log .handleClose)
      (.callback .connect true :: .closeCb :: rest) where
  tops     := by
    intro code hm
    cases hm
    case head    => exact Bool.false_ne_true
    case tail hm => exact h.tops code hm
  message  := by simp
  closings := by
    have hc := h.closings
    rw [hz] at hc
    simp_all [closes, log]
  notices  := by
    cases h.notices
    case opened hcfg ho hms _ _ =>
      refine .closing hcfg (.trans ?_ ho) hms ?_
      · simp [Connection.notices, log, Event.isNotice]
      · simp_all [closes, log]
    case closed hz' _ => cases hz.symm.trans hz'

theorem callback {cb : Callback} {guarded : Bool} (h : Tells cfg c (.callback cb guarded :: rest))
    (hcb : cfg.has cb) (hd : 0 < c.closes → c.state = .disconnected) :
    Tells cfg (c.log (.callback cb c.state)) (.user :: rest) := by
  have hc : (c.log (.callback cb c.state)).closes = c.closes := by simp [closes, log]
  have hcl : (c.log (.callback cb c.state)).trace.count .closeCb +
      (Code.user :: rest).count .closeCb =
      (c.log (.callback cb c.state)).closes := by
    rw [hc, ← h.closings]
    simp [log]
  have hn : cb ≠ .error → (c.log (.callback cb c.state)).notices =
      c.notices ++ [.callback cb c.state] := by
    intro hcb
    cases cb <;> simp_all [Connection.notices, log, Event.isNotice]
  refine ⟨h.tops, by simp, hcl, ?_⟩
  cases cb
  case connect =>
    have hn := hn (by simp)
    cases h.notices
    case opened ho             => exact absurd rfl (ho guarded)
    case closed ho             => exact absurd rfl (ho guarded)
    case connect hs hz hst =>
      exact .opened hcb (by rw [hn, hs, hst]; rfl) (by simp) (hc.trans hz) (by simp)
    case closing hcfg ho hms hz =>
      refine .closed hcfg ?_ hms (hc.trans hz) (by simp)
      rw [hn, ho, hd (hz ▸ Nat.one_pos)]
  case message =>
    have hn := hn (by simp)
    have hz := h.message guarded rfl hcb
    cases h.notices
    case closed hz' _ => cases hz.symm.trans hz'
    case opened ms hcfg ho hms _ _ =>
      have ho : (c.log (.callback .message c.state)).notices =
          .callback .connect .connected :: (ms ++ [.callback .message c.state]) := by
        rw [hn, ho]
        rfl
      refine .opened hcfg ho (fun e hm => ?_) (hc.trans hz) (by simp)
      cases List.mem_append.mp hm
      case inl hm => exact hms e hm
      case inr hm => exact ⟨c.state, List.mem_singleton.mp hm⟩
  case error =>
    have hn : (c.log (.callback .error c.state)).notices = c.notices := by
      simp [Connection.notices, log, Event.isNotice]
    cases h.notices
    case opened hcfg ho hms hz _ => exact .opened hcfg (hn.trans ho) hms (hc.trans hz) (by simp)
    case closed hcfg ho hms hz _ => exact .closed hcfg (hn.trans ho) hms (hc.trans hz) (by simp)

theorem exec (h : Tells cfg c (code :: rest)) (hr : Runs cfg base t c code answer c' codes)
    (hf : code.Fits c) (hd : 0 < c.closes → c.state = .disconnected)
    (hz : ∀ forced, code = .handleClose forced → c.closes = 0)
    (hm : code.notifies cfg answer → c.closes = 0) : Tells cfg c' (codes ++ rest) := by
  cases hr
  case handleClose forced      => exact h.handleClose (hz forced rfl)
  case callback hcb            => exact h.callback hcb hd
  case connectComplete         => contradiction
  case destroyConnected hst    => exact nomatch hst.symm.trans hf
  case closeCb =>
    have hcodes : ∀ code ∈ [doTaskInThread base t .removeConnectionInLoop],
        ¬code.isCallback ∧ code ≠ .closeCb := by
      by_cases ht : t = base <;> simp [doTaskInThread, ht, Code.isCallback]
    have hcl := hcodes _ List.mem_cons_self
    refine h.keep (by simp [Ordinary]) (by simp [Connection.notices, log, Event.isNotice])
      (by simp [closes, log]) h.tops (fun guarded hm => ?_) ?_ fun guarded hm => ?_
    · exact absurd (Option.some.inj hm ▸ rfl) hcl.left
    · simp [log, hcl.right]
      omega
    · exact absurd (Option.some.inj hm ▸ rfl) hcl.left
  case noCallback cb hcb =>
    cases cb
    case connect =>
      cases h.notices
      case opened ho         => exact absurd rfl (ho true)
      case closed ho         => exact absurd rfl (ho true)
      case closing hcfg _ _ _ => exact absurd hcfg hcb
    all_goals exact h.quiet rfl (by simp) (by simp) (by simp) (by simp)
  case badFunctionCall cb hcb =>
    cases cb
    case connect =>
      cases h.notices
      case opened ho        => exact absurd rfl (ho false)
      case closed ho        => exact absurd rfl (ho false)
      case connect hn _ _   => exact ⟨by simp, by simp, by simpa using h.closings, .bad hn⟩
    all_goals exact h.quiet rfl (by simp) (by simp) (by simp) (by simp)
  case handleRead r hr =>
    refine h.quiet rfl (by simp) (by simp) (by simp) fun guarded _ hcfg => hm ?_
    simp [Code.notifies, hcfg, hr]
  case sendInLoop =>
    refine h.quiet rfl (by simp) ?_ ?_ ?_
    all_goals split <;> simp
  case handleWrite =>
    refine h.quiet rfl (by simp) ?_ ?_ ?_
    all_goals split <;> [split; skip] <;> simp [Code.isCallback]
  case handleError => exact h.quiet rfl (by simp) (by simp) (by simp) (by simp)
  all_goals exact h.quiet rfl (by simp) (by simp) (by simp [Code.isCallback]) (by simp)

end Tells
structure Told (cfg : Callbacks) (own base : θ) (s : State θ) : Prop where
  single : Single own base s
  closed : Closed own base s
  tells  : Tells cfg s.conn (s.stack own)

namespace Told

theorem disconnected (h : Told cfg own base s) (hc : 0 < s.conn.closes) :
    s.conn.state = .disconnected :=
  h.closed.sound.state.mpr hc

theorem closes_eq_zero (h : Told cfg own base s) (hs : s.conn.state ≠ .disconnected) :
    s.conn.closes = 0 :=
  Nat.eq_zero_of_not_pos fun hc => hs (h.disconnected hc)

theorem keepsClosed (h : Told cfg own base s) (hh : s.Heeds cfg act) : s.KeepsClosed act := by
  cases act
  case exec t answer =>
    intro hs code hm hu
    have hm' : code ∈ s.stack t := List.mem_of_head? hm
    cases code
    case handleClose forced =>
      cases forced
      case false => exact hh hs _ hm rfl
      case true  => contradiction
    case store state =>
      cases state
      case disconnecting =>
        by_cases ht : t = own
        case neg =>
          have ⟨hc, _⟩ := (h.single.after.code t _ hm').left ht
          contradiction
        case pos =>
          subst ht
          have hd := h.single.doing
          cases hst : s.stack t
          case nil => simp [hst] at hm
          case cons code rest =>
            obtain rfl : code = .store .disconnecting := by simpa [hst] using hm
            rw [hst] at hd
            cases hd
            case rest hl  => exact hl _ List.mem_cons_self
            case store hn _ _ => exact hn hs
      all_goals contradiction
    all_goals contradiction
  all_goals trivial

theorem step_tells (h : Told cfg own base s) (hk : s.OnLoop own act) (hh : s.Heeds cfg act)
    (e : Step cfg own base s act s') : Tells cfg s'.conn (s'.stack own) := by
  have ht := h.tells
  have hpop : ∀ {code rest} codes, s.stack own = code :: rest → ¬code.isCallback → code ≠ .closeCb →
      code ≠ .badFunctionCall → (∀ code ∈ codes, ¬code.isCallback ∧ code ≠ .closeCb) →
        Tells cfg s.conn (codes ++ rest) := by
    intro code rest codes hs hc hcb hb hcodes
    refine (hs ▸ ht).quiet rfl ⟨fun _ he => hc (he ▸ rfl), hb, hcb⟩ (fun code hm => ?_)
      (fun code hm => (hcodes code (List.mem_of_mem_tail hm)).left) fun _ hm => ?_
    · exact ⟨(hcodes code hm).right, fun _ he => (hcodes code hm).left (he ▸ rfl)⟩
    · exact absurd rfl (hcodes _ (List.mem_of_head? hm)).left
  by_cases hto : act.thread = own
  case neg => rw [h.single.step_conn hk e hto, (step_of_thread_ne hto e).left]; exact ht
  case pos =>
    cases e <;> dsimp only [Act.thread] at hto <;> subst hto
    case call t api _ hc =>
      simpa [State.resume] using ht.call hc (call_cases t t s.conn api)
    case exec t code rest answer r hs hr =>
      have hr := run_cases hr
      obtain ⟨_, hf, _⟩ := h.single.exec hs hr
      have hm : code.notifies cfg answer → s.conn.closes = 0 :=
        fun hn => h.closes_eq_zero fun hst => hh hst code (by simp [hs]) hn
      have hz : ∀ forced, code = .handleClose forced → s.conn.closes = 0 := by
        rintro forced rfl
        cases forced
        case false => exact hm rfl
        case true  => exact h.closes_eq_zero (h.closed.forced rest hs)
      simpa [State.resume] using (hs ▸ ht).exec hr hf h.disconnected hz hm
    case queue t f rest hs =>
      simpa [State.resume] using hpop [] hs
        (by simp [Code.isCallback]) (by simp) (by simp) (by simp)
    case remove t rest hs =>
      have hc : ∀ code ∈ (if s.mapped then [.queue .destroyConnection] else [] : List (Code θ)),
          ¬code.isCallback ∧ code ≠ .closeCb := by
        split <;> simp [Code.isCallback]
      simpa [State.resume] using hpop _ hs (by simp [Code.isCallback]) (by simp) (by simp) hc
    case dispatch t revents hp hs =>
      have hc : ∀ code ∈ (handleChannel revents : List (Code θ)), ¬code.isCallback ∧
          code ≠ .closeCb := by
        intro code hm
        obtain rfl | rfl | rfl | rfl := mem_handleChannel hm <;> simp [Code.isCallback]
      simpa [State.resume, hs] using ht.push _ (.inl hs) rfl hc
    case task t f tasks hp hs hq =>
      simpa [State.resume, hs] using ht.push [.task f] (.inl hs) rfl (by simp [Code.isCallback])
    case poll | swap | finish => exact ht

theorem step (h : Told cfg own base s) (hk : s.OnLoop own act) (hh : s.Heeds cfg act)
    (e : Step cfg own base s act s') : Told cfg own base s' where
  single := h.single.step hk e
  closed := h.closed.step (h.keepsClosed hh) e
  tells  := h.step_tells hk hh e

theorem wellFormed (h : Told cfg own base s) : WellFormed s.conn.trace where
  closings := by
    have hc := h.tells.closings
    have ho := h.closed.sound.once
    omega
  notices  := by
    have hn := h.tells.notices
    generalize s.stack own = l at hn
    cases hn
    case connect hn _ _ | bad hn =>
      exact ⟨[], by simp, by rw [← notices, hn]; exact List.nil_prefix⟩
    case opened ms _ ho hms _ _ | closing ms _ _ ho hms _ =>
      refine ⟨ms, hms, ?_⟩
      rw [← Connection.notices, ho]
      exact List.prefix_append ..
    case closed ms _ ho hms _ _ =>
      refine ⟨ms, hms, ?_⟩
      rw [← Connection.notices, ho]

end Told

theorem not_wellFormed (messages : List Event) {trace : List Event} {e : Event}
    (h : trace.filter Event.isNotice =
      .callback .connect .connected :: messages ++ [.callback .connect .disconnected])
    (he : e.isNotice) :
    ¬WellFormed (trace ++ [e]) := by
  rintro ⟨⟨ms, hms, hp⟩, _⟩
  have hd : .callback .connect .disconnected ∈ .callback .connect .connected :: ms := by
    rw [List.filter_append, h, List.filter_singleton, he] at hp
    cases List.prefix_concat_iff.mp hp
    case inl hp =>
      exact (List.append_inj' hp rfl).left ▸ List.mem_append_right _ (List.mem_singleton_self _)
    case inr hp => exact hp.subset (by simp)
  cases hd
  case tail hd =>
    have ⟨_, he⟩ := hms _ hd
    cases he

theorem Initial.told (h : Initial own s) : Told cfg own base s where
  single := h.single
  closed := h.closed
  tells  := by
    have ⟨initSize, fd, hc⟩ := h.conn
    rw [h.stack, hc, Function.update_self]
    exact ⟨by simp, by simp, rfl, .connect rfl rfl rfl⟩

namespace Told

theorem broken (h : Told cfg own base s) (hh : ¬s.Heeds cfg act) (e : Step cfg own base s act s') :
    ∃ cb guarded rest r, s'.stack own = .callback cb guarded :: rest ∧
      s'.conn.run cfg base own (.callback cb guarded) .none = some r ∧ ¬WellFormed r.1.trace := by
  cases act
  case exec t answer =>
    simp only [State.Heeds, Classical.not_imp, not_forall, not_not] at hh
    obtain ⟨hst, code, hm, hn⟩ := hh
    have hz : s.conn.closes ≠ 0 := Nat.ne_of_gt (h.closed.sound.state.mp hst)
    obtain ⟨rest, hs⟩ : ∃ rest, s.stack t = code :: rest := by
      cases hs : s.stack t <;> simp_all
    have hmem : code ∈ s.stack t := hs ▸ List.mem_cons_self
    have hh := h.single.placed.home.code t code hmem
    obtain rfl : t = own := by
      cases code <;> first | exact hh | contradiction
    have ht := (hs ▸ h.tells).notices
    obtain ⟨ms, hcfg, ho⟩ : ∃ ms, cfg.connect ∧ s.conn.notices =
        .callback .connect .connected :: ms ++ [.callback .connect .disconnected] := by
      cases ht
      case closed ms hcfg ho _ _ _ => exact ⟨ms, hcfg, ho⟩
      case opened hz' _            => exact absurd hz' hz
      all_goals contradiction
    -- The next step, for the callback `cb`.
    have hnext : ∀ cb rest, s'.stack t = .callback cb true :: rest →
        s'.conn.notices = s.conn.notices →
        cfg.has cb → (Event.callback cb s'.conn.state).isNotice →
          ∃ cb guarded rest r, s'.stack t = .callback cb guarded :: rest ∧
            s'.conn.run cfg base t (.callback cb guarded) .none = some r ∧
            ¬WellFormed r.1.trace := by
      intro cb rest hs' hn hcb he
      refine ⟨cb, true, rest, (s'.conn.log (.callback cb s'.conn.state), [.user]), hs', ?_,
        not_wellFormed ms (hn.trans ho) he⟩
      simp [run, hcb]
    cases e
    case exec code' rest' r hs' hr =>
      obtain ⟨rfl, rfl⟩ := List.cons.inj (hs.symm.trans hs')
      have hr := run_cases hr
      obtain ⟨c', codes⟩ := r
      cases code
      case handleClose =>
        cases hr
        refine hnext .connect (.closeCb :: rest) (by simp [State.resume]) ?_ hcfg rfl
        simp [State.resume, notices, Event.isNotice]
      case handleRead =>
        cases hr
        case handleRead r _ =>
          have hcb : cfg.message ∧ 0 < r.ret := by simpa [Code.notifies] using hn
          exact hnext .message rest (by simp [State.resume]) rfl hcb.left rfl
        case handleEnd r hr | handleReadError r hr =>
          have hcb : cfg.message ∧ 0 < r.ret := by simpa [Code.notifies] using hn
          omega
      all_goals contradiction
    case queue hs' | remove hs' =>
      obtain ⟨rfl, rfl⟩ := List.cons.inj (hs.symm.trans hs')
      contradiction
  all_goals exact absurd trivial hh

end Told
end Bounce.Connection
