import Mathlib.Data.Fintype.Basic
import Bounce.Execution.Connection.Theorems.Stream

namespace Bounce.Connection

variable {θ : Type} [DecidableEq θ] {cfg : Callbacks} {own base t t' : θ} {s s' s₀ : State θ}
variable {act : Act θ} {c c' : Connection θ} {code : Code θ} {codes rest : List (Code θ)}
variable {answer : Answer} {api : Api}

def Code.undisturbed : Code θ → Answer → Bool
  | .task (.sendInLoop message _), .sent r =>
    0 < r.ret ∨ r.ret = message.length ∨ r.errno = .EWOULDBLOCK
  | _, .read r => r.ret ≠ 0
  | _, _       => true

omit [DecidableEq θ] in
theorem Code.undisturbed_read {r : Readv} : code.undisturbed (.read r) = decide (r.ret ≠ 0) := by
  rw [undisturbed.eq_def]
  split <;> simp_all

def State.undisturbed (s : State θ) : Act θ → Bool
  | .call _ .forceClose => false
  | .poll _ ready       => ready.all fun revents => !(revents &&& Events.POLLHUP).any
  | .exec t answer      => (s.stack t).head?.all (·.undisturbed answer)
  | _                   => true

-- When the stream is about to be closed, no message of another thread waits to be run: of no thread
-- at the end of `handleWrite`, and of none but the caller in `shutdownInLoop`.
def Code.Drains (own : θ) (c : Connection θ) : Code θ → Prop
  | .checkState => c.state = .disconnecting → ¬c.channel.isWriting →
    ∀ t, t ≠ own → ranBy c t = acceptedBy c t
  | .task (.shutdownInLoop origin) => ¬c.channel.isWriting →
    ∀ t, t ≠ own → t ≠ origin → ranBy c t = acceptedBy c t
  | _ => True

def State.Drains (own : θ) (s : State θ) : Act θ → Prop
  | .exec t _ => ∀ code ∈ (s.stack t).head?, code.Drains own s.conn
  | _         => True

structure AllSent (c : Connection θ) : Prop where
  run  : ∀ t, ranBy c t = acceptedBy c t
  wire : c.socket.wire = c.ran.flatMap (·.message)

def Task.Open : Task θ → Prop
  | .sendInLoop _ _ | .shutdownInLoop _ | .writeComplete => True
  | _                                                    => False

def Code.Open : Code θ → Prop
  | .task f | .queue f                        => f.Open
  | .store state                              => state = .disconnecting
  | .handleClose _ | .closeCb | .removeChannel => False
  | _                                         => True

structure Flowing (c : Connection θ) : Prop where
  streams  : c.Streaming
  state    : c.state ≠ .disconnected
  kept     : ∀ x ∈ c.ran, x.fate ≠ .dropped
  watchful : c.Watchful

theorem Runs.flowing (hr : Runs cfg base t c code answer c' codes) (h : c.Flowing) (ho : code.Open)
    (hn : ∀ message origin r, code = .task (.sendInLoop message origin) → answer = .sent r →
      0 < r.ret ∨ r.ret = message.length ∨ r.errno = .EWOULDBLOCK) : c'.Flowing where
  streams  := hr.streaming h.streams
  state    := by
    cases hr
    case connectComplete => simp [TcpConnection.connectComplete]
    case sendInLoop      => exact TcpConnection.sendInLoop_state.trans_ne h.state
    case handleWrite     => exact TcpConnection.handleWrite_state.trans_ne h.state
    case shutdownInLoop | checkDisconnecting =>
      exact TcpConnection.shutdownInLoop_state.trans_ne h.state
    case store           => exact fun he => nomatch ho.symm.trans he
    case handleClose     => contradiction
    all_goals exact h.state
  kept     := by
    cases hr
    case sendInLoop message origin r _ =>
      intro x hx
      cases List.mem_append.mp hx
      case inl hx => exact h.kept x hx
      case inr hx =>
        obtain rfl := List.mem_singleton.mp hx
        exact TcpConnection.sendInLoop_not_dropped h.state (hn message origin r rfl rfl)
    all_goals exact h.kept
  watchful := by
    cases hr
    case sendInLoop  => exact TcpConnection.sendInLoop_watchful h.watchful
    case handleWrite => exact TcpConnection.handleWrite_watchful h.streams.valid h.watchful
    case shutdownInLoop | checkDisconnecting =>
      have hc : c.shutdownInLoop.Watchful := by
        rw [TcpConnection.shutdownInLoop]
        split <;> exact h.watchful
      exact hc
    case handleClose | connectComplete | removeChannel => contradiction
    all_goals exact h.watchful

theorem Calls.flowing (hc : Calls own t c api c' codes) (h : c.Flowing) : c'.Flowing := by
  cases hc <;> exact ⟨⟨h.streams.valid, h.streams.bytes⟩, h.state, h.kept, h.watchful⟩

theorem Calls.frame (hc : Calls own t c api c' codes) :
    c'.state = c.state ∧ c'.socket = c.socket ∧ c'.outputBuffer = c.outputBuffer := by
  cases hc <;> exact ⟨rfl, rfl, rfl⟩

theorem Runs.stays_open (hr : Runs cfg base t c code answer c' codes) (ho : code.Open)
    (hn : ∀ r, answer = .read r → r.ret ≠ 0) : ∀ code ∈ codes, code.Open := by
  intro code' hm
  cases hr.leaves code' hm
  case hangUp hz => exact absurd hz (hn _ rfl)
  all_goals trivial

theorem Calls.stays_open (hc : Calls own t c api c' codes) (hn : api ≠ .forceClose) :
    ∀ code ∈ codes, code.Open := by
  intro code hm
  cases hc.puts code hm
  case forceClose | pushForceClose => contradiction
  all_goals trivial

def ShutsDown (c : Connection θ) (code : Code θ) : Prop :=
  (∃ origin, code = .task (.shutdownInLoop origin)) ∨
  (code = .checkState ∧ c.state = .disconnecting)

theorem Runs.shutWr (hr : Runs cfg base t c code answer c' codes) (ho : code.Open) :
    c'.socket.shutWr = c.socket.shutWr ∨
      (¬c.channel.isWriting ∧ c' = { c with socket := c.socket.shutdownWrite } ∧
        ShutsDown c code) := by
  cases hr
  case sendInLoop  => exact .inl TcpConnection.sendInLoop_shutWr
  case handleWrite => exact .inl TcpConnection.handleWrite_shutWr
  case shutdownInLoop origin =>
    by_cases hw : c.channel.isWriting
    case pos => exact .inl (by simp [TcpConnection.shutdownInLoop, hw])
    case neg => exact .inr ⟨hw, by simp [TcpConnection.shutdownInLoop, hw], .inl ⟨origin, rfl⟩⟩
  case checkDisconnecting hs =>
    by_cases hw : c.channel.isWriting
    case pos => exact .inl (by simp [TcpConnection.shutdownInLoop, hw])
    case neg => exact .inr ⟨hw, by simp [TcpConnection.shutdownInLoop, hw], .inr ⟨rfl, hs⟩⟩
  case connectComplete | handleClose => contradiction
  all_goals exact .inl rfl

theorem Runs.connected (hr : Runs cfg base t c code answer c' codes) (ho : code.Open)
    (hs : c'.state = .connected) : c.state = .connected ∧ code ≠ .store .disconnecting := by
  cases hr
  case sendInLoop  => exact ⟨TcpConnection.sendInLoop_state.symm.trans hs, by simp⟩
  case handleWrite => exact ⟨TcpConnection.handleWrite_state.symm.trans hs, by simp⟩
  case shutdownInLoop | checkDisconnecting =>
    exact ⟨TcpConnection.shutdownInLoop_state.symm.trans hs, by simp⟩
  case store                         => exact absurd (ho.symm.trans hs) (by simp)
  case connectComplete | handleClose => contradiction
  all_goals exact ⟨hs, by simp⟩

theorem Runs.drained (hr : Runs cfg base t c code answer c' codes) (hv : c.outputBuffer.Valid)
    (hc : c.outputBuffer.content = [])
    (hn : ∀ message origin, code ≠ .task (.sendInLoop message origin)) :
    c'.outputBuffer.content = [] := by
  cases hr
  case sendInLoop message origin _ _ => exact absurd rfl (hn message origin)
  case handleWrite => exact TcpConnection.handleWrite_drained hv hc
  case shutdownInLoop | checkDisconnecting =>
    have hd : c.shutdownInLoop.outputBuffer = c.outputBuffer := by
      rw [TcpConnection.shutdownInLoop]
      split <;> rfl
    exact (congrArg Buffer.content hd).trans hc
  all_goals exact hc

-- While the state is `connected`, no shutdown is queued, and none is about to be queued or to be
-- run without the store in front of it.
structure Stored (own : θ) (s : State θ) : Prop where
  queue : s.conn.state = .connected → ∀ f ∈ (s.queue own).pending, ¬f.isShutdown
  stack : s.conn.state = .connected → ∀ t code rest, s.stack t = code :: rest → ¬code.isShutdown

structure Graceful (own base : θ) (s : State θ) : Prop where
  ordered : Ordered own base s
  flowing : s.conn.Flowing
  opened  : Everywhere (fun _ code => code.Open) (fun _ f => f.Open) s
  events  : ∀ t revents, s.phase t = .dispatch (some revents) → ¬(revents &&& Events.POLLHUP).any
  stored  : Stored own s
  -- The messages that a thread has sent come before its shutdown.
  before  : ∀ t, (waiting own s t).Pairwise fun a b => a = .shutdown → ∀ message, b ≠ .send message
  closed  : s.conn.socket.shutWr → s.conn.state ≠ .connected ∧ s.conn.outputBuffer.content = [] ∧
    ∀ t, messages (waiting own s t) = []

namespace Stored

theorem resume {r : Connection θ × List (Code θ)} (h : Stored own s)
    (hs : r.1.state = .connected → s.conn.state = .connected)
    (hr : r.1.state = .connected → ∀ code ∈ (r.2 ++ rest).head?, ¬code.isShutdown) :
    Stored own (s.resume t r rest) where
  queue hc := h.queue (hs hc)
  stack hc t' code rest' hst := by
    by_cases ht : t' = t
    case pos =>
      have hst : r.2 ++ rest = code :: rest' := by simpa [State.resume, ht] using hst
      exact hr hc code (by simp [hst])
    case neg => exact h.stack (hs hc) t' code rest' (by simpa [State.resume, ht] using hst)

theorem setQueue {q : TaskQueue (Task θ)} (h : Stored own s)
    (hq : s.conn.state = .connected → t = own → ∀ f ∈ q.pending, ¬f.isShutdown) :
    Stored own (s.setQueue t q) where
  queue hc f hf := by
    by_cases ht : t = own
    case pos =>
      subst ht
      exact hq hc rfl f (by simpa [State.setQueue] using hf)
    case neg => exact h.queue hc f (by simpa [State.setQueue, Ne.symm ht] using hf)
  stack := h.stack

end Stored

theorem Calls.head (hc : Calls own t c api c' codes) (hr : ∀ code ∈ rest, ¬code.isShutdown) :
    c'.state = c.state ∧ ∀ code ∈ (codes ++ rest).head?, ¬code.isShutdown := by
  have hh : ∀ code ∈ rest.head?, ¬code.isShutdown :=
    fun code hm => hr code (List.mem_of_mem_head? hm)
  cases hc
  case send => by_cases ht : t = own <;> simp [doTaskInThread, ht, Code.isShutdown, Task.isShutdown]
  case shutdown | forceClose => simp [Code.isShutdown]
  all_goals exact ⟨rfl, hh⟩

namespace Graceful

theorem pending_shutdown {f : Task θ} (h : Graceful own base s) (hc : s.conn.state = .connected)
    (hm : f ∈ (s.queue t).pending) : ¬f.isShutdown := by
  cases f
  case shutdownInLoop origin =>
    have hh : t = own ∧ origin ≠ own := h.ordered.placed.home.task t (.shutdownInLoop origin) hm
    exact h.stored.queue hc _ (hh.left ▸ hm)
  all_goals simp [Task.isShutdown]

theorem step_stored (h : Graceful own base s) (e : Step cfg own base s act s') : Stored own s' := by
  have hst := h.stored
  cases e
  case call t api _ hc =>
    have ⟨hs, hh⟩ := (call_cases own t s.conn api).head (h.ordered.tidy.callable hc)
    exact hst.resume (hs ▸ id) fun _ => hh
  case exec t code rest answer r hs hr =>
    have hr := run_cases hr
    have ho := h.opened.code t code (hs ▸ List.mem_cons_self)
    refine hst.resume (fun hc => (hr.connected ho hc).left) fun hc code' hm => ?_
    cases List.mem_append.mp (List.mem_of_mem_head? hm)
    case inl hm => exact hr.not_shutdown code' hm
    case inr hm => exact h.ordered.tidy.rest hs (hr.connected ho hc).right code' hm
  case queue t f rest hs =>
    refine Stored.resume (s := s.setQueue _ _) (hst.setQueue fun hc _ f' hf => ?_) id
      fun _ code hm => ?_
    · rw [TaskQueue.push_pending, List.mem_append, List.mem_singleton] at hf
      cases hf
      case inl hf => exact h.pending_shutdown hc hf
      case inr hf =>
        subst hf
        exact hst.stack hc t _ rest hs
    · exact h.ordered.tidy.rest hs (by simp) code (List.mem_of_mem_head? hm)
  case remove t rest hs =>
    have ho := h.opened.code t (.task .removeConnectionInLoop) (hs ▸ List.mem_cons_self)
    contradiction
  case dispatch t revents _ hs =>
    refine Stored.resume (s := s.setPhase _ _) ⟨hst.queue, hst.stack⟩ id fun _ code hm => ?_
    rw [List.append_nil] at hm
    obtain rfl | rfl | rfl | rfl := mem_handleChannel (List.mem_of_mem_head? hm) <;>
      simp [Code.isShutdown]
  case task t f tasks _ hs ht =>
    have hf : f ∈ (s.queue t).pending := by simp [TaskQueue.pending, ht]
    refine Stored.resume (s := s.setQueue _ _) (hst.setQueue fun hc _ f' hf' => ?_) id
      fun hc code hm => ?_
    · refine h.pending_shutdown hc (t := t) ?_
      rw [TaskQueue.pending, ht]
      exact .tail _ hf'
    · obtain rfl : Code.task f = code := by simpa using hm
      exact h.pending_shutdown hc hf
  case swap t hp _ =>
    refine Stored.setQueue (s := s.setPhase _ _) ⟨hst.queue, hst.stack⟩ fun hc _ f hf => ?_
    rw [TaskQueue.swap_pending (h.ordered.batch t (by simp [hp]))] at hf
    exact h.pending_shutdown hc hf
  case poll | finish => exact ⟨hst.queue, hst.stack⟩

theorem not_shutdown_waiting (h : Graceful own base s) (hc : s.conn.state = .connected)
    (hk : s.Callable t) : .shutdown ∉ waiting own s t := by
  have hq : ∀ {f : Task θ}, f.callBy t = some .shutdown → f.isShutdown := by
    intro f hf
    cases f <;> simp [Task.callBy] at hf
    simp [Task.isShutdown]
  intro hm
  rw [waiting, List.mem_append, List.mem_append, List.mem_filterMap, List.mem_filterMap,
    List.mem_filterMap] at hm
  obtain (⟨code, hm, hf⟩ | ⟨f, hm, hf⟩) | ⟨code, hm, hf⟩ := hm
  · cases code
    case task f =>
      cases hst : s.stack own
      case nil => simp [hst] at hm
      case cons code' rest =>
        -- The task of another thread is on top of the stack, where no shutdown is.
        by_cases ht : t = own
        case pos => exact h.ordered.tidy.callable (ht ▸ hk) (.task f) hm (hq hf)
        case neg =>
          rw [hst] at hm
          cases hm
          case head    => exact h.stored.stack hc own _ rest hst (hq hf)
          case tail hm =>
            refine h.ordered.topped own (.task f) (by rwa [hst]) ?_
            cases f <;> simp [Task.callBy] at hf
            exact hf ▸ ht
    all_goals contradiction
  · exact h.pending_shutdown hc hm (hq hf)
  · cases code
    case queue f => exact h.ordered.tidy.callable hk (.queue f) hm (hq hf)
    all_goals contradiction

theorem step_before (h : Graceful own base s) (e : Step cfg own base s act s') (t' : θ) :
    (waiting own s' t').Pairwise fun a b => a = .shutdown → ∀ message, b ≠ .send message := by
  have hb := h.before t'
  obtain ⟨t, api, -, hk, -, hw⟩ | ⟨t, code, rest, answer, codes, -, -, -, hw⟩ | ⟨-, hw⟩ :=
    h.ordered.waiting_step e
  · rw [hw t']
    by_cases ht : t = t'
    case neg => simpa [ht] using hb
    case pos =>
      subst ht
      rw [if_pos rfl, List.pairwise_append]
      refine ⟨hb, ?_, ?_⟩
      · cases api <;> simp only [issued] <;> [split; split; skip; skip] <;> simp
      · intro a ha b hb' hs message he
        subst hs he
        have hc : s.conn.state = .connected := by
          cases api <;> simp [issued] at hb'
          exact hb'.left
        exact h.not_shutdown_waiting hc hk ha
  · rw [hw t'] at hb
    exact (List.pairwise_append.mp hb).right.left
  · rw [hw t']
    exact hb

theorem own_messages (h : Graceful own base s) (hs : s.stack own = code :: rest)
    (hc : ShutsDown s.conn code) : messages (waiting own s own) = [] := by
  have hn : code ≠ .store .disconnecting := by
    obtain ⟨_, rfl⟩ | ⟨rfl, _⟩ := hc <;> simp
  have hr : ∀ code' ∈ rest, ¬code'.isCall := by
    intro code' hm
    exact not_call_of_not_urgent (h.ordered.topped own code' (by rwa [hs]))
      (h.ordered.tidy.rest hs hn code' hm)
  have ⟨ht, hq⟩ := filterMap_callless own [] hr
  rw [List.append_nil] at ht hq
  rw [waiting, h.ordered.own_calls, hs, List.filterMap_cons, List.filterMap_cons, ht, hq]
  obtain ⟨origin, rfl⟩ | ⟨rfl, _⟩ := hc
  · by_cases ho : origin = own <;> simp [Task.callBy, ho, messages, Api.message?]
  · rfl

theorem origin_messages {origin : θ} (h : Graceful own base s)
    (hs : s.stack own = .task (.shutdownInLoop origin) :: rest) :
    messages (waiting own s origin) = [] := by
  have hb := h.before origin
  rw [waiting, hs, List.filterMap_cons] at hb ⊢
  have hc : (Task.shutdownInLoop origin).callBy origin = some .shutdown := if_pos rfl
  simp only [Code.taskBy_task, hc, List.cons_append, List.pairwise_cons, forall_true_left] at hb ⊢
  rw [messages, List.filterMap_cons_none rfl, List.filterMap_eq_nil_iff]
  intro call hm
  cases call
  case send message => exact absurd rfl (hb.left _ hm message)
  all_goals rfl

theorem delivered_iff (h : Graceful own base s) :
    ranBy s.conn t = acceptedBy s.conn t ↔ messages (waiting own s t) = [] := by
  rw [h.ordered.order t]
  exact List.self_eq_append_right

theorem drained (h : Graceful own base s) (hd : s.Drains own (.exec t answer))
    (hs : s.stack t = code :: rest) (ht : t = own) (hw : ¬s.conn.channel.isWriting)
    (hc : ShutsDown s.conn code) : ∀ t', messages (waiting own s t') = [] := by
  subst ht
  intro t'
  by_cases ho : t' = t
  case pos => exact ho ▸ h.own_messages hs hc
  case neg =>
    obtain ⟨origin, rfl⟩ | ⟨rfl, hst⟩ := hc
    · by_cases hor : t' = origin
      case pos => exact hor ▸ h.origin_messages hs
      case neg =>
        have hd := hd (.task (.shutdownInLoop origin)) (by simp [hs])
        exact h.delivered_iff.mp (hd hw t' ho hor)
    · have hd := hd .checkState (by simp [hs])
      exact h.delivered_iff.mp (hd hst hw t' ho)

omit [DecidableEq θ] in
theorem answered {message : Message} {origin : θ} {r : Bounce.Sent}
    (hu : s.undisturbed (.exec t answer))
    (hs : s.stack t = .task (.sendInLoop message origin) :: rest) (ha : answer = .sent r) :
    0 < r.ret ∨ r.ret = message.length ∨ r.errno = .EWOULDBLOCK := by
  subst ha
  simpa [State.undisturbed, hs, Code.undisturbed] using hu

theorem step_flowing (h : Graceful own base s) (hu : s.undisturbed act)
    (e : Step cfg own base s act s') : s'.conn.Flowing := by
  cases e
  case call => exact (call_cases ..).flowing h.flowing
  case exec t code rest answer r hs hr =>
    have ho := h.opened.code t code (hs ▸ List.mem_cons_self)
    refine (run_cases hr).flowing h.flowing ho fun message origin r hc ha => ?_
    subst hc
    exact answered hu hs ha
  all_goals exact h.flowing

theorem step_opened (h : Graceful own base s) (hu : s.undisturbed act)
    (e : Step cfg own base s act s') :
    Everywhere (fun _ code => code.Open) (fun _ f => f.Open) s' := by
  refine h.opened.step e ?_
  exact {
    code     := fun _ _ h => h
    task     := fun _ _ h => h
    call     := by
      rintro t api rfl
      exact (call_cases ..).stays_open fun ha => by simp [ha, State.undisturbed] at hu
    run      := by
      rintro t code rest answer r rfl - hs ho hr
      refine (run_cases hr).stays_open ho fun r ha => ?_
      simpa [ha, State.undisturbed, hs, Code.undisturbed_read] using hu
    queue    := fun _ _ _ _ h => h
    remove   := fun _ _ _ h => h
    dispatch := by
      intro t revents hp code hm
      have hn := h.events t revents hp
      have hc : code ≠ .handleClose false := by
        rintro rfl
        simp [handleChannel, hn] at hm
      obtain rfl | rfl | rfl | rfl := mem_handleChannel hm <;> simp_all [Code.Open]
    start    := fun _ _ h => h
  }

theorem step_events (h : Graceful own base s) (hu : s.undisturbed act)
    (e : Step cfg own base s act s') :
    ∀ t revents, s'.phase t = .dispatch (some revents) → ¬(revents &&& Events.POLLHUP).any := by
  intro t' revents hp
  cases e
  case call | exec | queue | remove | task => exact h.events t' revents hp
  case poll t ready _ _ _ =>
    cases setPhase_dispatch hp
    case inl hp =>
      obtain ⟨rfl, rfl⟩ := by simpa using hp
      simpa [State.undisturbed] using hu
    case inr hp => exact h.events t' revents hp
  case dispatch t _ _ _ =>
    have hp : (s.setPhase t (.dispatch none)).phase t' = .dispatch (some revents) := hp
    cases setPhase_dispatch hp
    case inl hp => simp at hp
    case inr hp => exact h.events t' revents hp
  case swap t _ _ =>
    have hp : (s.setPhase t .tasks).phase t' = .dispatch (some revents) := hp
    cases setPhase_dispatch hp
    case inl hp => simp at hp
    case inr hp => exact h.events t' revents hp
  case finish =>
    cases setPhase_dispatch hp
    case inl hp => simp at hp
    case inr hp => exact h.events t' revents hp

theorem exec_closed (h : Graceful own base s) (hs : s.stack t = code :: rest)
    (hr : Runs cfg base t s.conn code answer c' codes) (hst : s.conn.state ≠ .connected)
    (hc : s.conn.outputBuffer.content = []) (hm : ∀ t, messages (waiting own s t) = []) :
    c'.state ≠ .connected ∧ c'.outputBuffer.content = [] := by
  have ho := h.opened.code t code (hs ▸ List.mem_cons_self)
  refine ⟨fun he => hst (hr.connected ho he).left, hr.drained h.flowing.streams.valid hc ?_⟩
  rintro message origin rfl
  have hw := h.ordered.exec_waiting origin hs hr
  have hm := hm origin
  rw [hw, messages_append] at hm
  simp [Task.callBy, messages, Api.message?] at hm

theorem step_closed (h : Graceful own base s) (hd : s.Drains own act)
    (e : Step cfg own base s act s') :
    s'.conn.socket.shutWr → s'.conn.state ≠ .connected ∧ s'.conn.outputBuffer.content = [] ∧
      ∀ t, messages (waiting own s' t) = [] := by
  intro hsw
  obtain ⟨t, api, -, -, ⟨codes, hr, -⟩, hw⟩ |
      ⟨t, code, rest, answer, codes, rfl, hs, hr, hw⟩ | ⟨hc, hw⟩ :=
    h.ordered.waiting_step e
  · have hf := hr.frame
    have ⟨hst, hc, hm⟩ := h.closed (hf.right.left ▸ hsw)
    refine ⟨hf.left ▸ hst, hf.right.right ▸ hc, fun t' => ?_⟩
    rw [hw t', messages_append, hm t']
    split
    · cases api <;> simp [issued, hst, messages, Api.message?]
    · rfl
  · have hm : (∀ t', messages (waiting own s t') = []) →
        ∀ t', messages (waiting own s' t') = [] := by
      intro hm t'
      have hm := hm t'
      rw [hw t', messages_append, List.append_eq_nil_iff] at hm
      exact hm.right
    have ho := h.opened.code t code (hs ▸ List.mem_cons_self)
    obtain he | ⟨hn, he, hc⟩ := hr.shutWr ho
    · have ⟨hst, hb, hmw⟩ := h.closed (he ▸ hsw)
      obtain ⟨hst', hb'⟩ := h.exec_closed hs hr hst hb hmw
      exact ⟨hst', hb', hm hmw⟩
    · have hh := h.ordered.placed.home.code t code (hs ▸ List.mem_cons_self)
      have ht : t = own := by
        obtain ⟨_, rfl⟩ | ⟨rfl, _⟩ := hc <;> exact hh
      have hst : s.conn.state ≠ .connected := by
        obtain ⟨_, rfl⟩ | ⟨_, hst⟩ := hc
        · exact fun hst => h.stored.stack hst t _ rest hs rfl
        · simp [hst]
      rw [he]
      exact ⟨hst, not_not.mp fun hb => hn (h.flowing.watchful hb), hm (h.drained hd hs ht hn hc)⟩
  · rw [hc] at hsw ⊢
    simpa [hw] using h.closed hsw

theorem step (h : Graceful own base s) (hu : s.undisturbed act) (hd : s.Drains own act)
    (e : Step cfg own base s act s') : Graceful own base s' where
  ordered := h.ordered.step e
  flowing := h.step_flowing hu e
  opened  := h.step_opened hu e
  events  := h.step_events hu e
  stored  := h.step_stored e
  before  := h.step_before e
  closed  := h.step_closed hd e

theorem all_sent (h : Graceful own base s) (hs : s.conn.socket.shutWr) : s.conn.AllSent where
  run t := h.delivered_iff.mpr ((h.closed hs).right.right t)
  wire  := by
    have hb := h.flowing.streams.bytes
    have hk : s.conn.ran.filter (·.fate ≠ .dropped) = s.conn.ran := by
      rw [List.filter_eq_self]
      exact fun x hx => decide_eq_true (h.flowing.kept x hx)
    rwa [(h.closed hs).right.left, List.append_nil, keptBytes, hk] at hb

end Graceful

theorem exec_runs (e : Step cfg own base s (.exec t answer) s') (hs : s.stack t = code :: rest)
    (hc : ∀ f, code ≠ .queue f) (hr : code ≠ .task .removeConnectionInLoop) :
    ∃ codes, Runs cfg base t s.conn code answer s'.conn codes := by
  cases e
  case exec hs' hr' =>
    obtain ⟨rfl, -⟩ := List.cons.inj (hs.symm.trans hs')
    exact ⟨_, run_cases hr'⟩
  case queue hs'  => exact absurd (List.cons.inj (hs.symm.trans hs')).left (hc _)
  case remove hs' => exact absurd (List.cons.inj (hs.symm.trans hs')).left hr

theorem broken (hd : ¬s.Drains own act) (e : Step cfg own base s act s') :
    s'.conn.socket.shutWr ∧ ¬s'.conn.AllSent := by
  cases act
  case exec t answer =>
    simp only [State.Drains, not_forall, List.head?_eq_some_iff, Option.mem_def] at hd
    obtain ⟨code, ⟨rest, hs⟩, hd⟩ := hd
    have hw : ¬s.conn.channel.isWriting → s.conn.shutdownInLoop.socket.shutWr := by
      intro hw
      rw [TcpConnection.shutdownInLoop, if_pos hw]
      rfl
    cases code
    case checkState =>
      simp only [Code.Drains, Classical.not_imp, not_forall] at hd
      obtain ⟨hst, hn, t', -, hne⟩ := hd
      obtain ⟨codes, hr⟩ := exec_runs e hs (by simp) (by simp)
      obtain ⟨ha, hb⟩ := hr.history t'
      generalize s'.conn = c' at hr ha hb
      cases hr
      case checkState hst' => contradiction
      case checkDisconnecting =>
        exact ⟨hw hn, fun h => hne (by simpa [ha, hb, messages, Code.taskBy] using h.run t')⟩
    case task f =>
      cases f
      case shutdownInLoop origin =>
        simp only [Code.Drains, Classical.not_imp, not_forall] at hd
        obtain ⟨hn, t', -, ho, hne⟩ := hd
        obtain ⟨codes, hr⟩ := exec_runs e hs (by simp) (by simp)
        obtain ⟨ha, hb⟩ := hr.history t'
        generalize s'.conn = c' at hr ha hb
        cases hr
        refine ⟨hw hn, fun h => hne ?_⟩
        simpa [ha, hb, messages, Task.callBy, Ne.symm ho] using h.run t'
      all_goals simp [Code.Drains] at hd
    all_goals simp [Code.Drains] at hd
  all_goals simp [State.Drains] at hd

theorem Initial.graceful (h : Initial own s) : Graceful own base s where
  ordered := h.ordered
  flowing := by
    have hst := h.streaming
    have ⟨initSize, fd, hc⟩ := h.conn
    refine ⟨hst, ?_, ?_, fun hn => ?_⟩
    · simp [hc, TcpConnection.connectComplete]
    · simp [hc, new]
    · exact absurd (by rw [hc]; exact Buffer.new_content initSize) hn
  opened  := by
    constructor
    · intro t code hm
      rw [h.stack] at hm
      by_cases ht : t = own <;> simp_all [Code.Open]
    · simp [h.queue, TaskQueue.pending, TaskQueue.empty]
  events t r hp := absurd hp (h.phase t r)
  stored  := by
    constructor
    · simp [h.queue, TaskQueue.pending, TaskQueue.empty]
    · intro _ t code rest hs
      rw [h.stack] at hs
      by_cases ht : t = own <;> simp [ht] at hs
      simp [← hs.left, Code.isShutdown]
  before t := by simp [h.waiting_eq]
  closed hs := by
    have ⟨initSize, fd, hc⟩ := h.conn
    rw [hc] at hs
    contradiction

def State.Careful (own : θ) (s : State θ) (act : Act θ) : Prop :=
  s.undisturbed act ∧ s.Drains own act

instance [Fintype θ] {c : Connection θ} : ∀ code, Decidable (Code.Drains own c code)
  | .checkState => inferInstanceAs <| Decidable <| _ → _ → ∀ _, _ → _
  | .task (.shutdownInLoop _) => inferInstanceAs <| Decidable <| _ → ∀ _, _ → _ → _
  | .task .connectComplete | .task (.sendInLoop _ _) | .task .forceCloseInLoop
  | .task .writeComplete
  | .task .removeConnectionInLoop | .task .destroyConnection | .queue _ | .store _ | .handleClose _
  | .handleError | .handleRead | .handleWrite | .callback _ _ | .closeCb | .removeChannel | .user
  | .badFunctionCall => .isTrue trivial

instance [Fintype θ] : ∀ act, Decidable (s.Drains own act)
  | .exec t _ => inferInstanceAs <| Decidable <| ∀ code ∈ (s.stack t).head?, code.Drains own s.conn
  | .call _ _ | .poll _ _ | .dispatch _ | .swap _ | .task _ | .finish _ => .isTrue trivial

instance [Fintype θ] : Decidable (s.Careful own act) :=
  inferInstanceAs <| Decidable <| _ ∧ _

theorem run_graceful {acts : List (Act θ)} (hi : Initial own s₀)
    (e : Steps (Steps.When (State.Careful own) (Step cfg own base)) s₀ acts s) :
    Graceful own base s := by
  have hp : ∀ {s₁ a s₂}, Graceful own base s₁ →
      Steps.When (State.Careful own) (Step cfg own base) s₁ a s₂ →
      Graceful own base s₂ := fun h e => h.step e.left.left e.left.right e.right
  exact e.invariant (P := Graceful own base) hp hi.graceful

theorem all_sent_of_drains (hi : Initial own s₀) :
    (∀ acts s, Steps (Steps.When (State.Careful own) (Step cfg own base)) s₀ acts s →
      s.conn.socket.shutWr → s.conn.AllSent) ∧
    (∀ acts s act s', Steps (Steps.When (State.Careful own) (Step cfg own base)) s₀ acts s →
      Step cfg own base s act s' → ¬s.Drains own act →
      s'.conn.socket.shutWr ∧ ¬s'.conn.AllSent) where
  left _ _ e hs := (run_graceful hi e).all_sent hs
  right _ _ _ _ _ e hd := broken hd e

-- The output buffer is emptied between the store of `shutdown` and the run of the message in front.
theorem lost_of_drain_first :
    ∃ s, Steps (Steps.When (fun s act => s.undisturbed act)
      (Step ⟨true, true, true, true⟩ false false))
      (State.new false 8 5 : State Bool)
      [.exec false .none, .call false (.send [1, 2]), .exec false (.sent ⟨-1, .EWOULDBLOCK⟩),
        .exec false .none, .swap false, .finish false, .poll false (some Events.POLLOUT),
        .call true (.send [7]), .exec true .none, .call true .shutdown, .exec true .none,
        .exec true .none, .dispatch false, .exec false (.sent ⟨2, .other⟩), .exec false .none,
        .exec false .none] s ∧
      s.conn.socket.shutWr ∧ s.conn.socket.wire = [1, 2] ∧ acceptedBy s.conn true = [[7]] ∧
      ranBy s.conn true = [] := by
  refine ⟨_, State.steps_of_guard ?_, ?_⟩
  all_goals decide +kernel

theorem all_sent_of_run_first :
    ∃ s, Steps (Steps.When (State.Careful false) (Step ⟨true, true, true, true⟩ false false))
      (State.new false 8 5 : State Bool)
      [.exec false .none, .call true (.send [7]), .exec true .none, .call true .shutdown,
        .exec true .none, .exec true .none, .exec false .none, .swap false, .task false,
        .exec false (.sent ⟨1, .other⟩), .exec false .none, .task false, .exec false .none] s ∧
      s.conn.socket.shutWr ∧ s.conn.AllSent := by
  have ⟨s, e, hs⟩ : ∃ s,
      Steps (Steps.When (State.Careful false) (Step ⟨true, true, true, true⟩ false false))
      (State.new false 8 5 : State Bool)
      [.exec false .none, .call true (.send [7]), .exec true .none, .call true .shutdown,
        .exec true .none, .exec true .none, .exec false .none, .swap false, .task false,
        .exec false (.sent ⟨1, .other⟩), .exec false .none, .task false, .exec false .none] s ∧
      s.conn.socket.shutWr := by
    refine ⟨_, State.steps_of_guard ?_, ?_⟩
    all_goals decide +kernel
  exact ⟨s, e, hs, (all_sent_of_drains State.new_initial).left _ s e hs⟩

end Bounce.Connection
