import Bounce.Execution.Connection.Theorems.Places
import Bounce.Objects.TcpConnection.Theorems

namespace Bounce.Connection

variable {θ : Type} [DecidableEq θ] {cfg : Callbacks} {own base t t' : θ} {s s' s₀ : State θ}
variable {act : Act θ} {c c' : Connection θ} {code : Code θ} {codes rest : List (Code θ)}
variable {answer : Answer} {api : Api}

def keptBytes (ran : List (Run θ)) : List Byte :=
  (ran.filter (·.fate ≠ .dropped)).flatMap (·.message)

def acceptedBy (c : Connection θ) (t : θ) : List Message :=
  (c.accepted.filter (·.1 = t)).map (·.2)

def ranBy (c : Connection θ) (t : θ) : List Message :=
  (c.ran.filter (·.origin = t)).map (·.message)

omit [DecidableEq θ] in
theorem keptBytes_append {ran : List (Run θ)} {x : Run θ} :
    keptBytes (ran ++ [x]) =
      if x.fate = .dropped then keptBytes ran else keptBytes ran ++ x.message := by
  by_cases hd : x.fate = .dropped <;> simp [keptBytes, hd]

def Streaming (c : Connection θ) : Prop :=
  c.toTcpConnection.Streams (keptBytes c.ran)

theorem Runs.streaming (hr : Runs cfg base t c code answer c' codes) (h : c.Streaming) :
    c'.Streaming := by
  cases hr
  case sendInLoop =>
    rw [Streaming, keptBytes_append]
    exact TcpConnection.sendInLoop_streams h
  case handleWrite => exact TcpConnection.handleWrite_streams h
  case shutdownInLoop | checkDisconnecting =>
    have hs : c.shutdownInLoop.Streams (keptBytes c.ran) := by
      rw [TcpConnection.shutdownInLoop]
      split <;> exact ⟨h.valid, h.bytes⟩
    exact hs
  all_goals exact ⟨h.valid, h.bytes⟩

theorem Calls.streaming (hc : Calls own t c api c' codes) (h : c.Streaming) : c'.Streaming := by
  cases hc <;> exact ⟨h.valid, h.bytes⟩

theorem Step.streaming (e : Step cfg own base s act s') (h : s.conn.Streaming) :
    s'.conn.Streaming := by
  cases e
  case call    => exact (call_cases ..).streaming h
  case exec hr => exact (run_cases hr).streaming h
  all_goals exact h

theorem Initial.streaming (h : Initial own s) : s.conn.Streaming := by
  have ⟨initSize, fd, hc⟩ := h.conn
  rw [Streaming, hc]
  exact ⟨Buffer.new_valid initSize, Buffer.new_content initSize⟩

def Task.callBy (t : θ) : Task θ → Option Api
  | .sendInLoop message origin => if origin = t then some (.send message) else none
  | .shutdownInLoop origin     => if origin = t then some .shutdown else none
  | _                          => none

def Code.taskBy (t : θ) : Code θ → Option Api
  | .task f => f.callBy t
  | _       => none

def Code.queuedBy (t : θ) : Code θ → Option Api
  | .queue f => f.callBy t
  | _        => none

@[simp]
theorem Code.taskBy_task {f : Task θ} : (Code.task f).taskBy t = f.callBy t :=
  rfl

@[simp]
theorem Code.taskBy_queue {f : Task θ} : (Code.queue f).taskBy t = none :=
  rfl

@[simp]
theorem Code.queuedBy_queue {f : Task θ} : (Code.queue f).queuedBy t = f.callBy t :=
  rfl

@[simp]
theorem Code.queuedBy_task {f : Task θ} : (Code.task f).queuedBy t = none :=
  rfl

-- The calls of a thread that have still to be run on the loop's thread, in the order of these runs.
def waiting (own : θ) (s : State θ) (t : θ) : List Api :=
  (s.stack own).filterMap (·.taskBy t) ++ (s.queue own).pending.filterMap (·.callBy t) ++
    (s.stack t).filterMap (·.queuedBy t)

def Api.message? : Api → Option Message
  | .send message => some message
  | _             => none

def messages (calls : List Api) : List Message :=
  calls.filterMap Api.message?

theorem messages_append {l l' : List Api} : messages (l ++ l') = messages l ++ messages l' :=
  List.filterMap_append

def issued (c : Connection θ) : Api → List Api
  | .send message => if c.state = .connected then [.send message] else []
  | .shutdown     => if c.state = .disconnected then [] else [.shutdown]
  | _             => []

structure Ordered (own base : θ) (s : State θ) : Prop where
  placed : Placed own base s
  topped : Topped own s
  tidy   : Tidy s
  batch  : ∀ t, s.phase t ≠ .tasks → (s.queue t).tmpVec = []
  order  : ∀ t, acceptedBy s.conn t = ranBy s.conn t ++ messages (waiting own s t)

def Task.origin : Task θ → Option θ
  | .sendInLoop _ origin | .shutdownInLoop origin => some origin
  | _                                             => none

def Code.isCall : Code θ → Bool
  | .task f | .queue f => f.origin.isSome
  | _                  => false

theorem callBy_eq_none {f : Task θ} (h : f.origin ≠ some t) : f.callBy t = none := by
  cases f <;> simp_all [Task.origin, Task.callBy]

theorem not_call (h : ¬code.isCall) : code.taskBy t = none ∧ code.queuedBy t = none := by
  cases code
  case task f | queue f =>
    have hf : f.callBy t = none := callBy_eq_none (by simp_all [Code.isCall])
    simp [hf]
  all_goals exact ⟨rfl, rfl⟩

theorem filterMap_callless (t : θ) (rest : List (Code θ)) (h : ∀ code ∈ codes, ¬code.isCall) :
    (codes ++ rest).filterMap (·.taskBy t) = rest.filterMap (·.taskBy t) ∧
      (codes ++ rest).filterMap (·.queuedBy t) = rest.filterMap (·.queuedBy t) := by
  have ht : codes.filterMap (·.taskBy t) = [] := by
    rw [List.filterMap_eq_nil_iff]
    exact fun code hm => (not_call (h code hm)).left
  have hq : codes.filterMap (·.queuedBy t) = [] := by
    rw [List.filterMap_eq_nil_iff]
    exact fun code hm => (not_call (h code hm)).right
  rw [List.filterMap_append, List.filterMap_append, ht, hq]
  exact ⟨rfl, rfl⟩

omit [DecidableEq θ] in
theorem not_call_of_not_urgent (hu : ¬code.Urgent own) (hs : ¬code.isShutdown) : ¬code.isCall := by
  cases code
  case task f | queue f =>
    cases f <;> simp_all [Code.isCall, Task.origin, Code.Urgent, Code.isShutdown, Task.isShutdown]
  all_goals simp [Code.isCall]

theorem Runs.callless (hr : Runs cfg base t c code answer c' codes) :
    ∀ code ∈ codes, ¬code.isCall := by
  intro code' hm
  cases hr.leaves code' hm <;> exact Bool.false_ne_true

theorem Runs.history (t' : θ) (hr : Runs cfg base t c code answer c' codes) :
    acceptedBy c' t' = acceptedBy c t' ∧
      ranBy c' t' = ranBy c t' ++ messages (code.taskBy t').toList := by
  cases hr
  case sendInLoop message origin r _ =>
    by_cases ht : origin = t' <;> simp [acceptedBy, ranBy, Task.callBy, messages, Api.message?, ht]
  case shutdownInLoop origin =>
    by_cases ht : origin = t' <;> simp [acceptedBy, ranBy, Task.callBy, messages, Api.message?, ht]
  all_goals exact ⟨rfl, (List.append_nil _).symm⟩

theorem Runs.on_own (hr : Runs cfg base t c code answer c' codes) (hh : code.Home own base t)
    (hc : code.isCall) : t = own ∧ ∃ f, code = .task f := by
  cases hr
  case sendInLoop | shutdownInLoop => exact ⟨hh, _, rfl⟩
  all_goals contradiction

theorem Calls.history (hc : Calls own t c api c' codes) :
    acceptedBy c' t' = acceptedBy c t' ++ messages (if t = t' then issued c api else []) ∧
      ranBy c' t' = ranBy c t' := by
  cases hc
  case send message hs =>
    by_cases ht : t = t' <;> simp [acceptedBy, ranBy, issued, messages, Api.message?, hs, ht]
  all_goals by_cases ht : t = t' <;> simp_all [acceptedBy, ranBy, issued, messages, Api.message?]

theorem waiting_resume {r : Connection θ × List (Code θ)}
    (h : ∀ t', (r.2 ++ rest).filterMap (·.taskBy t') = (s.stack t).filterMap (·.taskBy t') ∧
      (r.2 ++ rest).filterMap (·.queuedBy t') = (s.stack t).filterMap (·.queuedBy t')) :
    waiting own (s.resume t r rest) t' = waiting own s t' := by
  have hs : ∀ t₁, ((s.resume t r rest).stack t₁).filterMap (·.taskBy t') =
        (s.stack t₁).filterMap (·.taskBy t') ∧
      ((s.resume t r rest).stack t₁).filterMap (·.queuedBy t') =
        (s.stack t₁).filterMap (·.queuedBy t') := by
    intro t₁
    by_cases ht : t₁ = t
    case pos => simpa [State.resume, ht] using h t'
    case neg => simp [State.resume, ht]
  rw [waiting, waiting, (hs own).left, (hs t').right]
  rfl

theorem waiting_pop {r : Connection θ × List (Code θ)} (hs : s.stack t = code :: rest)
    (hc : ¬code.isCall) (hr : ∀ code ∈ r.2, ¬code.isCall) :
    waiting own (s.resume t r rest) t' = waiting own s t' := by
  apply waiting_resume
  intro t'
  have hm : ∀ code' ∈ [code], ¬code'.isCall := by simpa using hc
  have h₁ := filterMap_callless t' rest hr
  have h₂ := filterMap_callless t' rest hm
  rw [hs, h₁.left, h₁.right]
  exact ⟨h₂.left.symm, h₂.right.symm⟩

theorem waiting_setQueue {q : TaskQueue (Task θ)}
    (h : t = own → q.pending.filterMap (·.callBy t') =
      (s.queue own).pending.filterMap (·.callBy t')) :
    waiting own (s.setQueue t q) t' = waiting own s t' := by
  have hq : ((s.setQueue t q).queue own).pending.filterMap (·.callBy t') =
      (s.queue own).pending.filterMap (·.callBy t') := by
    by_cases ht : t = own
    case pos => simpa [State.setQueue, ht] using h ht
    case neg => simp [State.setQueue, Ne.symm ht]
  rw [waiting, waiting, hq]
  rfl

namespace Ordered

theorem callable_calls (t' : θ) (h : Ordered own base s) (hc : s.Callable t) :
    (s.stack t).filterMap (·.taskBy t') = [] ∧ (s.stack t).filterMap (·.queuedBy t') = [] := by
  have hu : ∀ code ∈ s.stack t, ¬code.isCall := by
    intro code hm
    exact not_call_of_not_urgent (h.topped.not_urgent hc code hm) (h.tidy.callable hc code hm)
  have hf := filterMap_callless t' [] hu
  simpa using hf

theorem own_calls (h : Ordered own base s) :
    (s.queue own).pending.filterMap (·.callBy own) = [] := by
  rw [List.filterMap_eq_nil_iff]
  intro f hm
  have hf := h.placed.home.task own f hm
  cases f
  case sendInLoop | shutdownInLoop => exact if_neg hf.right
  all_goals rfl

theorem filterMap_doTaskInThread (own t t' : θ) (f : Task θ) (rest : List (Code θ))
    (hn : ∀ code ∈ codes, ¬code.isCall) :
    (codes ++ doTaskInThread own t f :: rest).filterMap (·.taskBy t') =
        (if t = own then (f.callBy t').toList else []) ++ rest.filterMap (·.taskBy t') ∧
      (codes ++ doTaskInThread own t f :: rest).filterMap (·.queuedBy t') =
        (if t = own then [] else (f.callBy t').toList) ++ rest.filterMap (·.queuedBy t') := by
  have ⟨ht, hq⟩ := filterMap_callless t' (doTaskInThread own t f :: rest) hn
  rw [ht, hq, doTaskInThread]
  by_cases hown : t = own <;> cases hf : f.callBy t' <;> simp [hown, hf, List.filterMap_cons]

theorem waiting_call {f : Task θ} (t' : θ) (c : Connection θ) (codes : List (Code θ))
    (h : Ordered own base s) (hc : s.Callable t)
    (ho : f.origin = some t) (hn : ∀ code ∈ codes, ¬code.isCall) :
    waiting own (s.resume t (c, codes ++ [doTaskInThread own t f]) (s.stack t)) t' =
      waiting own s t' ++ (f.callBy t').toList := by
  have ⟨ht, hq⟩ := h.callable_calls t' hc
  have hs := filterMap_doTaskInThread own t t' f (s.stack t) hn
  by_cases ht' : t' = t
  case pos =>
    subst ht'
    by_cases hown : t' = own
    case pos =>
      subst hown
      simp [waiting, State.resume, hs, ht, hq, h.own_calls]
    case neg => simp [waiting, State.resume, hs, hq, hown, Ne.symm hown]
  case neg =>
    have hf : f.callBy t' = none := callBy_eq_none (by simp [ho, Ne.symm ht'])
    by_cases hown : own = t
    case pos =>
      subst hown
      simp [waiting, State.resume, hs, hf, ht', ht]
    case neg => simp [waiting, State.resume, hf, ht', hown]

theorem waiting_run {f : Task θ} (hs : s.stack own = .task f :: rest)
    (hn : ∀ code ∈ codes, ¬code.isCall) :
    waiting own s t = (f.callBy t).toList ++ waiting own (s.resume own (c, codes) rest) t := by
  have ⟨ht, hq⟩ := filterMap_callless t rest hn
  by_cases hown : t = own
  case pos =>
    subst hown
    cases hf : f.callBy t <;> simp [waiting, State.resume, hs, hf, ht, hq, List.filterMap_cons]
  case neg =>
    cases hf : f.callBy t <;> simp [waiting, State.resume, hs, hown, hf, ht]

theorem call_waiting (h : Ordered own base s) (hc : s.Callable t)
    (hr : Calls own t s.conn api c' codes) :
    waiting own (s.resume t (c', codes) (s.stack t)) t' =
      waiting own s t' ++ if t = t' then issued s.conn api else [] := by
  cases hr
  case send message hs =>
    have hw := h.waiting_call (f := .sendInLoop message t) t'
      { s.conn with accepted := s.conn.accepted ++ [(t, message)] } [] hc rfl (by simp)
    rw [List.nil_append] at hw
    rw [hw]
    by_cases ht : t = t' <;> simp [ht, issued, hs, Task.callBy]
  case shutdown hs =>
    have hw := h.waiting_call (f := .shutdownInLoop t) t' s.conn [.store .disconnecting] hc rfl
      (by simp [Code.isCall])
    rw [List.singleton_append] at hw
    rw [hw]
    by_cases ht : t = t' <;> simp [ht, issued, hs, Task.callBy]
  all_goals
    rw [waiting_resume]
    · simp_all [issued]
    · intro t'
      refine filterMap_callless _ _ ?_
      by_cases ht : t = own <;> simp [doTaskInThread, ht, Code.isCall, Task.origin]

theorem exec_waiting (t' : θ) (h : Ordered own base s) (hs : s.stack t = code :: rest)
    (hr : Runs cfg base t s.conn code answer c' codes) :
    waiting own s t' = (code.taskBy t').toList ++ waiting own (s.resume t (c', codes) rest) t' := by
  by_cases hc : code.isCall
  case neg =>
    rw [waiting_pop hs hc hr.callless, (not_call hc).left]
    rfl
  case pos =>
    have hh := h.placed.home.code t code (hs ▸ List.mem_cons_self)
    obtain ⟨rfl, f, rfl⟩ := hr.on_own hh hc
    exact waiting_run hs hr.callless

theorem queue_waiting {f : Task θ} (h : Ordered own base s) (hs : s.stack t = .queue f :: rest) :
    waiting own ((s.setQueue (f.home own base) ((s.queue (f.home own base)).push f)).resume t
      (s.conn, []) rest) t' = waiting own s t' := by
  by_cases hf : (Code.queue f).isCall
  case pos =>
    have ho : f.origin = some t ∧ t ≠ own := by
      have hh := h.placed.home.code t (.queue f) (hs ▸ List.mem_cons_self)
      cases f
      case sendInLoop | shutdownInLoop => exact ⟨congrArg some hh.left.symm, hh.right⟩
      all_goals contradiction
    have hhome : f.home own base = own := by
      cases f
      case removeConnectionInLoop => contradiction
      all_goals rfl
    by_cases ht : t' = t
    case pos =>
      subst ht
      cases hc : f.callBy t' <;>
        simp [waiting, State.resume, State.setQueue, TaskQueue.push_pending, hhome, hs, hc,
          Ne.symm ho.right]
    case neg =>
      have hc : f.callBy t' = none := callBy_eq_none (by simp [ho.left, Ne.symm ht])
      simp [waiting, State.resume, State.setQueue, TaskQueue.push_pending, hhome, hc, ht,
        Ne.symm ho.right]
  case neg =>
    rw [waiting_pop (s := s.setQueue _ _) hs hf (by simp), waiting_setQueue]
    intro ht
    have hn : f.callBy t' = none := (not_call hf).right
    simp [TaskQueue.push_pending, ht, hn]

theorem task_waiting {f : Task θ} {tasks : List (Task θ)} (h : Ordered own base s)
    (hs : s.stack t = []) (ht : (s.queue t).tmpVec = f :: tasks) :
    waiting own ((s.setQueue t { s.queue t with tmpVec := tasks }).resume t (s.conn,
      [.task f]) []) t' =
      waiting own s t' := by
  by_cases hown : t = own
  case pos =>
    subst hown
    by_cases ht' : t' = t
    case pos =>
      subst ht'
      cases hf : f.callBy t' <;>
        simp [waiting, State.resume, State.setQueue, TaskQueue.pending, hs, ht, hf]
    case neg =>
      cases hf : f.callBy t' <;>
        simp [waiting, State.resume, State.setQueue, TaskQueue.pending, ht', hs, ht, hf]
  case neg =>
    have hf : ∀ code ∈ [Code.task f], ¬code.isCall := by
      intro code hm
      have hm := List.mem_singleton.mp hm
      subst hm
      have hf : f.Home own base t := h.placed.home.task t f (by simp [TaskQueue.pending, ht])
      cases f
      case sendInLoop | shutdownInLoop => exact absurd hf.left hown
      all_goals simp [Code.isCall, Task.origin]
    rw [waiting_resume, waiting_setQueue (absurd · hown)]
    intro t'
    have hc := filterMap_callless t' [] hf
    simpa [State.setQueue, hs] using hc

theorem waiting_step (h : Ordered own base s) (e : Step cfg own base s act s') :
    (∃ t api, act = .call t api ∧ s.Callable t ∧
      (∃ codes, Calls own t s.conn api s'.conn codes ∧
        s'.stack = Function.update s.stack t (codes ++ s.stack t)) ∧
      ∀ t', waiting own s' t' = waiting own s t' ++ if t = t' then issued s.conn api else []) ∨
    (∃ t code rest answer codes, act = .exec t answer ∧ s.stack t = code :: rest ∧
      Runs cfg base t s.conn code answer s'.conn codes ∧
      ∀ t', waiting own s t' = (code.taskBy t').toList ++ waiting own s' t') ∨
    (s'.conn = s.conn ∧ ∀ t', waiting own s' t' = waiting own s t') := by
  cases e
  case call t api _ hc =>
    refine .inl ⟨t, api, rfl, hc, ⟨_, call_cases .., rfl⟩, fun t' => ?_⟩
    exact h.call_waiting hc (call_cases ..)
  case exec t code rest answer r hs hr =>
    refine .inr (.inl ⟨t, code, rest, answer, r.2, rfl, hs, run_cases hr, fun t' => ?_⟩)
    exact h.exec_waiting t' hs (run_cases hr)
  case queue hs   => exact .inr (.inr ⟨rfl, fun _ => h.queue_waiting hs⟩)
  case task hs ht => exact .inr (.inr ⟨rfl, fun _ => h.task_waiting hs ht⟩)
  case remove hs  =>
    refine .inr (.inr ⟨rfl, fun t' => waiting_pop (s := { s with mapped := false }) hs ?_ ?_⟩)
    · simp [Code.isCall, Task.origin]
    · split <;> simp [Code.isCall, Task.origin]
  case dispatch t revents _ hs =>
    refine .inr (.inr ⟨rfl, fun t' => waiting_resume (s := s.setPhase t _) fun t' => ?_⟩)
    have hn : ∀ code ∈ (handleChannel revents : List (Code θ)), ¬code.isCall := by
      intro code hm
      obtain rfl | rfl | rfl | rfl := mem_handleChannel hm <;> simp [Code.isCall]
    simpa [State.setPhase, hs] using filterMap_callless t' [] hn
  case swap t hp _ =>
    refine .inr (.inr ⟨rfl, fun t' => waiting_setQueue (s := s.setPhase t _) ?_⟩)
    rintro rfl
    rw [TaskQueue.swap_pending (h.batch t (by simp [hp]))]
    rfl
  case poll | finish => exact .inr (.inr ⟨rfl, fun _ => rfl⟩)

theorem step_order (h : Ordered own base s) (e : Step cfg own base s act s') :
    acceptedBy s'.conn t' = ranBy s'.conn t' ++ messages (waiting own s' t') := by
  have ho := h.order t'
  obtain ⟨t, api, -, -, ⟨codes, hr, -⟩, hw⟩ |
      ⟨t, code, rest, answer, codes, -, -, hr, hw⟩ | ⟨hc, hw⟩ :=
    h.waiting_step e
  · rw [hw t', messages_append, hr.history.left, hr.history.right, ho, List.append_assoc]
  · rw [(hr.history t').left, (hr.history t').right, ho, hw t', messages_append, List.append_assoc]
  · rw [hc, hw t']
    exact ho

theorem step (h : Ordered own base s) (e : Step cfg own base s act s') : Ordered own base s' where
  placed := h.placed.step e
  topped := h.topped.step e
  tidy   := h.tidy.step e
  batch  := Batched.step h.batch e
  order _ := h.step_order e

end Ordered

theorem Initial.waiting_eq (h : Initial own s) : waiting own s t = [] := by
  have hs : ∀ t', (s.stack t').filterMap (·.taskBy t) = [] ∧
      (s.stack t').filterMap (·.queuedBy t) = [] := by
    intro t'
    rw [h.stack]
    by_cases ht : t' = own <;> simp [ht, Code.taskBy, Code.queuedBy]
  rw [waiting, (hs own).left, (hs t).right, h.queue]
  rfl

theorem Initial.ordered (h : Initial own s) : Ordered own base s where
  placed := h.placed
  topped := h.topped
  tidy   := h.tidy
  batch  := Batched.of_empty h.queue
  order t := by
    have ⟨initSize, fd, hc⟩ := h.conn
    rw [h.waiting_eq, hc]
    rfl

theorem run_ordered {acts : List (Act θ)} (hi : Initial own s₀)
    (e : Steps (Step cfg own base) s₀ acts s) : s.conn.Streaming ∧ Ordered own base s := by
  have hp : ∀ {s₁ a s₂}, s₁.conn.Streaming ∧ Ordered own base s₁ → Step cfg own base s₁ a s₂ →
      s₂.conn.Streaming ∧ Ordered own base s₂ := fun h e => ⟨e.streaming h.left, h.right.step e⟩
  exact e.invariant (P := fun s => s.conn.Streaming ∧ Ordered own base s) hp
    ⟨hi.streaming, hi.ordered⟩

theorem Calls.ran (hc : Calls own t c api c' codes) : c'.ran = c.ran := by
  cases hc <;> rfl

theorem Step.ran (e : Step cfg own base s act s') : s'.conn.ran = s.conn.ran ∨
    ∃ x, s'.conn.ran = s.conn.ran ++ [x] ∧ (x.fate = .dropped → s.conn.state = .disconnected ∨
      ∃ t r, act = .exec t (.sent r) ∧ r.ret ≤ 0 ∧ (r.errno = .EPIPE ∨ r.errno = .ECONNRESET)) := by
  cases e
  case call t api _ _ => exact .inl (call_cases own t s.conn api).ran
  case exec t code rest answer r hs hr =>
    have hr := run_cases hr
    obtain ⟨c', codes⟩ := r
    cases hr
    case sendInLoop message origin r _ =>
      refine .inr ⟨_, rfl, fun hd => (TcpConnection.sendInLoop_dropped hd).imp_right fun h => ?_⟩
      exact ⟨t, r, rfl, h.left, h.right.right⟩
    all_goals exact .inl rfl
  all_goals exact .inl rfl

theorem stream_of_run {acts : List (Act θ)} (hi : Initial own s₀)
    (e : Steps (Step cfg own base) s₀ acts s) :
    s.conn.socket.wire ++ s.conn.outputBuffer.content = keptBytes s.conn.ran ∧
      (∀ t, ranBy s.conn t <+: acceptedBy s.conn t) ∧
      ∀ act s', Step cfg own base s act s' → s'.conn.ran = s.conn.ran ∨
        ∃ x, s'.conn.ran = s.conn.ran ++ [x] ∧ (x.fate = .dropped → s.conn.state = .disconnected ∨
          ∃ t r, act = .exec t (.sent r) ∧ r.ret ≤ 0 ∧
            (r.errno = .EPIPE ∨ r.errno = .ECONNRESET)) := by
  have ⟨hs, ho⟩ := run_ordered hi e
  refine ⟨hs.bytes, fun t => ?_, fun _ _ e => e.ran⟩
  rw [ho.order t]
  exact List.prefix_append ..

-- A send of the loop's thread overtakes the one that another thread has queued.
theorem stream_of_two_sends :
    ∃ s, Steps (Step ⟨true, true, true, true⟩ false false) (State.new false 8 5 : State Bool)
      [.exec false .none, .call true (.send [1, 2]), .exec true .none, .call false (.send [3]),
        .exec false (.sent ⟨-1, .EWOULDBLOCK⟩), .exec false .none, .swap false, .task false,
        .exec false (.sent ⟨2, .other⟩)] s ∧
      s.conn.socket.wire ++ s.conn.outputBuffer.content = keptBytes s.conn.ran ∧
        ∀ t, ranBy s.conn t <+: acceptedBy s.conn t := by
  obtain ⟨s, e⟩ : ∃ s, Steps (Step ⟨true, true, true, true⟩ false false) (State.new false 8 5)
      [.exec false .none, .call true (.send [1, 2]), .exec true .none, .call false (.send [3]),
        .exec false (.sent ⟨-1, .EWOULDBLOCK⟩), .exec false .none, .swap false, .task false,
        .exec false (.sent ⟨2, .other⟩)] s := ⟨_, State.steps_of_isSome (by decide +kernel)⟩
  have ⟨hb, hp, _⟩ := stream_of_run State.new_initial e
  exact ⟨s, e, hb, hp⟩

end Bounce.Connection
