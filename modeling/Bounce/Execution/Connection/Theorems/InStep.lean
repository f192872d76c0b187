import Bounce.Execution.Connection.Theorems.Graceful
import Bounce.Execution.Connection.Theorems.Teardown

namespace Bounce.Connection

variable {θ : Type} [DecidableEq θ] {cfg : Callbacks} {own base t t' : θ} {s s' s₀ : State θ}
variable {act : Act θ} {c c' : Connection θ} {code : Code θ} {codes rest : List (Code θ)}
variable {answer : Answer} {api : Api}

def State.OnLoop (own : θ) (_ : State θ) : Act θ → Prop
  | .call t _ => t = own
  | _         => True

instance : ∀ act, Decidable (s.OnLoop own act)
  | .call t _ => inferInstanceAs (Decidable (t = own))
  | .exec _ _ | .poll _ _ | .dispatch _ | .swap _ | .task _ | .finish _ => .isTrue trivial

def size (messages : List Message) : Nat :=
  (messages.map List.length).sum

def droppedMessages (c : Connection θ) : List Message :=
  (c.ran.filter (·.fate = .dropped)).map (·.message)

-- The bytes that have been accepted and not been dropped, and that `::send` has still to take.
def outstanding (c : Connection θ) : Nat :=
  size (c.accepted.map (·.2)) - size c.droppedMessages - c.socket.wire.length

structure Handed (c : Connection θ) : Prop where
  run  : c.ran.map (·.message) = c.accepted.map (·.2)
  wire : c.socket.wire = keptBytes c.ran

def blanks (c : Connection θ) : Nat :=
  c.ran.countP fun x => x.fate = .finished ∧ x.message = []

-- The outstanding bytes have come to an end, other than by a drop.
def drained (c c' : Connection θ) : Nat :=
  if 0 < c.outstanding ∧ c'.outstanding = 0 ∧ c'.droppedMessages = c.droppedMessages then 1 else 0

-- The write-complete tasks that are about to be queued, or are queued by a step.
def owed (codes : List (Code θ)) : Nat :=
  codes.count (.queue .writeComplete)

def State.queues (s : State θ) : Act θ → Nat
  | .exec t _ => owed (s.stack t).head?.toList
  | _         => 0

def State.writes (s : State θ) (act : Act θ) (s' : State θ) : Nat × Nat :=
  (s.queues act, s.conn.drained s'.conn)

omit [DecidableEq θ] in
theorem size_append {l l' : List Message} : size (l ++ l') = size l + size l' := by
  simp [size]

omit [DecidableEq θ] in
theorem size_ran (c : Connection θ) :
    size (c.ran.map (·.message)) = size c.droppedMessages + (keptBytes c.ran).length := by
  rw [droppedMessages]
  induction c.ran
  case nil => rfl
  case cons x ran hi =>
    by_cases hd : x.fate = .dropped <;> simp [size, keptBytes, hd] at hi ⊢ <;> omega

def Code.message? : Code θ → Option Message
  | .task (.sendInLoop message _) => some message
  | _                             => none

omit [DecidableEq θ] in
theorem outstanding_eq {m : Option Message} (hs : c.Streaming)
    (ha : c.accepted.map (·.2) = c.ran.map (·.message) ++ m.toList) :
    c.outstanding = size m.toList + c.outputBuffer.content.length := by
  have hb := congrArg List.length hs.bytes
  rw [List.length_append] at hb
  rw [outstanding, ha, size_append, size_ran]
  omega

structure Steady (c : Connection θ) : Prop where
  streams : c.Streaming
  inStep  : c.state ≠ .disconnected → c.InStep
  idle    : c.state = .disconnected → ¬c.channel.isWriting
  opened  : c.state = .connected → ¬c.socket.shutWr
  shut    : c.state ≠ .disconnected → c.socket.shutWr → c.outputBuffer.content = []

-- The codes that need a certain state, and that nothing but a call, or the code before them, leads
-- to.
def Code.Fits (c : Connection θ) : Code θ → Prop
  | .task .connectComplete        => False
  | .task (.sendInLoop _ _)       => c.state = .connected
  | .task (.shutdownInLoop _)     => c.state = .disconnecting
  | .task .destroyConnection      => c.state = .disconnected
  | .store state                  => state = .disconnecting ∧ c.state ≠ .disconnected
  | _                             => True

theorem Runs.steady (hr : Runs cfg base t c code answer c' codes) (hf : code.Fits c)
    (h : c.Steady) :
    c'.Steady where
  streams := hr.streaming h.streams
  inStep  := by
    cases hr
    case sendInLoop =>
      have hs : c.state = .connected := hf
      exact fun _ => TcpConnection.sendInLoop_inStep h.streams.valid (h.inStep (by simp [hs]))
    case handleWrite =>
      intro hs
      exact TcpConnection.handleWrite_inStep h.streams.valid
        (h.inStep (TcpConnection.handleWrite_state ▸ hs))
    case shutdownInLoop | checkDisconnecting =>
      intro hs
      have hi := h.inStep (TcpConnection.shutdownInLoop_state ▸ hs)
      rw [TcpConnection.InStep] at hi ⊢
      simpa only [TcpConnection.shutdownInLoop_channel,
        TcpConnection.shutdownInLoop_outputBuffer] using hi
    case store           => exact fun _ => h.inStep hf.right
    case handleClose     => exact fun hs => absurd rfl hs
    case connectComplete => contradiction
    all_goals exact h.inStep
  idle    := by
    cases hr
    case sendInLoop =>
      intro hs
      exact absurd (TcpConnection.sendInLoop_state.symm.trans hs)
        (by simp [show c.state = .connected from hf])
    case handleWrite =>
      intro hs
      have hw := h.idle (TcpConnection.handleWrite_state.symm.trans hs)
      exact TcpConnection.handleWrite_idle hw ▸ hw
    case shutdownInLoop | checkDisconnecting =>
      intro hs
      have hw := h.idle (TcpConnection.shutdownInLoop_state.symm.trans hs)
      exact TcpConnection.shutdownInLoop_channel (c := c.toTcpConnection) ▸ hw
    case store           => exact fun hs => by cases hf.left.symm.trans hs
    case handleClose     => exact fun _ => Watch.isWriting_of_events Watch.disableAll_events
    case connectComplete => contradiction
    all_goals exact h.idle
  opened  := by
    cases hr
    case sendInLoop =>
      intro hs
      exact TcpConnection.sendInLoop_shutWr (c := c.toTcpConnection) ▸
        h.opened (TcpConnection.sendInLoop_state.symm.trans hs)
    case handleWrite =>
      intro hs
      exact TcpConnection.handleWrite_shutWr (c := c.toTcpConnection) ▸
        h.opened (TcpConnection.handleWrite_state.symm.trans hs)
    case shutdownInLoop =>
      intro hs
      exact absurd (TcpConnection.shutdownInLoop_state.symm.trans hs)
        (by simp [show c.state = .disconnecting from hf])
    case checkDisconnecting hd =>
      intro hs
      exact absurd (TcpConnection.shutdownInLoop_state.symm.trans hs) (by simp [hd])
    case store           => exact fun hs => by cases hf.left.symm.trans hs
    case handleClose     => exact fun hs => by cases hs
    case connectComplete => contradiction
    all_goals exact h.opened
  shut    := by
    cases hr
    case sendInLoop =>
      intro _ hw
      exact absurd (TcpConnection.sendInLoop_shutWr (c := c.toTcpConnection) ▸ hw) (h.opened hf)
    case handleWrite =>
      intro hs hw
      have hd := h.shut (TcpConnection.handleWrite_state ▸ hs)
        (TcpConnection.handleWrite_shutWr (c := c.toTcpConnection) ▸ hw)
      exact TcpConnection.handleWrite_drained h.streams.valid hd
    case shutdownInLoop | checkDisconnecting =>
      intro hs hw
      have hs := TcpConnection.shutdownInLoop_state (c := c.toTcpConnection) ▸ hs
      show c.shutdownInLoop.outputBuffer.content = []
      have hw : c.shutdownInLoop.socket.shutWr := hw
      rw [TcpConnection.shutdownInLoop_outputBuffer]
      rw [TcpConnection.shutdownInLoop] at hw
      split at hw
      case isTrue hn  => exact not_not.mp fun hc => hn ((h.inStep hs).mpr hc)
      case isFalse    => exact h.shut hs hw
    case store           => exact fun _ => h.shut hf.right
    case handleClose     => exact fun hs => absurd rfl hs
    case connectComplete => contradiction
    all_goals exact h.shut

theorem Runs.ran (hr : Runs cfg base t c code answer c' codes) : c'.accepted = c.accepted ∧
    c'.ran.map (·.message) = c.ran.map (·.message) ++ code.message?.toList := by
  cases hr
  case sendInLoop => exact ⟨rfl, by rw [List.map_append]; rfl⟩
  all_goals exact ⟨rfl, (List.append_nil _).symm⟩

theorem Runs.message_eq_none (hr : Runs cfg base t c code answer c' codes) :
    ∀ code ∈ codes, code.message? = none := by
  intro code hm
  have hn := hr.callless code hm
  cases code
  case task f => cases f <;> simp_all [Code.isCall, Task.origin, Code.message?]
  all_goals rfl

omit [DecidableEq θ] in
theorem drained_of_outstanding (h : c'.outstanding = c.outstanding) : c.drained c' = 0 := by
  rw [drained, if_neg]
  omega

omit [DecidableEq θ] in
theorem drained_of_le (h : c'.outstanding = 0 → c.outstanding = 0) : c.drained c' = 0 := by
  rw [drained, if_neg]
  exact fun hd => Nat.ne_of_gt hd.left (h hd.right.left)

omit [DecidableEq θ] in
theorem drained_of_dropped (h : c'.droppedMessages ≠ c.droppedMessages) : c.drained c' = 0 :=
  if_neg fun hd => h hd.right.right

omit [DecidableEq θ] in
theorem sendInLoop_wrote {message : Message} {r : Sent} (h : c.Steady)
    (hl : r.ret ≤ message.length)
    (hr : c'.ran = c.ran ++ [⟨t, message, (c.sendInLoop message r).2⟩])
    (ho : c.outstanding = message.length + c.outputBuffer.content.length)
    (ho' : c'.outstanding = (c.sendInLoop message r).1.outputBuffer.content.length) :
    (if (c.sendInLoop message r).2 = .finished then 1 else 0) + c.blanks =
      c.drained c' + c'.blanks := by
  cases hf : (c.sendInLoop message r).2 <;> rw [hf] at hr
  case dropped =>
    have hd : c'.droppedMessages = c.droppedMessages ++ [message] := by simp [droppedMessages, hr]
    have hb : c'.blanks = c.blanks := by simp [blanks, hr]
    rw [drained_of_dropped (by simp [hd]), hb]
    rfl
  case finished =>
    have ⟨hc, hc'⟩ := TcpConnection.sendInLoop_finished h.streams.valid hf
    have hd : c'.droppedMessages = c.droppedMessages := by simp [droppedMessages, hr]
    rw [hc'] at ho'
    rw [hc] at ho
    by_cases hm : message = []
    case pos =>
      have hb : c'.blanks = c.blanks + 1 := by simp [blanks, hr, hm]
      rw [drained_of_outstanding (by simp [ho, ho', hm]), hb]
      simp [Nat.add_comm]
    case neg =>
      have hb : c'.blanks = c.blanks := by simp [blanks, hr, hm]
      have hp : 0 < c.outstanding := ho ▸ List.length_pos_iff.mpr hm
      have hw : c.drained c' = 1 := if_pos ⟨hp, ho', hd⟩
      rw [hw, hb]
      rfl
  case kept =>
    have hb : c'.blanks = c.blanks := by simp [blanks, hr]
    have hz : c'.outstanding = 0 → c.outstanding = 0 := by
      intro hz
      have hn :=
        TcpConnection.sendInLoop_kept h.streams.valid hl hf (List.length_eq_zero_iff.mp (ho' ▸ hz))
      simp [ho, hn.left, hn.right]
    rw [drained_of_le hz, hb]
    rfl

omit [DecidableEq θ] in
theorem handleWrite_wrote {r : Sent} (h : c.Steady) (hr : c'.ran = c.ran)
    (ho : c.outstanding = c.outputBuffer.content.length)
    (ho' : c'.outstanding = (c.handleWrite r).1.outputBuffer.content.length) :
    (if (c.handleWrite r).2 then 1 else 0) + c.blanks = c.drained c' + c'.blanks := by
  have hd : c'.droppedMessages = c.droppedMessages := by rw [droppedMessages, hr]; rfl
  have hb : c'.blanks = c.blanks := by rw [blanks, hr]; rfl
  have hw : (0 < c.outstanding ∧ c'.outstanding = 0 ∧ c'.droppedMessages = c.droppedMessages) ↔
      (c.handleWrite r).2 := by
    rw [ho, ho', List.length_pos_iff, List.length_eq_zero_iff]
    by_cases hs : c.state = .disconnected
    case pos =>
      rw [TcpConnection.handleWrite_idle (h.idle hs)]
      exact ⟨fun hn => absurd hn.right.left hn.left, nofun⟩
    case neg => simp [TcpConnection.handleWrite_finished_iff h.streams.valid (h.inStep hs), hd]
  rw [hb, drained]
  simp only [hw]

theorem wrote_of_frame (ha : c'.accepted = c.accepted) (hr : c'.ran = c.ran)
    (hw : c'.socket.wire = c.socket.wire) (ho : owed codes = 0) :
    (cfg.writeComplete → owed codes + c.blanks = c.drained c' + c'.blanks) ∧
      (¬cfg.writeComplete → owed codes = 0) := by
  have hd : c'.outstanding = c.outstanding := by
    simp only [outstanding, droppedMessages, ha, hr, hw]
  have hb : c'.blanks = c.blanks := by rw [blanks, hr]; rfl
  exact ⟨fun _ => by rw [ho, drained_of_outstanding hd, hb], fun _ => ho⟩

theorem Runs.wrote (hr : Runs cfg base t c code answer c' codes) (hf : code.Fits c) (h : c.Steady)
    (ha : c.accepted.map (·.2) = c.ran.map (·.message) ++ code.message?.toList) :
    (cfg.writeComplete → owed codes + c.blanks = c.drained c' + c'.blanks) ∧
      (¬cfg.writeComplete → owed codes = 0) := by
  have ho := outstanding_eq h.streams ha
  have ho' : c'.outstanding = c'.outputBuffer.content.length := by
    have ha' : c'.accepted.map (·.2) = c'.ran.map (·.message) ++
        (none : Option Message).toList := by
      rw [hr.ran.left, hr.ran.right, ha, Option.toList_none, List.append_nil]
    rw [outstanding_eq (hr.streaming h.streams) ha', Option.toList_none]
    exact Nat.zero_add _
  cases hr
  case sendInLoop message origin r hl =>
    have ho : c.outstanding = message.length + c.outputBuffer.content.length := by
      simpa [size, Code.message?] using ho
    have hw := sendInLoop_wrote (r := r) h hl (by rfl) ho ho'
    by_cases hc : (c.sendInLoop message r).2 = .finished <;> simp_all [owed]
  case handleWrite r hl =>
    have ho : c.outstanding = c.outputBuffer.content.length := by
      simpa [size, Code.message?] using ho
    have hw := handleWrite_wrote (r := r) h (by rfl) ho ho'
    by_cases hc : (c.handleWrite r).2 <;> simp_all [owed]
  case closeCb =>
    refine wrote_of_frame rfl rfl rfl ?_
    by_cases ht : t = base <;> simp [owed, doTaskInThread, ht]
  case shutdownInLoop | checkDisconnecting =>
    exact wrote_of_frame rfl rfl TcpConnection.shutdownInLoop_wire rfl
  all_goals exact wrote_of_frame rfl rfl rfl rfl

def Task.Passive : Task θ → Prop
  | .writeComplete | .removeConnectionInLoop | .destroyConnection => True
  | _                                                             => False

def Code.Calm : Code θ → Prop
  | .task f                                         => f.Passive
  | .queue .removeConnectionInLoop                  => True
  | .queue .destroyConnection                       => True
  | .queue _ | .store _ | .checkState | .handleClose true => False
  | _                                               => True

def Settled (c : Connection θ) : Prop :=
  c.state = .disconnecting → c.outputBuffer.content = [] → c.socket.shutWr

-- What the loop's thread is doing: what is on top of its stack, and what holds of the connection
-- then.
inductive Doing (own : θ) (c : Connection θ) : List (Code θ) → Prop
  | rest {l} :
    c.Settled → (∀ code ∈ l, code.Calm) → Doing own c l
  | store {f l} :
    c.state ≠ .disconnected → f = .shutdownInLoop own ∨ f = .forceCloseInLoop →
    (∀ code ∈ l, code.Calm) →
    Doing own c (.store .disconnecting :: .task f :: l)
  | called {f l} :
    c.state = .disconnecting → f = .shutdownInLoop own ∨ f = .forceCloseInLoop →
    (∀ code ∈ l, code.Calm) →
    Doing own c (.task f :: l)
  | handleClose {l} :
    (∀ code ∈ l, code.Calm) → Doing own c (.handleClose true :: l)
  | sendInLoop {message l} :
    c.state = .connected → (∀ code ∈ l, code.Calm) →
    Doing own c (.task (.sendInLoop message own) :: l)
  | sent {l} :
    c.Settled → c.outputBuffer.content = [] → (∀ code ∈ l, code.Calm) →
    Doing own c (.queue .writeComplete :: l)
  | written {l} :
    c.outputBuffer.content = [] → (∀ code ∈ l, code.Calm) →
    Doing own c (.queue .writeComplete :: .checkState :: l)
  | checkState {l} :
    c.outputBuffer.content = [] → (∀ code ∈ l, code.Calm) → Doing own c (.checkState :: l)

-- The other threads take part in the teardown only, which comes after `handleClose`.
def After (own : θ) (c : Connection θ) (t : θ) (code : Code θ) : Prop :=
  (t ≠ own → code.Calm ∧ code.Closing) ∧ (code.Closing → c.state = .disconnected)

def AfterTask (own : θ) (c : Connection θ) (t : θ) (f : Task θ) : Prop :=
  f.Passive ∧ (t ≠ own → f.Closing) ∧ (f.Closing → c.state = .disconnected)

structure Single (own base : θ) (s : State θ) : Prop where
  placed : Placed own base s
  steady : s.conn.Steady
  doing  : Doing own s.conn (s.stack own)
  after  : Everywhere (After own s.conn) (AfterTask own s.conn) s
  ran    : s.conn.accepted.map (·.2) =
    s.conn.ran.map (·.message) ++ (s.stack own).filterMap Code.message?

omit [DecidableEq θ] in
theorem Code.Calm.message_eq_none (h : code.Calm) : code.message? = none := by
  cases code
  case task f => cases f <;> first | rfl | contradiction
  all_goals rfl

omit [DecidableEq θ] in
theorem filterMap_calm {l : List (Code θ)} (h : ∀ code ∈ l, code.Calm) :
    l.filterMap Code.message? = [] :=
  List.filterMap_eq_nil_iff.mpr fun code hm => (h code hm).message_eq_none

omit [DecidableEq θ] in
theorem Doing.callable {l : List (Code θ)} (h : Doing own c l)
    (hc : l = [] ∨ ∃ rest, l = .user :: rest) :
    c.Settled ∧ ∀ code ∈ l, code.Calm := by
  cases h
  case rest hs hl => exact ⟨hs, hl⟩
  all_goals simp at hc

omit [DecidableEq θ] in
theorem handleWrite_finished {r : Sent} (h : c.Steady) :
    (c.handleWrite r).2 ↔ c.outputBuffer.content ≠ [] ∧
    (c.handleWrite r).1.outputBuffer.content = [] := by
  by_cases hs : c.state = .disconnected
  case pos =>
    rw [TcpConnection.handleWrite_idle (h.idle hs)]
    exact ⟨nofun, fun hn => absurd hn.right hn.left⟩
  case neg => exact TcpConnection.handleWrite_finished_iff h.streams.valid (h.inStep hs)

theorem Runs.calm (hr : Runs cfg base t c code answer c' codes) (hc : code.Calm) (hf : code.Fits c)
    (h : c.Steady) (hs : c.Settled) (hl : ∀ code ∈ rest, code.Calm) :
    Doing own c' (codes ++ rest) := by
  have hrest : ∀ {c' : Connection θ} {codes}, c'.Settled → (∀ code ∈ codes, code.Calm) →
      Doing own c' (codes ++ rest) := by
    intro c' codes hs hc
    refine .rest hs fun code hm => ?_
    cases List.mem_append.mp hm
    case inl hm => exact hc code hm
    case inr hm => exact hl code hm
  cases hr
  case handleClose => exact hrest (fun hd => nomatch hd) (by simp [Code.Calm])
  case closeCb =>
    refine hrest hs ?_
    by_cases ht : t = base <;> simp [doTaskInThread, ht, Code.Calm, Task.Passive]
  case handleWrite r _ =>
    have hw := handleWrite_finished (r := r) h
    by_cases hd : (c.handleWrite r).2
    case pos =>
      rw [if_pos hd]
      by_cases hcfg : cfg.writeComplete
      case pos => rw [if_pos hcfg]; exact .written (hw.mp hd).right hl
      case neg => rw [if_neg hcfg]; exact .checkState (hw.mp hd).right hl
    case neg =>
      rw [if_neg hd]
      refine hrest (fun hst hn => ?_) (by simp)
      have hc : c.outputBuffer.content = [] := not_not.mp fun hc => hd (hw.mpr ⟨hc, hn⟩)
      exact TcpConnection.handleWrite_shutWr (c := c.toTcpConnection) ▸
        hs (TcpConnection.handleWrite_state.symm.trans hst) hc
  case destroyConnected hst => cases hst.symm.trans hf
  case connectComplete | sendInLoop | shutdownInLoop | forceCloseInLoop | closedBefore =>
    contradiction
  case store | checkDisconnecting | checkState => contradiction
  all_goals exact hrest hs (by simp [Code.Calm, Task.Passive])

theorem Doing.exec (h : Doing own c (code :: rest)) (hs : c.Steady)
    (hc : code.Closing → c.state = .disconnected) (hr : Runs cfg base own c code answer c' codes) :
    code.Fits c ∧ Doing own c' (codes ++ rest) := by
  cases h
  case rest hst hl =>
    have hcalm := hl code List.mem_cons_self
    have hf : code.Fits c := by
      cases code
      case task f =>
        cases f
        case destroyConnection                => exact hc trivial
        all_goals trivial
      all_goals trivial
    exact ⟨hf, hr.calm hcalm hf hs hst fun code hm => hl code (.tail _ hm)⟩
  case store f l hn hf hl =>
    cases hr
    exact ⟨⟨rfl, hn⟩, .called rfl hf hl⟩
  case called f hst hf hl =>
    cases hf
    case inl hf =>
      subst hf
      cases hr
      refine ⟨hst, .rest (fun _ hd => ?_) hl⟩
      have hd : c.outputBuffer.content = [] :=
        TcpConnection.shutdownInLoop_outputBuffer (c := c.toTcpConnection) ▸ hd
      have hw : ¬c.channel.isWriting := fun hw => (hs.inStep (by simp [hst])).mp hw hd
      exact TcpConnection.shutdownInLoop_shutWr hw
    case inr hf =>
      subst hf
      cases hr
      case forceCloseInLoop  => exact ⟨trivial, .handleClose hl⟩
      case closedBefore hst' => exact nomatch hst.symm.trans hst'
  case handleClose hl =>
    cases hr
    refine ⟨trivial, .rest (fun hd => nomatch hd) fun code hm => ?_⟩
    simp only [List.cons_append, List.nil_append, List.mem_cons] at hm
    obtain rfl | rfl | hm := hm
    · trivial
    · trivial
    · exact hl code hm
  case sendInLoop message hst hl =>
    cases hr
    case sendInLoop r _ =>
    have hse : ∀ {x : Connection θ}, x.state = (c.sendInLoop message r).1.state → x.Settled := by
      intro x hx hd
      exact nomatch hst.symm.trans (TcpConnection.sendInLoop_state.symm.trans (hx.symm.trans hd))
    refine ⟨hst, ?_⟩
    split
    case isTrue hf =>
      exact .sent (hse rfl) (TcpConnection.sendInLoop_finished hs.streams.valid hf.left).right hl
    case isFalse    => exact .rest (hse rfl) hl
  case sent    => cases hr
  case written => cases hr
  case checkState hd hl =>
    refine ⟨trivial, ?_⟩
    cases hr
    case checkState hn => exact .rest (fun hst => absurd hst hn) hl
    case checkDisconnecting hst =>
      refine .rest (fun _ _ => ?_) hl
      have hw : ¬c.channel.isWriting := fun hw => (hs.inStep (by simp [hst])).mp hw hd
      exact TcpConnection.shutdownInLoop_shutWr hw

theorem Calls.steady (hc : Calls own t c api c' codes) (h : c.Steady) : c'.Steady := by
  cases hc <;> exact ⟨⟨h.streams.valid, h.streams.bytes⟩, h.inStep, h.idle, h.opened, h.shut⟩

theorem Calls.doing (hr : Calls own own c api c' codes) (hs : c.Settled)
    (hc : ∀ code ∈ rest, code.Calm) :
    Doing own c' (codes ++ rest) ∧
      c'.accepted.map (·.2) = c.accepted.map (·.2) ++ (codes.filterMap Code.message?) ∧
      c'.ran = c.ran := by
  have hd : ∀ f, doTaskInThread own own f = .task f := fun _ => if_pos rfl
  cases hr
  case send hst       => exact hd _ ▸ ⟨.sendInLoop hst hc, by simp [Code.message?], rfl⟩
  case shutdown hst   => exact hd _ ▸ ⟨.store hst (.inl rfl) hc, (List.append_nil _).symm, rfl⟩
  case forceClose hst => exact hd _ ▸ ⟨.store hst (.inr rfl) hc, (List.append_nil _).symm, rfl⟩
  all_goals exact ⟨.rest hs hc, (List.append_nil _).symm, rfl⟩

namespace Single

theorem exec_own (h : Single own base s) (hs : s.stack t = code :: rest)
    (hr : Runs cfg base t s.conn code answer c' codes) : t = own := by
  by_contra ht
  have hm : code ∈ s.stack t := hs ▸ List.mem_cons_self
  have ⟨hcalm, hcl⟩ := (h.after.code t code hm).left ht
  have hh := h.placed.home.code t code hm
  cases hr <;> first | exact ht hh | contradiction

theorem exec (h : Single own base s) (hs : s.stack t = code :: rest)
    (hr : Runs cfg base t s.conn code answer c' codes) :
    t = own ∧ code.Fits s.conn ∧ Doing own c' (codes ++ rest) := by
  obtain rfl := h.exec_own hs hr
  have hc := (h.after.code t code (hs ▸ List.mem_cons_self)).right
  exact ⟨rfl, (hs ▸ h.doing).exec h.steady hc hr⟩

end Single

omit [DecidableEq θ] in
theorem Doing.pop (h : Doing own c (code :: rest))
    (hc : (∃ f, code = .queue f) ∨ code = .task .removeConnectionInLoop) :
    code.message? = none ∧ Doing own c rest ∧
      ∀ codes : List (Code θ), code = .task .removeConnectionInLoop → (∀ code ∈ codes, code.Calm) →
        Doing own c (codes ++ rest) := by
  have hn : code.message? = none := by
    obtain ⟨_, rfl⟩ | rfl := hc <;> rfl
  cases h
  case rest hs hl =>
    have hl : ∀ code ∈ rest, code.Calm := fun code hm => hl code (.tail _ hm)
    refine ⟨hn, .rest hs hl, fun codes _ hcodes => .rest hs fun code hm => ?_⟩
    cases List.mem_append.mp hm
    case inl hm => exact hcodes code hm
    case inr hm => exact hl code hm
  case sent hs _ hl    => exact ⟨hn, .rest hs hl, nofun⟩
  case written hd hl   => exact ⟨hn, .checkState hd hl, nofun⟩
  case called hf _     => obtain rfl | rfl := hf <;> simp at hc
  all_goals simp at hc

omit [DecidableEq θ] in
theorem Doing.queued {f : Task θ} (h : Doing own c (.queue f :: rest)) : f.Passive := by
  cases h
  case rest hl =>
    have hc := hl (.queue f) List.mem_cons_self
    cases f <;> trivial
  all_goals trivial

namespace Single

structure Kept (own : θ) (s : State θ) : Prop where
  steady : s.conn.Steady
  doing  : Doing own s.conn (s.stack own)
  ran    : s.conn.accepted.map (·.2) =
    s.conn.ran.map (·.message) ++ (s.stack own).filterMap Code.message?

theorem kept_resume (h : t ≠ own) (hs : Kept own s) :
    Kept own (s.resume t (s.conn, codes) rest) := by
  have hst : (s.resume t (s.conn, codes) rest).stack own = s.stack own := by
    simp [State.resume, Ne.symm h]
  exact ⟨hs.steady, hst ▸ hs.doing, hst ▸ hs.ran⟩

theorem kept_own {r : Connection θ × List (Code θ)} (hs : r.1.Steady)
    (hd : Doing own r.1 (r.2 ++ rest))
    (hr : r.1.accepted.map (·.2) = r.1.ran.map (·.message) ++
      (r.2 ++ rest).filterMap Code.message?) :
    Kept own (s.resume own r rest) := by
  have hst : (s.resume own r rest).stack own = r.2 ++ rest := by simp [State.resume]
  exact ⟨hs, hst ▸ hd, hst ▸ hr⟩

theorem step_kept (h : Single own base s) (hk : s.OnLoop own act) (e : Step cfg own base s act s') :
    Kept own s' := by
  cases e
  case call t api _ hc =>
    obtain rfl : t = own := hk
    have hr := call_cases t t s.conn api
    have ⟨hs, hcalm⟩ := h.doing.callable hc
    have ⟨hd, ha, hran⟩ := hr.doing hs hcalm
    refine kept_own (hr.steady h.steady) hd ?_
    rw [ha, hran, h.ran, List.filterMap_append, filterMap_calm hcalm, List.append_nil,
      List.append_nil]
  case exec t code rest answer r hs hr =>
    have hr := run_cases hr
    obtain ⟨rfl, hf, hd⟩ := h.exec hs hr
    refine kept_own (hr.steady hf h.steady) hd ?_
    rw [hr.ran.left, hr.ran.right, h.ran, hs, List.filterMap_append,
      List.filterMap_eq_nil_iff.mpr hr.message_eq_none]
    cases hm : code.message? <;> simp [hm]
  case queue t f rest hs =>
    by_cases ht : t = own
    case neg => exact kept_resume (s := s.setQueue _ _) ht ⟨h.steady, h.doing, h.ran⟩
    case pos =>
      subst ht
      have ⟨hn, hd, _⟩ := (hs ▸ h.doing).pop (.inl ⟨f, rfl⟩)
      refine kept_own (s := s.setQueue _ _) h.steady hd ?_
      rw [h.ran, hs]
      rfl
  case remove t rest hs =>
    by_cases ht : t = own
    case neg => exact kept_resume (s := { s with mapped := false }) ht ⟨h.steady, h.doing, h.ran⟩
    case pos =>
      subst ht
      have ⟨_, _, hd⟩ := (hs ▸ h.doing).pop (.inr rfl)
      refine kept_own (s := { s with mapped := false }) h.steady (hd _ rfl ?_) ?_
      · split <;> simp [Code.Calm]
      · rw [h.ran, hs]
        split <;> rfl
  case dispatch t revents hp hs =>
    obtain rfl := h.placed.phase t revents hp
    have hcalm : ∀ code ∈ (handleChannel revents : List (Code θ)), code.Calm := by
      intro code hm
      obtain rfl | rfl | rfl | rfl := mem_handleChannel hm <;> simp [Code.Calm]
    have hd := (h.doing.callable (.inl hs)).left
    refine kept_own (s := s.setPhase _ _) h.steady (.rest hd (by simpa using hcalm)) ?_
    rw [h.ran, hs, List.append_nil, filterMap_calm hcalm]
    rfl
  case task t f tasks _ hs ht =>
    by_cases hown : t = own
    case neg => exact kept_resume (s := s.setQueue _ _) hown ⟨h.steady, h.doing, h.ran⟩
    case pos =>
      subst hown
      have hp := (h.after.task t f (by simp [TaskQueue.pending, ht])).left
      have hcalm : ∀ code ∈ [Code.task f], code.Calm := by simpa [Code.Calm] using hp
      have hd := (h.doing.callable (.inl hs)).left
      refine kept_own (s := s.setQueue _ _) h.steady (.rest hd (by simpa using hcalm)) ?_
      rw [h.ran, hs, List.append_nil, filterMap_calm hcalm]
      rfl
  case poll | swap | finish => exact ⟨h.steady, h.doing, h.ran⟩

theorem step_state (h : Single own base s) (hk : s.OnLoop own act) (e : Step cfg own base s act s')
    (hs : s.conn.state = .disconnected) : s'.conn.state = .disconnected := by
  cases e
  case call => exact (call_cases ..).frame.left.trans hs
  case exec t code rest answer r hst hr =>
    have hr := run_cases hr
    obtain ⟨rfl, hf, _⟩ := h.exec hst hr
    obtain ⟨c', codes⟩ := r
    show c'.state = .disconnected
    cases hr
    case sendInLoop  => exact TcpConnection.sendInLoop_state.trans hs
    case handleWrite => exact TcpConnection.handleWrite_state.trans hs
    case shutdownInLoop | checkDisconnecting => exact TcpConnection.shutdownInLoop_state.trans hs
    case handleClose => rfl
    case store => exact absurd hs hf.right
    case connectComplete => contradiction
    all_goals exact hs
  all_goals exact hs

theorem step_after (h : Single own base s) (hk : s.OnLoop own act)
    (e : Step cfg own base s act s') :
    Everywhere (After own s'.conn) (AfterTask own s'.conn) s' := by
  have hst := h.step_state hk e
  have hnew : ∀ {code : Code θ}, ¬code.Closing → After own s'.conn own code :=
    fun hc => ⟨fun ht => absurd rfl ht, fun hc' => absurd hc' hc⟩
  refine h.after.step e ?_
  exact {
    code     := fun _ _ h => ⟨h.left, fun hc => hst (h.right hc)⟩
    task     := fun _ _ h => ⟨h.left, h.right.left, fun hc => hst (h.right.right hc)⟩
    call     := by
      rintro t api rfl code hm
      obtain rfl : t = own := hk
      exact hnew ((call_cases ..).not_closing code hm).left
    run      := by
      intro t code rest answer r _ he hs hc hr code' hm
      have hr := run_cases hr
      obtain rfl := h.exec_own hs hr
      refine ⟨fun ht => absurd rfl ht, fun hc' => ?_⟩
      cases hr.closing ⟨code', hm, hc'⟩
      case inl hcl => exact hst (hc.right hcl)
      case inr hd  => exact he ▸ hd.left
    queue    := by
      intro t f rest hs hc
      have hp : f.Passive := by
        by_cases ht : t = own
        case pos =>
          subst ht
          exact (hs ▸ h.doing).queued
        case neg =>
          have ⟨_, hcl⟩ := hc.left ht
          cases f <;> trivial
      refine ⟨hp, fun ht => ?_, fun hcl => hst (hc.right hcl)⟩
      cases f <;> trivial
    remove   := fun _ _ _ hc => ⟨fun _ => ⟨trivial, trivial⟩, fun _ => hst (hc.right trivial)⟩
    dispatch := by
      intro t revents hp code hm
      obtain rfl := h.placed.phase t revents hp
      obtain rfl | rfl | rfl | rfl := mem_handleChannel hm <;> exact hnew id
    start    := fun _ _ h => ⟨fun ht => ⟨h.left, h.right.left ht⟩, fun hc => hst (h.right.right hc)⟩
  }

theorem step (h : Single own base s) (hk : s.OnLoop own act) (e : Step cfg own base s act s') :
    Single own base s' where
  placed := h.placed.step e
  steady := (h.step_kept hk e).steady
  doing  := (h.step_kept hk e).doing
  after  := h.step_after hk e
  ran    := (h.step_kept hk e).ran

end Single

theorem owed_append {l l' : List (Code θ)} : owed (l ++ l') = owed l + owed l' :=
  List.count_append

theorem owed_cons {l : List (Code θ)} : owed (code :: l) = owed [code] + owed l :=
  owed_append (l := [code])

theorem owed_eq_zero (h : ∀ code ∈ codes, code ≠ .queue .writeComplete) : owed codes = 0 :=
  List.count_eq_zero.mpr fun hm => h _ hm rfl

omit [DecidableEq θ] in
theorem Doing.below (h : Doing own c (code :: rest)) : rest.filterMap Code.message? = [] := by
  cases h
  case rest hl => exact filterMap_calm fun code hm => hl code (.tail _ hm)
  case store f l _ hf hl =>
    rw [List.filterMap_cons, filterMap_calm hl]
    obtain rfl | rfl := hf <;> rfl
  case written l _ hl => exact filterMap_calm (l := l) hl
  all_goals exact filterMap_calm ‹_›

theorem Calls.drained (hr : Calls own t c api c' codes) :
    c.drained c' = 0 ∧ c'.blanks = c.blanks ∧ owed codes = 0 := by
  have ho : ∀ f, owed [doTaskInThread own t f] = 0 ↔ f ≠ .writeComplete ∨ t = own := by
    intro f
    by_cases ht : t = own <;> simp [doTaskInThread, ht, owed, List.count_singleton]
  cases hr
  case send message _ =>
    refine ⟨drained_of_le fun h => ?_, rfl, (ho _).mpr (.inl (by simp))⟩
    simp only [outstanding, List.map_append, size_append, droppedMessages] at h ⊢
    omega
  case shutdown | forceClose => exact ⟨drained_of_outstanding rfl, rfl, (ho _).mpr (.inl (by simp))⟩
  all_goals exact ⟨drained_of_outstanding rfl, rfl, rfl⟩

theorem Single.step_writes (h : Single own base s) (hk : s.OnLoop own act)
    (e : Step cfg own base s act s') :
    (cfg.writeComplete → (s.writes act s').1 + owed (s'.stack own) + s.conn.blanks =
      owed (s.stack own) + (s.writes act s').2 + s'.conn.blanks) ∧
    (¬cfg.writeComplete → (s.writes act s').1 + owed (s'.stack own) = owed (s.stack own)) := by
  -- A step of another kind than a run or a call leaves the connection as it is.
  have hsame : ∀ {s' : State θ}, s'.conn = s.conn →
      s.queues act + owed (s'.stack own) = owed (s.stack own) →
      (cfg.writeComplete → (s.writes act s').1 + owed (s'.stack own) + s.conn.blanks =
        owed (s.stack own) + (s.writes act s').2 + s'.conn.blanks) ∧
      (¬cfg.writeComplete → (s.writes act s').1 + owed (s'.stack own) = owed (s.stack own)) := by
    intro s' hc hq
    simp only [State.writes, hc, drained_of_outstanding rfl, hq]
    simp
  have hown : ∀ {s : State θ} {r : Connection θ × List (Code θ)} {rest : List (Code θ)},
      owed ((s.resume own r rest).stack own) = owed r.2 + owed rest := by
    intro s r rest
    simp [State.resume, owed_append]
  cases e
  case call t api _ hc =>
    obtain rfl : t = own := hk
    obtain ⟨hd, hb, ho⟩ := (call_cases t t s.conn api).drained
    rw [hown, ho]
    simp only [State.writes, State.queues, State.resume, hd, hb]
    simp
  case exec t code rest answer r hs hr =>
    have hr := run_cases hr
    obtain ⟨rfl, hf, _⟩ := h.exec hs hr
    have hdo := hs ▸ h.doing
    have ha : s.conn.accepted.map (·.2) = s.conn.ran.map (·.message) ++ code.message?.toList := by
      rw [h.ran, hs, List.filterMap_cons, hdo.below]
      cases code.message? <;> rfl
    have hq : owed [code] = 0 := owed_eq_zero fun code' hm he => by
      obtain rfl := List.mem_singleton.mp hm
      subst he
      cases hr
    have ho : owed (code :: rest) = owed rest := by
      rw [owed_cons, hq, Nat.zero_add]
    have hw := hr.wrote hf h.steady ha
    rw [hown, hs, ho]
    simp only [State.writes, State.queues, State.resume, hs, List.head?_cons,
      Option.toList_some, hq]
    exact ⟨fun hc => by have := hw.left hc; omega,
      fun hc => by rw [hw.right hc, Nat.zero_add, Nat.zero_add]⟩
  case queue t f rest hs =>
    refine hsame rfl ?_
    rw [State.queues, hs, List.head?_cons, Option.toList_some]
    by_cases ht : t = own
    case pos =>
      subst ht
      rw [hown, hs]
      exact (congrArg (owed [Code.queue f] + ·) (Nat.zero_add _)).trans owed_cons.symm
    case neg =>
      obtain ⟨_, hcl⟩ := (h.after.code t (.queue f) (hs ▸ List.mem_cons_self)).left ht
      have hf : owed [Code.queue f] = 0 := owed_eq_zero fun code hm => by
        obtain rfl := List.mem_singleton.mp hm
        rintro ⟨⟩
        exact hcl
      rw [hf, Nat.zero_add]
      simp [State.resume, State.setQueue, Ne.symm ht]
  case remove t rest hs =>
    refine hsame rfl ?_
    have hq : owed [Code.task (.removeConnectionInLoop : Task θ)] = 0 := rfl
    rw [State.queues, hs, List.head?_cons, Option.toList_some, hq, Nat.zero_add]
    by_cases ht : t = own
    case neg => simp [State.resume, Ne.symm ht]
    case pos =>
      subst ht
      rw [hown, hs, owed_cons, hq]
      dsimp only
      split <;> rfl
  case dispatch t revents hp hs =>
    obtain rfl := h.placed.phase t revents hp
    refine hsame rfl ?_
    rw [hown, hs, owed_eq_zero]
    · rfl
    · intro code hm
      obtain rfl | rfl | rfl | rfl := mem_handleChannel hm <;> simp
  case task t f tasks _ hs ht =>
    refine hsame rfl ?_
    by_cases hto : t = own
    case neg => simp [State.queues, State.resume, State.setQueue, Ne.symm hto]
    case pos =>
      subst hto
      rw [hown, hs]
      rfl
  case poll | swap | finish => exact hsame rfl (Nat.zero_add _)

theorem Initial.single (h : Initial own s) : Single own base s where
  placed := h.placed
  steady := by
    have ⟨initSize, fd, hc⟩ := h.conn
    rw [hc]
    have hb : (Buffer.new initSize).content = [] := Buffer.new_content initSize
    have hw : ¬(Watch.new fd).enableReading.isWriting := by
      simp [Watch.isWriting, Watch.enableReading, Watch.new, Watch.update]
      decide
    exact {
      streams := hc ▸ h.streaming
      inStep  := fun _ => ⟨fun hd => absurd hd hw, fun hn => absurd hb hn⟩
      idle    := fun hs => by cases hs
      opened  := fun _ hs => by cases hs
      shut    := fun _ hs => by cases hs
    }
  doing  := by
    have ⟨initSize, fd, hc⟩ := h.conn
    rw [h.stack, hc, Function.update_self]
    exact .rest (fun hs => by cases hs) (by simp [Code.Calm])
  after  := by
    constructor
    · intro t code hm
      rw [h.stack] at hm
      by_cases ht : t = own
      case pos =>
        subst ht
        obtain rfl : code = .callback .connect false := by simpa using hm
        exact ⟨fun ht => absurd rfl ht, fun hc => by cases hc⟩
      case neg => simp [ht] at hm
    · simp [h.queue, TaskQueue.pending, TaskQueue.empty]
  ran    := by
    have ⟨initSize, fd, hc⟩ := h.conn
    rw [h.stack, hc, Function.update_self]
    rfl

-- Write interest, the output buffer, the write-complete tasks and the end of the stream, between
-- the steps of a run. The last of them is about the states in which no call and no handler is half
-- done.
structure WritesInStep (own : θ) (s : State θ) : Prop where
  writing  : s.conn.state ≠ .disconnected →
    (s.conn.channel.isWriting ↔ 0 < s.conn.outputBuffer.readableBytes)
  handed   : ∀ t rest, s.stack t = .queue .writeComplete :: rest → s.conn.Handed
  drained  : ∀ t code rest, s.stack t = code :: rest → ShutsDown s.conn code →
    ¬s.conn.channel.isWriting →
    s.conn.outputBuffer.readableBytes = 0
  shutdown : s.Callable own → s.conn.state = .disconnecting →
    (s.conn.socket.shutWr ↔ s.conn.outputBuffer.readableBytes = 0)

namespace Single

theorem writesInStep (h : Single own base s) : WritesInStep own s where
  writing hs := by
    rw [← h.steady.streams.valid.length_content, List.length_pos_iff]
    exact h.steady.inStep hs
  handed t rest hs := by
    by_cases ht : t = own
    case neg =>
      have ⟨_, hc⟩ := (h.after.code t (.queue .writeComplete) (hs ▸ List.mem_cons_self)).left ht
      contradiction
    case pos =>
      subst ht
      have hd := hs ▸ h.doing
      have hc : s.conn.outputBuffer.content = [] := by
        cases hd
        case rest hl      => exact absurd (hl _ List.mem_cons_self) id
        case sent hc _    => exact hc
        case written hc _ => exact hc
      refine ⟨?_, ?_⟩
      · rw [h.ran, hs, List.filterMap_cons, hd.below]
        exact (List.append_nil _).symm
      · have hb := h.steady.streams.bytes
        rwa [hc, List.append_nil] at hb
  drained t code rest hs hd hw := by
    rw [← h.steady.streams.valid.length_content, List.length_eq_zero_iff]
    by_cases ht : t = own
    case neg =>
      have ⟨_, hc⟩ := (h.after.code t code (hs ▸ List.mem_cons_self)).left ht
      obtain ⟨_, rfl⟩ | ⟨rfl, _⟩ := hd <;> contradiction
    case pos =>
      subst ht
      refine not_not.mp fun hn => hw ((h.steady.inStep fun hst => ?_).mpr hn)
      have hdo := hs ▸ h.doing
      obtain ⟨_, rfl⟩ | ⟨rfl, hd⟩ := hd
      · cases hdo
        case rest hl         => exact absurd (hl _ List.mem_cons_self) id
        case called hst' _ _ => exact nomatch hst.symm.trans hst'
      · exact nomatch hst.symm.trans hd
  shutdown hc hs := by
    rw [← h.steady.streams.valid.length_content, List.length_eq_zero_iff]
    exact ⟨h.steady.shut (by simp [hs]), (h.doing.callable hc).left hs⟩

end Single

theorem run_single {acts : List (Act θ)} (hi : Initial own s₀)
    (e : Steps (Steps.When (State.OnLoop own) (Step cfg own base)) s₀ acts s) :
    Single own base s := by
  have hp : ∀ {s₁ a s₂}, Single own base s₁ →
      Steps.When (State.OnLoop own) (Step cfg own base) s₁ a s₂ →
      Single own base s₂ := fun h e => h.step e.left e.right
  exact e.invariant (P := Single own base) hp hi.single

def Tallied (cfg : Callbacks) (own base : θ) (x : State θ × (Nat × Nat)) : Prop :=
  Single own base x.1 ∧
    x.2.1 + owed (x.1.stack own) = if cfg.writeComplete then x.2.2 + x.1.conn.blanks else 0

theorem Tallied.step {x₁ x₂ : State θ × (Nat × Nat)} (h : Tallied cfg own base x₁)
    (e : Steps.Tally State.writes (Steps.When (State.OnLoop own) (Step cfg own base)) x₁ act x₂) :
    Tallied cfg own base x₂ := by
  obtain ⟨⟨hk, e⟩, hn⟩ := e
  refine ⟨h.left.step hk e, ?_⟩
  have ⟨hw, hnw⟩ := h.left.step_writes hk e
  have hs := h.right
  rw [hn, Prod.fst_add, Prod.snd_add]
  by_cases hc : cfg.writeComplete
  case pos =>
    have hw := hw hc
    rw [if_pos hc] at hs ⊢
    omega
  case neg =>
    have hw := hnw hc
    rw [if_neg hc] at hs ⊢
    omega

-- With the calls of the user on the loop's thread, these keep in step. In each run, the
-- write-complete tasks that have been queued are as many as the ends of the outstanding bytes, with
-- one more for each empty message that has been sent, and with one less if the last one is about to
-- be queued.
theorem writes_of_run (hi : Initial own s₀) :
    (∀ acts s, Steps (Steps.When (State.OnLoop own) (Step cfg own base)) s₀ acts s →
      WritesInStep own s) ∧
    (∀ acts s n,
      Steps (Steps.Tally State.writes (Steps.When (State.OnLoop own) (Step cfg own base)))
        (s₀, (0, 0)) acts (s, n) →
      n.1 + owed (s.stack own) = if cfg.writeComplete then n.2 + s.conn.blanks else 0) where
  left _ _ e := (run_single hi e).writesInStep
  right _ s n e := by
    have h₀ : Tallied cfg own base (s₀, (0, 0)) := by
      have ⟨initSize, fd, hc⟩ := hi.conn
      refine ⟨hi.single, ?_⟩
      rw [hi.stack, hc, Function.update_self]
      split <;> rfl
    exact (e.invariant (P := Tallied cfg own base) Tallied.step h₀).right

-- A message that meets an error of the peer is gone. No write-complete task is queued for it, and
-- one is queued for the next message that can be sent.
theorem not_written_of_dropped :
    ∃ s s', Steps (Steps.When (State.OnLoop false) (Step ⟨true, true, true, true⟩ false false))
        (State.new false 8 5 : State Bool)
        [.exec false .none, .call false (.send [1]), .exec false (.sent ⟨-1, .EPIPE⟩)] s ∧
      Steps (Steps.When (State.OnLoop false) (Step ⟨true, true, true, true⟩ false false)) s
        [.call false (.send [2]), .exec false (.sent ⟨1, .other⟩), .exec false .none] s' ∧
      s.conn.state = .connected ∧ s.conn.accepted = [(false, [1])] ∧ s.conn.socket.wire = [] ∧
      s.conn.outputBuffer.readableBytes = 0 ∧ s.stack false = [.user] ∧
      (s.queue false).pending = [] ∧
      s'.conn.state = .connected ∧ s'.conn.accepted = [(false, [1]), (false, [2])] ∧
      s'.conn.socket.wire = [2] ∧ (s'.queue false).pending = [.writeComplete] := by
  refine ⟨_, _, State.steps_of_guard ?_, State.steps_of_guard ?_, ?_⟩
  all_goals decide +kernel

theorem writes_of_two_parts :
    ∃ s, Steps (Steps.When (State.OnLoop false) (Step ⟨true, true, true, true⟩ false false))
      (State.new false 8 5 : State Bool)
      [.exec false .none, .call false (.send [1, 2]), .exec false (.sent ⟨1, .other⟩),
        .call false .shutdown, .exec false .none, .exec false .none, .exec false .none, .swap false,
        .finish false, .poll false (some Events.POLLOUT), .dispatch false,
        .exec false (.sent ⟨1, .other⟩)] s ∧
      s.stack false = [.queue .writeComplete, .checkState] ∧ WritesInStep false s ∧
      ∃ n : Nat × Nat, n.1 + owed (s.stack false) = n.2 + s.conn.blanks := by
  have ⟨s, e, hs⟩ : ∃ s,
      Steps (Steps.When (State.OnLoop false) (Step ⟨true, true, true, true⟩ false false))
      (State.new false 8 5 : State Bool)
      [.exec false .none, .call false (.send [1, 2]), .exec false (.sent ⟨1, .other⟩),
        .call false .shutdown, .exec false .none, .exec false .none, .exec false .none, .swap false,
        .finish false, .poll false (some Events.POLLOUT), .dispatch false,
        .exec false (.sent ⟨1, .other⟩)] s ∧
      s.stack false = [.queue .writeComplete, .checkState] := by
    refine ⟨_, State.steps_of_guard ?_, ?_⟩
    all_goals decide +kernel
  have ⟨n, e'⟩ := e.tally State.writes (0, 0)
  exact ⟨s, e, hs, (writes_of_run State.new_initial).left _ s e,
    n, (writes_of_run State.new_initial).right _ s n e'⟩

end Bounce.Connection
