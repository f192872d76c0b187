import Bounce.Execution.Connection.Theorems.InStep

namespace Bounce

namespace TcpConnection

variable {c : TcpConnection} {bytes message : List Byte} {r : Sent}

theorem keep_wire : (c.keep bytes).socket.wire = c.socket.wire := by
  rw [keep]
  split <;> rfl

theorem keep_inputBuffer : (c.keep bytes).inputBuffer = c.inputBuffer := by
  rw [keep]
  split <;> rfl

theorem sendInLoop_inputBuffer : (c.sendInLoop message r).1.inputBuffer = c.inputBuffer := by
  have ⟨_, _, hk⟩ := @sendInLoop_keep c message r
  obtain hk | ⟨_, hk⟩ := hk <;> rw [hk]
  exact keep_inputBuffer

theorem handleWrite_inputBuffer : (c.handleWrite r).1.inputBuffer = c.inputBuffer := by
  simp only [handleWrite]
  split
  case isTrue  => split <;> rfl
  case isFalse => rfl

theorem shutdownInLoop_inputBuffer : c.shutdownInLoop.inputBuffer = c.inputBuffer := by
  rw [shutdownInLoop]
  split <;> rfl

theorem sendInLoop_wire : ∃ bytes, (c.sendInLoop message r).1.socket.wire = c.socket.wire ++ bytes ∧
    (r.ret ≤ 0 → bytes = []) := by
  have hn : ∃ bytes : List Byte, c.socket.wire = c.socket.wire ++ bytes ∧
      (r.ret ≤ 0 → bytes = []) :=
    ⟨[], (List.append_nil _).symm, fun _ => rfl⟩
  have hs : ∃ bytes, (c.socket.send message r).wire = c.socket.wire ++ bytes ∧
      (r.ret ≤ 0 → bytes = []) :=
    ⟨_, rfl, fun hr => by rw [Int.toNat_of_nonpos hr, List.take_zero]⟩
  simp only [sendInLoop]
  split
  case isTrue => exact hn
  case isFalse =>
    split
    case isFalse => rwa [keep_wire]
    case isTrue =>
      split
      case isTrue => exact hs
      case isFalse =>
        split
        case isTrue => rwa [keep_wire]
        case isFalse =>
          split
          case isTrue  => exact hs
          case isFalse => rwa [keep_wire]

theorem handleWrite_wire : ∃ bytes, (c.handleWrite r).1.socket.wire = c.socket.wire ++ bytes ∧
    (r.ret ≤ 0 → bytes = []) := by
  simp only [handleWrite]
  split
  case isFalse => exact ⟨[], (List.append_nil _).symm, fun _ => rfl⟩
  case isTrue hr =>
    split
    all_goals exact ⟨_, rfl, fun hn => absurd hr.right (Int.not_lt.mpr hn)⟩

end TcpConnection

namespace Connection.Act

variable {θ : Type}

-- What `::readv` answers in a step, with `ended` for the end of the stream, and what the user takes
-- from the input buffer.
def received : Act θ → List Byte
  | .exec _ (.read (.received bytes)) => bytes
  | _                                 => []

def ended : Act θ → Bool
  | .exec _ (.read (.received [])) => true
  | _                              => false

def taken (c : Connection θ) : Act θ → List Byte
  | .call _ (.retrieve len) => c.inputBuffer.content.take len
  | _                       => []

theorem received_cases (act : Act θ) : act.received = [] ∧ act.ended = false ∨
    (∃ t, act = .exec t (.read (.received []))) ∨
    ∃ t b bytes, act = .exec t (.read (.received (b :: bytes))) := by
  cases act
  case exec t answer =>
    cases answer
    case read r =>
      cases r
      case error => exact .inl ⟨rfl, rfl⟩
      case received bytes =>
        cases bytes
        case nil  => exact .inr (.inl ⟨t, rfl⟩)
        case cons => exact .inr (.inr ⟨t, _, _, rfl⟩)
    all_goals exact .inl ⟨rfl, rfl⟩
  all_goals exact .inl ⟨rfl, rfl⟩

end Connection.Act

open Connection (Act Runs Calls Code Answer Api Single Initial Handed keptBytes)

structure Peer (θ : Type) where
  state    : Connection.State θ
  received : List Byte
  taken    : List Byte
  ended    : Bool

namespace Peer

variable {θ : Type} [DecidableEq θ]

def new (s : Connection.State θ) : Peer θ where
  state    := s
  received := []
  taken    := []
  ended    := false

def next (p : Peer θ) (act : Act θ) (s : Connection.State θ) : Peer θ where
  state    := s
  received := p.received ++ act.received
  taken    := p.taken ++ act.taken p.state.conn
  ended    := p.ended || act.ended

def Step (cfg : Callbacks) (own base : θ) (p₁ : Peer θ) (act : Act θ) (p₂ : Peer θ) : Prop :=
  p₁.state.OnLoop own act ∧ Connection.Step cfg own base p₁.state act p₂.state ∧
  p₂ = p₁.next act p₂.state

variable {cfg : Callbacks} {own base t : θ} {p p₁ p₂ : Peer θ} {act : Act θ} {c c' : Connection θ}
variable {code : Code θ} {codes rest : List (Code θ)} {answer : Answer} {api : Api}

def step (cfg : Callbacks) (own base : θ) (p : Peer θ) (act : Act θ) : Option (Peer θ) :=
  if p.state.OnLoop own act then (p.state.step cfg own base act).map (p.next act) else none

theorem step_sound (h : p₁.step cfg own base act = some p₂) : Step cfg own base p₁ act p₂ := by
  rw [step] at h
  split at h
  case isFalse   => contradiction
  case isTrue hk =>
    obtain ⟨s, hs, rfl⟩ := Option.map_eq_some_iff.mp h
    exact ⟨hk, Connection.State.step_sound hs, rfl⟩

theorem runs_input (hr : Runs cfg base t c code answer c' codes) (hv : c.inputBuffer.Valid) :
    c'.inputBuffer.Valid ∧
      c'.inputBuffer.content = c.inputBuffer.content ++ (Act.exec t answer).received := by
  have hn : c'.inputBuffer = c.inputBuffer → (Act.exec t answer).received = [] →
      c'.inputBuffer.Valid ∧ c'.inputBuffer.content =
        c.inputBuffer.content ++ (Act.exec t answer).received := by
    intro hc ha
    rw [hc, ha, List.append_nil]
    exact ⟨hv, rfl⟩
  have hd : ∀ {r : Readv}, (c.inputBuffer.readFd r).Valid ∧
      (c.inputBuffer.readFd r).content = c.inputBuffer.content ++
        (Act.exec t (.read r)).received := by
    intro r
    cases r
    case error    => exact ⟨hv, (List.append_nil _).symm⟩
    case received => exact Buffer.readFd_received hv
  cases hr
  case sendInLoop     => exact hn TcpConnection.sendInLoop_inputBuffer rfl
  case handleWrite    => exact hn TcpConnection.handleWrite_inputBuffer rfl
  case shutdownInLoop | checkDisconnecting => exact hn TcpConnection.shutdownInLoop_inputBuffer rfl
  case handleRead | handleEnd | handleReadError => exact hd
  all_goals exact hn rfl rfl

theorem calls_input (hc : Calls own t c api c' codes) (hv : c.inputBuffer.Valid) :
    c'.inputBuffer.Valid ∧
      c.inputBuffer.content = (Act.call t api).taken c ++ c'.inputBuffer.content := by
  cases hc
  case retrieve len =>
    refine ⟨Buffer.retrieve_valid hv len, ?_⟩
    rw [Buffer.retrieve_content hv]
    exact (List.take_append_drop len _).symm
  all_goals exact ⟨hv, rfl⟩

def Closed (c : Connection θ) : Prop :=
  c.socket.shutWr → c.outputBuffer.content = [] ∧ c.ran.map (·.message) = c.accepted.map (·.2)

structure Kept (own base : θ) (p : Peer θ) : Prop where
  single : Single own base p.state
  valid  : p.state.conn.inputBuffer.Valid
  input  : p.received = p.taken ++ p.state.conn.inputBuffer.content
  closed : Closed p.state.conn

theorem step_input {s s' : Connection.State θ} (e : Connection.Step cfg own base s act s')
    (hv : s.conn.inputBuffer.Valid) :
    s'.conn.inputBuffer.Valid ∧
      s.conn.inputBuffer.content ++ act.received =
        act.taken s.conn ++ s'.conn.inputBuffer.content := by
  have hn : ∀ {act : Act θ}, act.received = [] → act.taken s.conn = [] →
      s.conn.inputBuffer.Valid ∧
        s.conn.inputBuffer.content ++ act.received =
          act.taken s.conn ++ s.conn.inputBuffer.content := by
    intro act hr ht
    rw [hr, ht, List.append_nil]
    exact ⟨hv, rfl⟩
  cases e
  case call t api _ _ =>
    have ⟨hv, hc⟩ := calls_input (Connection.call_cases own t s.conn api) hv
    exact ⟨hv, (List.append_nil _).trans hc⟩
  case exec hs hr =>
    have ⟨hv, hc⟩ := runs_input (Connection.run_cases hr) hv
    exact ⟨hv, hc.symm⟩
  all_goals exact hn rfl rfl

theorem step_wire {s s' : Connection.State θ} (e : Connection.Step cfg own base s act s') :
    ∃ bytes, s'.conn.socket.wire = s.conn.socket.wire ++ bytes ∧
      ((∀ t r, act = .exec t (.sent r) → r.ret ≤ 0) → bytes = []) := by
  have hn : ∀ {c' : Connection θ} {act : Act θ}, c'.socket.wire = s.conn.socket.wire →
      ∃ bytes, c'.socket.wire = s.conn.socket.wire ++ bytes ∧
        ((∀ t r, act = .exec t (.sent r) → r.ret ≤ 0) → bytes = []) :=
    fun hw => ⟨[], by rw [hw, List.append_nil], fun _ => rfl⟩
  cases e
  case call t api _ _ =>
    exact hn (congrArg Socket.wire (Connection.call_cases own t s.conn api).frame.right.left)
  case exec t code rest answer r hs hr =>
    have hr := Connection.run_cases hr
    obtain ⟨c', codes⟩ := r
    cases hr
    case sendInLoop message origin r _ =>
      obtain ⟨bytes, hw, hb⟩ := @TcpConnection.sendInLoop_wire s.conn.toTcpConnection message r
      exact ⟨bytes, hw, fun ha => hb (ha _ _ rfl)⟩
    case handleWrite r _ =>
      obtain ⟨bytes, hw, hb⟩ := @TcpConnection.handleWrite_wire s.conn.toTcpConnection r
      exact ⟨bytes, hw, fun ha => hb (ha _ _ rfl)⟩
    case shutdownInLoop | checkDisconnecting => exact hn TcpConnection.shutdownInLoop_wire
    all_goals exact hn rfl
  all_goals exact hn rfl

theorem step_shutWr {s s' : Connection.State θ} (e : Connection.Step cfg own base s act s')
    (hs : s.conn.socket.shutWr) : s'.conn.socket.shutWr := by
  cases e
  case call t api _ _ =>
    have hc := (Connection.call_cases own t s.conn api).frame.right.left
    exact (congrArg Socket.shutWr hc).trans hs
  case exec t code rest answer r _ hr =>
    have hr := Connection.run_cases hr
    obtain ⟨c', codes⟩ := r
    cases hr
    case sendInLoop  => exact TcpConnection.sendInLoop_shutWr.trans hs
    case handleWrite => exact TcpConnection.handleWrite_shutWr.trans hs
    case shutdownInLoop | checkDisconnecting =>
      have hn : s.conn.shutdownInLoop.socket.shutWr := by
        rw [TcpConnection.shutdownInLoop]
        split
        case isTrue  => rfl
        case isFalse => exact hs
      exact hn
    all_goals exact hs
  all_goals exact hs

omit [DecidableEq θ] in
theorem messages_eq_nil {l : List (Code θ)} (h : Connection.Doing own c l)
    (hs : c.state ≠ .connected) :
    l.filterMap Code.message? = [] := by
  cases h
  case rest hl           => exact Connection.filterMap_calm hl
  case sendInLoop hc _   => exact absurd hc hs
  case store l _ hf hl   => obtain rfl | rfl := hf <;> exact Connection.filterMap_calm (l := l) hl
  case called l _ hf hl  => obtain rfl | rfl := hf <;> exact Connection.filterMap_calm (l := l) hl
  case handleClose l hl  => exact Connection.filterMap_calm (l := l) hl
  case sent l _ _ hl     => exact Connection.filterMap_calm (l := l) hl
  case written l _ hl    => exact Connection.filterMap_calm (l := l) hl
  case checkState l _ hl => exact Connection.filterMap_calm (l := l) hl

theorem runs_shut (hr : Runs cfg base t c code answer c' codes) (hf : code.Fits c) (hs : c.Steady)
    (h : Closed c) (hc : c'.socket.shutWr) (hd : c'.state = .disconnected) :
    c'.outputBuffer.content = [] ∧ c'.ran.map (·.message) = c'.accepted.map (·.2) := by
  cases hr
  case sendInLoop =>
    exact absurd (TcpConnection.sendInLoop_shutWr (c := c.toTcpConnection) ▸ hc) (hs.opened hf)
  case handleWrite =>
    have h := h (TcpConnection.handleWrite_shutWr (c := c.toTcpConnection) ▸ hc)
    exact ⟨TcpConnection.handleWrite_drained hs.streams.valid h.left, h.right⟩
  case shutdownInLoop =>
    have hst : c.state = .disconnecting := hf
    exact nomatch hst.symm.trans (TcpConnection.shutdownInLoop_state.symm.trans hd)
  case checkDisconnecting hst =>
    exact nomatch hst.symm.trans (TcpConnection.shutdownInLoop_state.symm.trans hd)
  all_goals exact h hc

theorem calls_closed (hr : Calls own t c api c' codes) (hc : Closed c)
    (hn : c'.state ≠ .connected) :
    Closed c' := by
  cases hr
  case send hs => exact absurd hs hn
  all_goals exact hc

theorem step_closed {s s' : Connection.State θ} (h : Single own base s) (h' : Single own base s')
    (hc : Closed s.conn) (hk : s.OnLoop own act) (e : Connection.Step cfg own base s act s') :
    Closed s'.conn := by
  intro hs
  by_cases hd : s'.conn.state = .disconnected
  case neg =>
    have hn : s'.conn.state ≠ .connected := fun hc => h'.steady.opened hc hs
    refine ⟨h'.steady.shut hd hs, ?_⟩
    rw [h'.ran, messages_eq_nil h'.doing hn, List.append_nil]
  case pos =>
    cases e
    case exec hst hr =>
      have hr := Connection.run_cases hr
      exact runs_shut hr (h.exec hst hr).right.left h.steady hc hs hd
    case call t api _ _ =>
      exact calls_closed (Connection.call_cases own t s.conn api) hc
        (fun hn => nomatch hd.symm.trans hn) hs
    all_goals exact hc hs

namespace Kept

theorem step (h : Kept own base p₁) (e : Step cfg own base p₁ act p₂) : Kept own base p₂ := by
  obtain ⟨hk, e, hp⟩ := e
  have ⟨hv, hi⟩ := step_input e h.valid
  have hs := h.single.step hk e
  refine ⟨hs, hv, ?_, step_closed h.single hs h.closed hk e⟩
  calc
    p₂.received = p₁.received ++ act.received := congrArg Peer.received hp
    _           = p₁.taken ++ act.taken p₁.state.conn ++ p₂.state.conn.inputBuffer.content := by
      rw [h.input, List.append_assoc, hi, List.append_assoc]
    _           = p₂.taken ++ p₂.state.conn.inputBuffer.content := by
      rw [congrArg Peer.taken hp]
      rfl

end Kept

theorem new_kept {s : Connection.State θ} (h : Initial own s) : Kept own base (new s) where
  single := h.single
  valid  := by
    have ⟨initSize, fd, hc⟩ := h.conn
    rw [new, hc]
    exact Buffer.new_valid initSize
  input  := by
    have ⟨initSize, fd, hc⟩ := h.conn
    rw [new, hc]
    exact (Buffer.new_content initSize).symm
  closed := by
    have ⟨initSize, fd, hc⟩ := h.conn
    rw [Closed, new, hc]
    exact fun hs => nomatch hs

end Peer
end Bounce
