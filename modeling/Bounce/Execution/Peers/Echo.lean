import Mathlib.Data.List.Flatten
import Bounce.Execution.Connection.Theorems.Lifetime
import Bounce.Execution.Peers.Joined

namespace Bounce.Echo

open Connection (Act Answer Code Api Message Initial Runs Calls Single keptBytes)
open Bounce.Joined (Program Pair Event)

variable {θ : Type} [DecidableEq θ]

-- Where the message callback of an echo server is, which is
-- `conn->send(buffer->readAllAsString())`: it is not running, it has been called, or it is in front
-- of `send`, with the string that it has read.
inductive Place
  | idle
  | called
  | read (message : Message)
  deriving DecidableEq

def Place.held : Place → Message
  | .read message => message
  | _             => []

-- The steps of an end whose user does nothing but to echo. The string is read by `retrieve`, which
-- does to the buffer what `readAllAsString` does.
inductive Step (cfg : Callbacks) (own base : θ) : Peer θ × Place → Act θ → Peer θ × Place → Prop
  | callback {p p' answer guarded rest} :
    p.state.stack own = .callback .message guarded :: rest →
    Peer.Step cfg own base p (.exec own answer) p' →
    Step cfg own base (p, .idle) (.exec own answer) (p', .called)
  | readAllAsString {p p'} :
    Peer.Step cfg own base p (.call own (.retrieve p.state.conn.inputBuffer.readableBytes)) p' →
    Step cfg own base (p, .called) (.call own (.retrieve p.state.conn.inputBuffer.readableBytes))
      (p', .read p.state.conn.inputBuffer.readAllAsString.2)
  | send {p p' message} :
    Peer.Step cfg own base p (.call own (.send message)) p' →
    Step cfg own base (p, .read message) (.call own (.send message)) (p', .idle)
  | other {p p' act place} :
    (∀ t api, act ≠ .call t api) →
    (act.thread = own →
      place = .idle ∧ ∀ guarded rest, p.state.stack own ≠ .callback .message guarded :: rest) →
    Peer.Step cfg own base p act p' → Step cfg own base (p, place) act (p', place)

variable {cfg : Callbacks} {own base t : θ} {p p' : Peer θ} {x x' : Peer θ × Place} {act : Act θ}
variable {c c' : Connection θ} {code : Code θ} {codes rest : List (Code θ)} {answer : Answer}

def echoed (c : Connection θ) : List Byte :=
  (c.accepted.map (·.2)).flatten

def Place.next (own : θ) (p : Peer θ) : Place → Act θ → Option Place
  | .called, .call _ (.retrieve len) =>
    if len = p.state.conn.inputBuffer.readableBytes then
      some (.read p.state.conn.inputBuffer.readAllAsString.2)
    else none
  | .read message, .call _ (.send message') => if message' = message then some .idle else none
  | _, .call _ _                            => none
  | place, act                              =>
    if act.thread ≠ own then some place
    else if place ≠ .idle then none
    else match p.state.stack own with
      | .callback .message _ :: _ => some .called
      | _                         => some .idle

def step (cfg : Callbacks) (own base : θ) (x : Peer θ × Place) (act : Act θ) :
    Option (Peer θ × Place) :=
  (x.2.next own x.1 act).bind fun place => (x.1.step cfg own base act).map (·, place)

theorem exec_of_callback {s s' : Connection.State θ} {cb : Callback} {guarded : Bool}
    (hs : s.stack act.thread = .callback cb guarded :: rest)
    (e : Connection.Step cfg own base s act s') :
    ∃ answer, act = .exec act.thread answer := by
  cases e
  case exec | queue | remove => exact ⟨_, rfl⟩
  case call hc => obtain hc | ⟨_, hc⟩ := hc <;> cases hs.symm.trans hc
  all_goals
    rw [Act.thread] at hs
    simp_all

theorem step_of_next {place place' : Place} (hn : place.next own p act = some place')
    (e : Peer.Step cfg own base p act p') : Step cfg own base (p, place) act (p', place') := by
  rw [Place.next.eq_def] at hn
  split at hn
  case h_1 =>
    obtain ⟨rfl, h⟩ := Option.ite_none_right_eq_some.mp hn
    obtain rfl := Option.some.inj h
    obtain rfl := e.left
    exact .readAllAsString e
  case h_2 =>
    obtain ⟨rfl, h⟩ := Option.ite_none_right_eq_some.mp hn
    obtain rfl := Option.some.inj h
    obtain rfl := e.left
    exact .send e
  case h_3 => contradiction
  case h_4 hc _ _ =>
    split at hn
    case isTrue ht =>
      obtain rfl := Option.some.inj hn
      exact .other hc (fun h => absurd h ht) e
    case isFalse ht =>
      obtain rfl := not_not.mp ht
      obtain ⟨hp, h⟩ := Option.ite_none_left_eq_some.mp hn
      obtain rfl := not_not.mp hp
      split at h
      case h_1 hs =>
        obtain rfl := Option.some.inj h
        obtain ⟨answer, ha⟩ := exec_of_callback hs e.right.left
        rw [ha] at e ⊢
        exact .callback hs e
      case h_2 hs =>
        obtain rfl := Option.some.inj h
        exact .other hc (fun _ => ⟨rfl, hs⟩) e

theorem step_sound (h : Steps.Of (step cfg own base) x act x') : Step cfg own base x act x' := by
  obtain ⟨place, hn, h⟩ := Option.bind_eq_some_iff.mp h
  obtain ⟨p, hp, rfl⟩ := Option.map_eq_some_iff.mp h
  exact step_of_next hn (Peer.step_sound hp)

-- What holds of an echo between its steps. What it has not sent yet is in the string or in the
-- input buffer, where the message callback is about to be called, or has been called, if there is
-- something.
structure Echoing (own base : θ) (x : Peer θ × Place) : Prop where
  kept    : Peer.Kept own base x.1
  running : x.2 ≠ .idle → ∃ rest, x.1.state.stack own = .user :: rest
  input   : x.1.state.conn.inputBuffer.content ≠ [] →
    x.2 = .called ∨ x.2 = .idle ∧ ∃ rest, x.1.state.stack own = .callback .message true :: rest
  sent    : x.1.state.conn.state = .connected → x.1.taken = echoed x.1.state.conn ++ x.2.held
  before  : echoed x.1.state.conn <+: x.1.taken

omit [DecidableEq θ] in
theorem readAllAsString_retrieve (b : Buffer) :
    b.readAllAsString.1 = b.retrieve b.readableBytes := by
  simp [Buffer.readAllAsString, Buffer.readAsString, Buffer.retrieve]

theorem runs_connected (hr : Runs cfg base t c code answer c' codes) (hf : code.Fits c)
    (hs : c'.state = .connected) : c.state = .connected := by
  cases hr
  case connectComplete => contradiction
  case store           => exact nomatch hf.left.symm.trans hs
  case handleClose     => contradiction
  case sendInLoop      => exact TcpConnection.sendInLoop_state.symm.trans hs
  case handleWrite     => exact TcpConnection.handleWrite_state.symm.trans hs
  case shutdownInLoop | checkDisconnecting => exact TcpConnection.shutdownInLoop_state.symm.trans hs
  all_goals exact hs

section Steps

variable {s s' : Connection.State θ}

theorem step_silent (h : Single own base s) (e : Connection.Step cfg own base s act s')
    (hc : ∀ t api, act ≠ .call t api) :
    s'.conn.accepted = s.conn.accepted ∧ act.taken s.conn = [] ∧
      (s'.conn.state = .connected → s.conn.state = .connected) := by
  cases e
  case call => exact absurd rfl (hc _ _)
  case exec hs hr =>
    have hr := Connection.run_cases hr
    exact ⟨hr.ran.left, rfl, runs_connected hr (h.exec hs hr).right.left⟩
  all_goals exact ⟨rfl, rfl, id⟩

theorem step_received (h : Single own base s) (e : Connection.Step cfg own base s act s')
    (ha : act.received ≠ []) :
    act.thread = own ∧ ∃ rest, s'.stack own = .callback .message true :: rest := by
  obtain ⟨hn, -⟩ | ⟨t, rfl⟩ | ⟨t, b, bytes, rfl⟩ := act.received_cases
  · exact absurd hn ha
  · exact absurd rfl ha
  · cases e
    case exec code rest r hs hr =>
      have hr := Connection.run_cases hr
      obtain rfl := (h.exec hs hr).left
      obtain ⟨c', codes⟩ := r
      cases hr
      case handleRead      => exact ⟨rfl, rest, by simp [Connection.State.resume]⟩
      case handleEnd hz    => simp [Readv.ret] at hz; omega
      case handleReadError hz => simp [Readv.ret] at hz; omega

theorem step_callback {guarded : Bool} (hm : cfg.message)
    (hs : s.stack own = .callback .message guarded :: rest)
    (e : Connection.Step cfg own base s (.exec own answer) s') : s'.stack own = .user :: rest := by
  cases e
  case exec r hs' hr =>
    obtain ⟨rfl, rfl⟩ := List.cons.inj (hs.symm.trans hs')
    have hr := Connection.run_cases hr
    obtain ⟨c', codes⟩ := r
    cases hr
    case callback             => simp [Connection.State.resume]
    case noCallback hn        => exact absurd hm hn
    case badFunctionCall hn   => exact absurd hm hn
  case queue hs'  => cases hs.symm.trans hs'
  case remove hs' => cases hs.symm.trans hs'

theorem step_retrieve {len : Nat}
    (e : Connection.Step cfg own base s (.call own (.retrieve len)) s') :
    s'.stack own = s.stack own ∧ s'.conn =
      { s.conn with inputBuffer := s.conn.inputBuffer.retrieve len } := by
  cases e
  case call => exact ⟨by simp [Connection.State.resume, Connection.call], rfl⟩

theorem step_send {message : Message}
    (e : Connection.Step cfg own base s (.call own (.send message)) s') :
    s'.conn = (if s.conn.state = .connected then
      { s.conn with accepted := s.conn.accepted ++ [(own, message)] } else s.conn) := by
  cases e
  case call =>
    simp only [Connection.State.resume, Connection.call]
    split <;> rfl

end Steps

omit [DecidableEq θ] in
theorem echoed_append {message : Message} :
    echoed { c with accepted := c.accepted ++ [(t, message)] } = echoed c ++ message := by
  simp [echoed]

theorem taken_eq (e : Peer.Step cfg own base p act p') :
    p'.taken = p.taken ++ act.taken p.state.conn :=
  congrArg Peer.taken e.right.right

omit [DecidableEq θ] in
theorem keptBytes_echoed {l : List Message}
    (h : c.accepted.map (·.2) = c.ran.map (·.message) ++ l) :
    (keptBytes c.ran).Sublist (echoed c) ∧
      ((∀ r ∈ c.ran, r.fate ≠ .dropped) → keptBytes c.ran ++ l.flatten = echoed c) := by
  have he : echoed c = c.ran.flatMap (·.message) ++ l.flatten := by
    rw [echoed, h, List.flatten_append, List.flatMap_def]
  refine ⟨?_, fun hd => ?_⟩
  · rw [he]
    exact (List.Sublist.flatMap List.filter_sublist _).trans (List.sublist_append_left ..)
  · rw [he, keptBytes, List.filter_eq_self.mpr (by simpa using hd)]

namespace Echoing

theorem step_sent {place : Place} (place' : Place) (h : Echoing own base (p, place))
    (hc : ∀ t api, act ≠ .call t api)
    (hp : place'.held = place.held) (e : Peer.Step cfg own base p act p') :
    (p'.state.conn.state = .connected → p'.taken = echoed p'.state.conn ++ place'.held) ∧
      echoed p'.state.conn <+: p'.taken := by
  have ⟨hacc, htk, hst⟩ := step_silent h.kept.single e.right.left hc
  have hecho : echoed p'.state.conn = echoed p.state.conn := by rw [echoed, echoed, hacc]
  rw [taken_eq e, htk, List.append_nil, hecho, hp]
  exact ⟨fun hs => h.sent (hst hs), h.before⟩

theorem step_other {place : Place} (h : Echoing own base (p, place))
    (hc : ∀ t api, act ≠ .call t api)
    (ho : act.thread = own → place = .idle ∧ ∀ guarded rest,
      p.state.stack own ≠ .callback .message guarded :: rest)
    (e : Peer.Step cfg own base p act p') : Echoing own base (p', place) := by
  have hin := (Peer.step_input e.right.left h.kept.valid).right
  have hstack : act.thread ≠ own → p'.state.stack own = p.state.stack own :=
    fun ht => (Connection.step_of_thread_ne ht e.right.left).left
  rw [(step_silent h.kept.single e.right.left hc).right.left, List.nil_append] at hin
  have ⟨hs, hb⟩ := h.step_sent place hc rfl e
  refine ⟨h.kept.step e, fun hp => ?_, fun hn => ?_, hs, hb⟩
  · rw [hstack fun ht => hp (ho ht).left]
    exact h.running hp
  · by_cases ha : act.received = []
    case neg =>
      have ⟨ht, hs⟩ := step_received h.kept.single e.right.left ha
      exact .inr ⟨(ho ht).left, hs⟩
    case pos =>
      rw [ha, List.append_nil] at hin
      obtain hp | ⟨hp, rest, hs⟩ := h.input (hin ▸ hn)
      · exact .inl hp
      · have ht : act.thread ≠ own := fun ht => (ho ht).right _ _ hs
        exact .inr ⟨hp, rest, (hstack ht).trans hs⟩

theorem step_read (h : Echoing own base (p, .called))
    (e : Peer.Step cfg own base p
      (.call own (.retrieve p.state.conn.inputBuffer.readableBytes)) p') :
    Echoing own base (p', .read p.state.conn.inputBuffer.readAllAsString.2) := by
  have ⟨hst, hconn⟩ := step_retrieve e.right.left
  have hlen := h.kept.valid.length_content
  have hnil : p'.state.conn.inputBuffer.content = [] := by
    rw [hconn, ← readAllAsString_retrieve]
    exact Buffer.readAllAsString_content h.kept.valid
  have htaken : p'.taken = p.taken ++ p.state.conn.inputBuffer.content := by
    rw [taken_eq e, Act.taken, ← hlen, List.take_length]
  have hecho : echoed p'.state.conn = echoed p.state.conn := by rw [hconn]; rfl
  refine ⟨h.kept.step e, fun _ => ?_, fun hn => absurd hnil hn, fun hs => ?_, ?_⟩
  · rw [hst]
    exact h.running (by simp)
  · have hs : p.state.conn.state = .connected := by rwa [hconn] at hs
    have hs : p.taken = echoed p.state.conn := (h.sent hs).trans (List.append_nil _)
    rw [htaken, hecho, hs, Place.held, Buffer.readAllAsString_str h.kept.valid]
  · rw [htaken, hecho]
    exact h.before.trans (List.prefix_append ..)

theorem step_echo {message : Message} (h : Echoing own base (p, .read message))
    (e : Peer.Step cfg own base p (.call own (.send message)) p') :
    Echoing own base (p', .idle) := by
  have hconn := step_send e.right.left
  have hnil : p.state.conn.inputBuffer.content = [] := by
    by_contra hn
    obtain hp | ⟨hp, -⟩ := h.input hn <;> simp at hp
  have htaken : p'.taken = p.taken := (taken_eq e).trans (List.append_nil _)
  have hinput : p'.state.conn.inputBuffer = p.state.conn.inputBuffer := by
    rw [hconn]
    split <;> rfl
  have hsent : (p'.state.conn.state = .connected → p'.taken = echoed p'.state.conn) ∧
      echoed p'.state.conn <+: p'.taken := by
    rw [htaken, hconn]
    split
    case isTrue hs =>
      have hs : p.taken = echoed p.state.conn ++ message := h.sent hs
      rw [echoed_append, hs]
      exact ⟨fun _ => rfl, List.prefix_rfl⟩
    case isFalse hs => exact ⟨fun hs' => absurd hs' hs, h.before⟩
  refine ⟨h.kept.step e, fun hp => absurd rfl hp, fun hn => ?_, fun hs => ?_, hsent.right⟩
  · rw [hinput] at hn
    exact absurd hnil hn
  · exact (hsent.left hs).trans (List.append_nil _).symm

theorem step (hm : cfg.message) (h : Echoing own base x) (e : Step cfg own base x act x') :
    Echoing own base x' := by
  cases e
  case other hc ho e     => exact h.step_other hc ho e
  case readAllAsString e => exact h.step_read e
  case send e            => exact h.step_echo e
  case callback hs e     =>
    have ⟨hsent, hb⟩ := h.step_sent .called (by simp) rfl e
    exact ⟨h.kept.step e, fun _ => ⟨_, step_callback hm hs e.right.left⟩,
      fun _ => .inl rfl, hsent, hb⟩

omit [DecidableEq θ] in
theorem echoes (h : Echoing own base x) :
    (x.1.state.conn.socket.wire ++ x.1.state.conn.outputBuffer.content).Sublist x.1.received ∧
    ((∀ r ∈ x.1.state.conn.ran, r.fate ≠ .dropped) →
      x.1.state.conn.socket.wire ++ x.1.state.conn.outputBuffer.content <+: x.1.received ∧
      (x.1.state.stack own = [] → x.1.state.conn.state = .connected →
        x.1.state.conn.socket.wire ++ x.1.state.conn.outputBuffer.content = x.1.received)) := by
  have ⟨hk, hp⟩ := keptBytes_echoed h.kept.single.ran
  have ht : echoed x.1.state.conn <+: x.1.received :=
    h.before.trans (h.kept.input ▸ List.prefix_append ..)
  rw [h.kept.single.steady.streams.bytes]
  refine ⟨hk.trans ht.sublist, fun hd => ⟨(hp hd ▸ List.prefix_append ..).trans ht,
    fun hn hs => ?_⟩⟩
  have hidle : x.2 = .idle := by
    by_contra hc
    obtain ⟨rest, hs⟩ := h.running hc
    cases hn.symm.trans hs
  have hinput : x.1.state.conn.inputBuffer.content = [] := by
    by_contra hc
    obtain hp | ⟨-, rest, hs⟩ := h.input hc
    · cases hidle.symm.trans hp
    · cases hn.symm.trans hs
  calc
    keptBytes x.1.state.conn.ran = echoed x.1.state.conn := by simpa [hn] using hp hd
    _                            = x.1.taken := by simpa [hidle, Place.held] using (h.sent hs).symm
    _                            = x.1.received := by rw [h.kept.input, hinput, List.append_nil]

end Echoing

theorem run_echoing {s₀ : Connection.State θ} {acts : List (Act θ)} (hm : cfg.message)
    (hi : Initial own s₀)
    (e : Steps (Step cfg own base) (.new s₀, .idle) acts x) : Echoing own base x := by
  refine e.invariant (P := Echoing own base) (fun h e => h.step hm e) ?_
  have ⟨initSize, fd, hc⟩ := hi.conn
  have ha : s₀.conn.accepted = [] := congrArg Connection.accepted hc
  have hn : (Peer.new s₀).state.conn.inputBuffer.content = [] := by
    rw [Peer.new, hc]
    exact Buffer.new_content initSize
  exact {
    kept    := Peer.new_kept hi
    running := fun h => absurd rfl h
    input   := fun h => absurd hn h
    sent    := fun _ => by simp [Peer.new, echoed, ha, Place.held]
    before  := by simp [Peer.new, echoed, ha]
  }

theorem echo_of_run {s₀ : Connection.State θ} {acts : List (Act θ)} (hm : cfg.message)
    (hi : Initial own s₀)
    (e : Steps (Step cfg own base) (.new s₀, .idle) acts x) :
    (x.1.state.conn.socket.wire ++ x.1.state.conn.outputBuffer.content).Sublist x.1.received ∧
    ((∀ r ∈ x.1.state.conn.ran, r.fate ≠ .dropped) →
      x.1.state.conn.socket.wire ++ x.1.state.conn.outputBuffer.content <+: x.1.received ∧
      (x.1.state.stack own = [] → x.1.state.conn.state = .connected →
        x.1.state.conn.socket.wire ++ x.1.state.conn.outputBuffer.content = x.1.received)) :=
  (run_echoing hm hi e).echoes

def twoParts : List (Act Unit) :=
  [.exec () .none, .exec () .none, .swap (), .finish (), .poll () (some Events.POLLIN),
    .dispatch (),
    .exec () (.read (.received [1, 2])), .exec () .none, .call () (.retrieve 2),
    .call () (.send [1, 2]),
    .exec () (.sent ⟨1, .other⟩), .exec () .none, .swap (), .finish (),
    .poll () (some Events.POLLIN), .dispatch (),
    .exec () (.read (.received [3])), .exec () .none, .call () (.retrieve 1), .call () (.send [3]),
    .exec () (.sent ⟨0, .EWOULDBLOCK⟩), .exec () .none]

theorem echo_of_two_parts :
    ∃ x : Peer Unit × Place, Steps (Step ⟨true, true, false, true⟩ () ())
      (.new (.new () 8 5), .idle) twoParts x ∧
      x.1.state.conn.outputBuffer.content = [2, 3] ∧
      x.1.state.conn.socket.wire ++ x.1.state.conn.outputBuffer.content = x.1.received := by
  have ⟨x, e, hd, hs, hc, ho⟩ : ∃ x : Peer Unit × Place,
      Steps (Step ⟨true, true, false, true⟩ () ()) (.new (.new () 8 5), .idle) twoParts x ∧
        (∀ r ∈ x.1.state.conn.ran, r.fate ≠ .dropped) ∧ x.1.state.stack () = [] ∧
        x.1.state.conn.state = .connected ∧
        x.1.state.conn.outputBuffer.content = [2, 3] := by
    refine ⟨_, (Steps.of_isSome ?_).mono step_sound, ?_⟩
    all_goals decide +kernel
  exact ⟨x, e, ho, ((echo_of_run rfl Connection.State.new_initial e).right hd).right hs hc⟩

section Served

variable {prog : Bool → Program θ} {s : Pair θ} {y y' : Pair θ × Place} {event : Event θ}

structure Served (prog : Bool → Program θ) (y : Pair θ × Place) (event : Event θ)
    (y' : Pair θ × Place) : Prop where
  joined : Joined.Step prog y.1 event y'.1
  echo   : ∀ act, event = .act false act →
    Step (prog false).cfg (prog false).own (prog false).base (y.1.peer false, y.2) act
      (y'.1.peer false, y'.2)
  client : (∀ act, event ≠ .act false act) → y'.2 = y.2

def next (prog : Bool → Program θ) (y : Pair θ × Place) : Event θ → Option Place
  | .act false act => y.2.next (prog false).own (y.1.peer false) act
  | _              => some y.2

def serve [Fintype θ] (prog : Bool → Program θ) (y : Pair θ × Place) (event : Event θ) :
    Option (Pair θ × Place) :=
  (next prog y event).bind fun place => (Joined.step prog y.1 event).map (·, place)

theorem next_of_ne (h : ∀ act, event ≠ .act false act) : next prog y event = some y.2 := by
  rw [next.eq_def]
  split
  case h_1 => exact absurd rfl (h _)
  case h_2 => rfl

theorem serve_sound [Fintype θ] (h : Steps.Of (serve prog) y event y') :
    Served prog y event y' := by
  rw [Steps.Of, serve, Option.bind_eq_some_iff] at h
  obtain ⟨place, hn, h⟩ := h
  rw [Option.map_eq_some_iff] at h
  obtain ⟨s, hs, rfl⟩ := h
  have e := Joined.step_sound hs
  refine ⟨e, fun act ha => ?_, fun ha => ?_⟩
  · subst ha
    cases e
    case act hp =>
      dsimp only
      rw [Function.update_self]
      exact step_of_next hn hp
  · rw [next_of_ne ha] at hn
    exact (Option.some.inj hn).symm

theorem Served.frame (e : Served prog y event y') (he : ∀ act, event ≠ .act false act) :
    (y'.1.peer false, y'.2) = (y.1.peer false, y.2) := by
  rw [e.client he]
  have hj := e.joined
  obtain ⟨s, place⟩ := y
  obtain ⟨s', place'⟩ := y'
  cases hj
  case close | reset => rfl
  case act b a p _ _ _ =>
    have hb : false ≠ b := fun hb => he a (hb ▸ rfl)
    dsimp only
    rw [Function.update_of_ne hb]

structure Serving (prog : Bool → Program θ) (y : Pair θ × Place) : Prop where
  joined  : Joined.Invariant prog y.1
  echoing : Echoing (prog false).own (prog false).base (y.1.peer false, y.2)

theorem Serving.step (hm : (prog false).cfg.message) (h : Serving prog y)
    (e : Served prog y event y') :
    Serving prog y' := by
  refine ⟨h.joined.step e.joined, ?_⟩
  by_cases he : ∃ act, event = .act false act
  case pos =>
    obtain ⟨act, rfl⟩ := he
    exact h.echoing.step hm (e.echo act rfl)
  case neg => exact e.frame (not_exists.mp he) ▸ h.echoing

def Rest (s : Pair θ) : Prop :=
  ∀ b, (s.peer b).received = (s.peer !b).state.conn.socket.wire ∧
    (s.peer b).state.conn.outputBuffer.content = []

instance : Decidable (Rest s) :=
  inferInstanceAs (Decidable (∀ _, _ ∧ _))

def backInParts : List (Event Unit) :=
  (List.map (.act true) [.exec () .none, .call () (.send [1, 2]), .exec () (.sent ⟨2, .other⟩),
    .exec () .none]) ++
  (List.map (.act false) [.exec () .none, .exec () .none, .swap (), .finish (),
    .poll () (some Events.POLLIN), .dispatch (), .exec () (.read (.received [1, 2])),
    .exec () .none,
    .call () (.retrieve 2), .call () (.send [1, 2]), .exec () (.sent ⟨1, .other⟩), .exec () .none,
    .swap (), .finish (), .poll () (some Events.POLLOUT), .dispatch (),
    .exec () (.sent ⟨1, .other⟩),
    .exec () .none]) ++
  (List.map (.act true) [.swap (), .finish (), .poll () (some Events.POLLIN), .dispatch (),
    .exec () (.read (.received [1, 2])), .exec () .none])

end Served

end Bounce.Echo
