import Bounce.Execution.Connection.Step

namespace Bounce.Connection

variable {θ : Type} [DecidableEq θ] {cfg : Callbacks} {base t : θ} {c : Connection θ}

-- What a code can do: one case for each code, and for each branch that leaves other codes behind.
inductive Runs (cfg : Callbacks) (base t : θ) (c : Connection θ) :
    Code θ → Answer → Connection θ → List (Code θ) → Prop
  | connectComplete :
    Runs cfg base t c (.task .connectComplete) .none { c with toTcpConnection := c.connectComplete }
      [.callback .connect false]
  | sendInLoop {message origin} {r : Sent} :
    r.ret ≤ message.length →
    Runs cfg base t c (.task (.sendInLoop message origin)) (.sent r)
      { c with
        toTcpConnection := (c.sendInLoop message r).1
        ran := c.ran ++ [⟨origin, message, (c.sendInLoop message r).2⟩] }
      (if (c.sendInLoop message r).2 = .finished ∧ cfg.writeComplete then [.queue .writeComplete]
        else [])
  | shutdownInLoop {origin} :
    Runs cfg base t c (.task (.shutdownInLoop origin)) .none
      { c with toTcpConnection := c.shutdownInLoop } []
  | forceCloseInLoop :
    c.state ≠ .disconnected → Runs cfg base t c (.task .forceCloseInLoop) .none c
      [.handleClose true]
  | closedBefore :
    c.state = .disconnected → Runs cfg base t c (.task .forceCloseInLoop) .none c []
  | writeComplete : Runs cfg base t c (.task .writeComplete) .none c [.user]
  | destroyConnected :
    c.state = .connected →
    Runs cfg base t c (.task .destroyConnection) .none c
      [.store .disconnected, .callback .connect true, .removeChannel]
  | destroyConnection :
    c.state ≠ .connected → Runs cfg base t c (.task .destroyConnection) .none c [.removeChannel]
  | store {state} : Runs cfg base t c (.store state) .none { c with state := state } []
  | handleClose {forced} :
    Runs cfg base t c (.handleClose forced) .none
      ({ c with toTcpConnection := c.handleClose }.log .handleClose)
        [.callback .connect true, .closeCb]
  | handleError : Runs cfg base t c .handleError .none c [.callback .error true]
  | handleRead {r : Readv} :
    0 < r.ret →
    Runs cfg base t c .handleRead (.read r) { c with toTcpConnection := c.handleRead r }
      [.callback .message true]
  | handleEnd {r : Readv} :
    r.ret = 0 →
    Runs cfg base t c .handleRead (.read r) { c with toTcpConnection := c.handleRead r }
      [.handleClose false]
  | handleReadError {r : Readv} :
    r.ret < 0 →
    Runs cfg base t c .handleRead (.read r) { c with toTcpConnection := c.handleRead r } []
  | handleWrite {r : Sent} :
    r.ret ≤ c.outputBuffer.readableBytes →
    Runs cfg base t c .handleWrite (.sent r) { c with toTcpConnection := (c.handleWrite r).1 }
      (if (c.handleWrite r).2 then
        (if cfg.writeComplete then [.queue .writeComplete] else []) ++ [.checkState]
      else
        [])
  | checkDisconnecting :
    c.state = .disconnecting →
    Runs cfg base t c .checkState .none { c with toTcpConnection := c.shutdownInLoop } []
  | checkState : c.state ≠ .disconnecting → Runs cfg base t c .checkState .none c []
  | callback {cb guarded} :
    cfg.has cb → Runs cfg base t c (.callback cb guarded) .none
      (c.log (.callback cb c.state)) [.user]
  | noCallback {cb} : ¬cfg.has cb → Runs cfg base t c (.callback cb true) .none c []
  | badFunctionCall {cb} :
    ¬cfg.has cb → Runs cfg base t c (.callback cb false) .none c [.badFunctionCall]
  | closeCb :
    Runs cfg base t c .closeCb .none (c.log .closeCb)
      [doTaskInThread base t .removeConnectionInLoop]
  | removeChannel :
    Runs cfg base t c .removeChannel .none { c with channel := c.channel.remove } []
  | user : Runs cfg base t c .user .none c []

theorem run_cases {code : Code θ} {answer : Answer} {r : Connection θ × List (Code θ)}
    (h : c.run cfg base t code answer = some r) : Runs cfg base t c code answer r.1 r.2 := by
  cases code
  case task task =>
    cases task <;> cases answer <;> simp only [run, runTask, reduceCtorEq] at h
    case connectComplete.none => cases h; exact .connectComplete
    case sendInLoop.sent message origin r =>
      split at h
      case isTrue hr  => cases h; exact .sendInLoop hr
      case isFalse => contradiction
    case shutdownInLoop.none => cases h; exact .shutdownInLoop
    case forceCloseInLoop.none =>
      by_cases hs : c.state = .disconnected
      case pos => simp [hs] at h; cases h; exact .closedBefore hs
      case neg => simp [hs] at h; cases h; exact .forceCloseInLoop hs
    case writeComplete.none => cases h; exact .writeComplete
    case destroyConnection.none =>
      split at h
      case isTrue hs  => cases h; exact .destroyConnected hs
      case isFalse hs => cases h; exact .destroyConnection hs
  case queue task          => cases answer <;> contradiction
  case badFunctionCall     => cases answer <;> contradiction
  case store state         => cases answer <;> cases h; exact .store
  case handleClose forced  => cases answer <;> cases h; exact .handleClose
  case handleError         => cases answer <;> cases h; exact .handleError
  case closeCb             => cases answer <;> cases h; exact .closeCb
  case removeChannel       => cases answer <;> cases h; exact .removeChannel
  case user                => cases answer <;> cases h; exact .user
  case handleRead =>
    cases answer <;> simp only [run, reduceCtorEq] at h
    case read r =>
      cases h
      dsimp only
      split
      case isTrue hr => exact .handleRead hr
      case isFalse hn =>
        split
        case isTrue hr  => exact .handleEnd hr
        case isFalse hr => exact .handleReadError (by omega)
  case handleWrite =>
    cases answer <;> simp only [run, reduceCtorEq] at h
    case sent r =>
      split at h
      case isTrue hr => cases h; exact .handleWrite hr
      case isFalse   => contradiction
  case checkState =>
    cases answer <;> simp only [run, reduceCtorEq] at h
    case none =>
      split at h
      case isTrue hs  => cases h; exact .checkDisconnecting hs
      case isFalse hs => cases h; exact .checkState hs
  case callback cb guarded =>
    cases answer <;> simp only [run, reduceCtorEq] at h
    case none =>
      split at h
      case isTrue hs  => cases h; exact .callback hs
      case isFalse hs =>
        cases guarded
        case false => cases h; exact .badFunctionCall hs
        case true  => cases h; exact .noCallback hs

inductive Leaves (cfg : Callbacks) (base t : θ) : Code θ → Answer → Code θ → Prop
  | connect {answer} :
    Leaves cfg base t (.task .connectComplete) answer (.callback .connect false)
  | sent {message origin answer} :
    Leaves cfg base t (.task (.sendInLoop message origin)) answer (.queue .writeComplete)
  | forceClose {answer} : Leaves cfg base t (.task .forceCloseInLoop) answer (.handleClose true)
  | writeComplete {answer} : Leaves cfg base t (.task .writeComplete) answer .user
  | disconnect {answer} : Leaves cfg base t (.task .destroyConnection) answer (.store .disconnected)
  | disconnected {answer} :
    Leaves cfg base t (.task .destroyConnection) answer (.callback .connect true)
  | remove {answer} : Leaves cfg base t (.task .destroyConnection) answer .removeChannel
  | closed {forced answer} : Leaves cfg base t (.handleClose forced) answer
    (.callback .connect true)
  | close {forced answer} : Leaves cfg base t (.handleClose forced) answer .closeCb
  | error {answer} : Leaves cfg base t .handleError answer (.callback .error true)
  | message {answer} : Leaves cfg base t .handleRead answer (.callback .message true)
  | hangUp {r : Readv} : r.ret = 0 → Leaves cfg base t .handleRead (.read r) (.handleClose false)
  | written {answer} : Leaves cfg base t .handleWrite answer (.queue .writeComplete)
  | check {answer} : Leaves cfg base t .handleWrite answer .checkState
  | user {cb guarded answer} : Leaves cfg base t (.callback cb guarded) answer .user
  | badFunctionCall {cb answer} :
    ¬cfg.has cb → Leaves cfg base t (.callback cb false) answer .badFunctionCall
  | removal {answer} : t = base → Leaves cfg base t .closeCb answer (.task .removeConnectionInLoop)
  | pushRemoval {answer} : t ≠ base →
    Leaves cfg base t .closeCb answer (.queue .removeConnectionInLoop)

theorem Runs.leaves {c c' : Connection θ} {code : Code θ} {codes : List (Code θ)} {answer : Answer}
    (hr : Runs cfg base t c code answer c' codes) :
    ∀ code' ∈ codes, Leaves cfg base t code answer code' := by
  intro code' hm
  cases hr
  case sendInLoop =>
    split at hm
    case isTrue  => exact List.mem_singleton.mp hm ▸ .sent
    case isFalse => contradiction
  case handleWrite =>
    split at hm
    case isFalse => contradiction
    case isTrue =>
      split at hm
      case isFalse => exact List.mem_singleton.mp hm ▸ .check
      case isTrue =>
        cases hm
        case head    => exact .written
        case tail hm => exact List.mem_singleton.mp hm ▸ .check
  case destroyConnected =>
    cases hm
    case head => exact .disconnect
    case tail hm =>
      cases hm
      case head    => exact .disconnected
      case tail hm => exact List.mem_singleton.mp hm ▸ .remove
  case handleClose =>
    cases hm
    case head    => exact .closed
    case tail hm => exact List.mem_singleton.mp hm ▸ .close
  case closeCb =>
    rw [List.mem_singleton, doTaskInThread] at hm
    split at hm
    case isTrue ht  => exact hm ▸ .removal ht
    case isFalse ht => exact hm ▸ .pushRemoval ht
  case connectComplete      => exact List.mem_singleton.mp hm ▸ .connect
  case forceCloseInLoop     => exact List.mem_singleton.mp hm ▸ .forceClose
  case writeComplete        => exact List.mem_singleton.mp hm ▸ .writeComplete
  case destroyConnection    => exact List.mem_singleton.mp hm ▸ .remove
  case handleError          => exact List.mem_singleton.mp hm ▸ .error
  case handleRead           => exact List.mem_singleton.mp hm ▸ .message
  case handleEnd hr         => exact List.mem_singleton.mp hm ▸ .hangUp hr
  case callback             => exact List.mem_singleton.mp hm ▸ .user
  case badFunctionCall hc   => exact List.mem_singleton.mp hm ▸ .badFunctionCall hc
  all_goals contradiction

inductive Calls (own t : θ) (c : Connection θ) : Api → Connection θ → List (Code θ) → Prop
  | send {message} :
    c.state = .connected →
    Calls own t c (.send message) { c with accepted := c.accepted ++ [(t, message)] }
      [doTaskInThread own t (.sendInLoop message t)]
  | refused {message} : c.state ≠ .connected → Calls own t c (.send message) c []
  | shutdown :
    c.state ≠ .disconnected →
    Calls own t c .shutdown c [.store .disconnecting, doTaskInThread own t (.shutdownInLoop t)]
  | forceClose :
    c.state ≠ .disconnected →
    Calls own t c .forceClose c [.store .disconnecting, doTaskInThread own t .forceCloseInLoop]
  | shutdownLate : c.state = .disconnected → Calls own t c .shutdown c []
  | forceCloseLate : c.state = .disconnected → Calls own t c .forceClose c []
  | retrieve {len} :
    Calls own t c (.retrieve len) { c with inputBuffer := c.inputBuffer.retrieve len } []

theorem call_cases (own t : θ) (c : Connection θ) (api : Api) :
    Calls own t c api (c.call own t api).1 (c.call own t api).2 := by
  cases api <;> simp only [call]
  case send message =>
    split
    case isTrue hs  => exact .send hs
    case isFalse hs => exact .refused hs
  case shutdown =>
    split
    case isTrue hs  => exact .shutdown hs
    case isFalse hs => exact .shutdownLate (not_not.mp hs)
  case forceClose =>
    split
    case isTrue hs  => exact .forceClose hs
    case isFalse hs => exact .forceCloseLate (not_not.mp hs)
  case retrieve => exact .retrieve

inductive Puts (own t : θ) : Api → Code θ → Prop
  | send {message} : t = own → Puts own t (.send message) (.task (.sendInLoop message t))
  | pushSend {message} : t ≠ own → Puts own t (.send message) (.queue (.sendInLoop message t))
  | shutdown : t = own → Puts own t .shutdown (.task (.shutdownInLoop t))
  | pushShutdown : t ≠ own → Puts own t .shutdown (.queue (.shutdownInLoop t))
  | forceClose : t = own → Puts own t .forceClose (.task .forceCloseInLoop)
  | pushForceClose : t ≠ own → Puts own t .forceClose (.queue .forceCloseInLoop)
  | store {api} : api = .shutdown ∨ api = .forceClose → Puts own t api (.store .disconnecting)

theorem Calls.puts {own : θ} {c c' : Connection θ} {api : Api} {codes : List (Code θ)}
    (hc : Calls own t c api c' codes) : ∀ code ∈ codes, Puts own t api code := by
  intro code hm
  cases hc
  case send =>
    rw [List.mem_singleton, doTaskInThread] at hm
    split at hm
    case isTrue ht  => exact hm ▸ .send ht
    case isFalse ht => exact hm ▸ .pushSend ht
  case shutdown =>
    cases hm
    case head => exact .store (.inl rfl)
    case tail hm =>
      have hm := List.mem_singleton.mp hm
      rw [doTaskInThread] at hm
      split at hm
      case isTrue ht  => exact hm ▸ .shutdown ht
      case isFalse ht => exact hm ▸ .pushShutdown ht
  case forceClose =>
    cases hm
    case head => exact .store (.inr rfl)
    case tail hm =>
      have hm := List.mem_singleton.mp hm
      rw [doTaskInThread] at hm
      split at hm
      case isTrue ht  => exact hm ▸ .forceClose ht
      case isFalse ht => exact hm ▸ .pushForceClose ht
  all_goals contradiction

omit [DecidableEq θ] in
theorem mem_handleChannel {revents : Events} {code : Code θ} (h : code ∈ handleChannel revents) :
    code = .handleClose false ∨ code = .handleError ∨ code = .handleRead ∨ code = .handleWrite := by
  simp only [handleChannel, List.mem_append] at h
  obtain ((h | h) | h) | h := h <;> split at h <;> simp_all

end Bounce.Connection
