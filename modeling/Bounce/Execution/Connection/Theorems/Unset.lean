import Bounce.Execution.Connection.Theorems.Places
import Bounce.Objects.TcpServer.Start

namespace Bounce.Connection

variable {θ : Type} [DecidableEq θ] {cfg : Callbacks} {own base t : θ} {s s' s₀ : State θ}
variable {act : Act θ} {c c' : Connection θ} {code : Code θ} {codes : List (Code θ)}
variable {answer : Answer}

-- The code is no call of an empty function, and does not lead to one: a callback that is called
-- without a test has been set.
def Code.Good (cfg : Callbacks) : Code θ → Prop
  | .callback cb false => cfg.has cb
  | .badFunctionCall   => False
  | _                  => True

theorem Runs.good (hr : Runs cfg base t c code answer c' codes) (hc : cfg.connect)
    (h : code.Good cfg) :
    ∀ code ∈ codes, code.Good cfg := by
  intro code' hm
  cases hr.leaves code' hm
  case connect            => exact hc
  case badFunctionCall hn => exact hn h
  all_goals trivial

theorem Calls.good {api : Api} (hr : Calls own t c api c' codes) :
    ∀ code ∈ codes, code.Good cfg := by
  intro code hm
  cases hr.puts code hm <;> trivial

def Good (cfg : Callbacks) (s : State θ) : Prop :=
  Everywhere (fun _ code => code.Good cfg) (fun _ _ => True) s

theorem Good.step (hc : cfg.connect) (h : Good cfg s) (e : Step cfg own base s act s') :
    Good cfg s' :=
  Everywhere.step h e {
    code     := fun _ _ h => h
    task     := fun _ _ h => h
    call     := fun _ _ _ => (call_cases ..).good
    run      := fun _ _ _ _ _ _ _ _ h hr => (run_cases hr).good hc h
    queue    := fun _ _ _ _ _ => trivial
    remove   := fun _ _ _ _ => trivial
    dispatch := by
      intro t revents _ code hm
      obtain rfl | rfl | rfl | rfl := mem_handleChannel hm <;> trivial
    start    := fun _ _ _ => trivial
  }

theorem Initial.good (h : Initial own s) (hc : cfg.connect) : Good cfg s where
  code t code hm := by
    rw [h.stack] at hm
    by_cases ht : t = own
    case pos =>
      subst ht
      obtain rfl : code = .callback .connect false := by simpa using hm
      exact hc
    case neg => simp [ht] at hm
  task _ _ _ := trivial

theorem never_bad_iff (hi : Initial own s₀) (threadInit : Bool) :
    ((∀ threadNum, ∀ f ∈ TcpServer.start threadNum (if threadInit then .user else .empty), ¬f.bad) ∧
      ∀ acts s, Steps (Step cfg own base) s₀ acts s → ∀ t, .badFunctionCall ∉ s.stack t) ↔
        cfg.connect where
  mp h := by
    by_contra hc
    have hs : s₀.stack own = [.callback .connect false] := by rw [hi.stack, Function.update_self]
    have hr : s₀.conn.run cfg base own (.callback .connect false) .none =
        some (s₀.conn, [.badFunctionCall]) := by
      rw [run, Callbacks.has, if_neg hc]
      rfl
    have hb := h.right _ _ (.single (.exec hs hr)) own
    simp [State.resume] at hb
  mpr hc := by
    refine ⟨fun threadNum f => TcpServer.start_not_bad ?_, fun acts s e t hm => ?_⟩
    · cases threadInit <;> simp [StdFunction.isSet, StdFunction.bad]
    · exact (e.invariant (P := Good cfg) (Good.step hc) (hi.good hc)).code t .badFunctionCall hm

theorem never_bad_of_connect :
    ∃ s, Steps (Step ⟨true, false, false, false⟩ false true) (State.new false 8 5 : State Bool)
      [.exec false .none, .exec false .none, .swap false, .finish false,
        .poll false (some Events.POLLIN), .dispatch false, .exec false (.read (.received [])),
        .exec false .none, .exec false .none] s ∧
      ∀ t, .badFunctionCall ∉ s.stack t := by
  apply Exists.imp fun s e => ⟨e, ((never_bad_iff State.new_initial false).mpr rfl).right _ s e⟩
  exact ⟨_, State.steps_of_isSome (by decide +kernel)⟩

theorem bad_of_message_only :
    ∃ s, Steps (Step ⟨false, true, false, false⟩ false true) (State.new false 8 5 : State Bool)
      [.exec false .none] s ∧ s.stack false = [.badFunctionCall] := by
  refine ⟨_, State.steps_of_isSome ?_, ?_⟩
  all_goals decide +kernel

end Bounce.Connection
