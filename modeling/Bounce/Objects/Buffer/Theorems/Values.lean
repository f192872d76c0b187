import Bounce.Objects.Buffer.Theorems.Integers
import Bounce.Objects.Buffer.Theorems.Pool

open List

namespace Bounce.Buffer

inductive Output
  | bytes (bytes : List Byte)
  | int (value : Value)
  deriving DecidableEq

namespace Call

def output (b : Buffer) : Call → Output
  | op o      => .bytes (o.exec b).2
  | readInt8  => .int ⟨.int8, b.readInt8.2⟩
  | readInt16 => .int ⟨.int16, b.readInt16.2⟩
  | readInt32 => .int ⟨.int32, b.readInt32.2⟩

-- The `readInt` function of a width, on a queue of bytes. It returns what comes behind the bytes
-- that it takes from the queue.
def readOnQueue (q : List Byte) (w : Width) : List Byte × Output :=
  if w.size ≤ q.length then (q.drop w.advance, .int ⟨w, next w.size w.advance q⟩)
    else (q, .int ⟨w, 0⟩)

def onQueue (q : List Byte) : Call → List Byte × Output
  | op o      => ((o.onQueue q).1, .bytes (o.onQueue q).2)
  | readInt8  => readOnQueue q .int8
  | readInt16 => readOnQueue q .int16
  | readInt32 => readOnQueue q .int32

variable {b : Buffer}

theorem read_onQueue (h : b.Valid) (w : Width) :
    readOnQueue b.content w = ((w.read b).1.content, .int ⟨w, (w.read b).2⟩) := by
  have hl := h.length_content
  rw [readOnQueue, w.read_eq]
  split
  case isTrue hs  => rw [readInt_eq h (by omega) w.advance_le, advance_content]
  case isFalse hs => rw [readInt, if_pos (by omega)]

theorem exec_onQueue (h : b.Valid) :
    (call : Call) → call.onQueue b.content = ((call.exec b).content, call.output b)
  | op o      => by simp [onQueue, exec, output, o.exec_onQueue h]
  | readInt8  => read_onQueue h .int8
  | readInt16 => read_onQueue h .int16
  | readInt32 => read_onQueue h .int32

end Call

namespace Pool

structure Values where
  values  : List (Option (List Byte))
  outputs : List Output

inductive Values.Step : Values → Act → Values → Prop
  | construct {v initSize} :
    Step v (.construct initSize) { v with values := v.values ++ [some []] }
  | copy {v i q} :
    v.values[i]? = some (some q) → Step v (.copy i) { v with values := v.values ++ [some q] }
  | move {v i q} :
    v.values[i]? = some (some q) →
    Step v (.move i) { v with values := v.values.set i none ++ [some q] }
  | assign {v i j q} :
    i < v.values.length → v.values[j]? = some (some q) →
    Step v (.assign i j) { v with values := v.values.set i (some q) }
  | call {v i q call} :
    v.values[i]? = some (some q) →
    Step v (.call i call)
      ⟨v.values.set i (some (call.onQueue q).1), v.outputs ++ [(call.onQueue q).2]⟩

-- The buffers of a program, with a flag for those that have not been moved from, or have been
-- assigned to since then. The program uses no other ones.
structure Use where
  store   : List (Buffer × Bool)
  outputs : List Output

namespace Use

def pool (u : Use) : Pool :=
  u.store.map (·.1)

inductive Step : Use → Act → Use → Prop
  | construct {u initSize} :
    Step u (.construct initSize) { u with store := u.store ++ [(new initSize, true)] }
  | copy {u i buf} :
    u.store[i]? = some (buf, true) →
    Step u (.copy i) { u with store := u.store ++ [(buf.copy, true)] }
  | move {u i buf} :
    u.store[i]? = some (buf, true) →
    Step u (.move i) { u with store := u.store.set i (buf.move.2, false) ++ [(buf.move.1, true)] }
  | assign {u i j b used buffer} :
    u.store[i]? = some (b, used) → u.store[j]? = some (buffer, true) →
    Step u (.assign i j)
      (if j = i then u else { u with store := u.store.set i (b.assign buffer, true) })
  | call {u i b call} :
    u.store[i]? = some (b, true) → call.Allowed b →
    Step u (.call i call) ⟨u.store.set i (call.exec b, true), u.outputs ++ [call.output b]⟩

def value (x : Buffer × Bool) : Option (List Byte) :=
  if x.2 then some x.1.content else none

def toValues (u : Use) : Values where
  values  := u.store.map value
  outputs := u.outputs

def Valid (u : Use) : Prop :=
  ∀ x ∈ u.store, x.2 → x.1.Valid

variable {u u' : Use} {act : Act} {acts : List Act} {i : Nat} {x : Buffer × Bool} {b : Buffer}

theorem Step.pool (e : Step u act u') : Pool.Step u.pool act u'.pool := by
  have hget : ∀ {i : Nat} {x : Buffer × Bool}, u.store[i]? = some x → u.pool[i]? = some x.1 := by
    intro i x hx
    rw [Use.pool, getElem?_map, hx, Option.map_some]
  cases e
  case construct => simpa [Use.pool] using Pool.Step.construct (s := u.pool)
  case copy hb   => simpa [Use.pool] using Pool.Step.copy (hget hb)
  case move hb   => simpa [Use.pool] using Pool.Step.move (hget hb)
  case call hb hc => simpa [Use.pool] using Pool.Step.call (hget hb) hc
  case assign hb hj =>
    have e := Pool.Step.assign (hget hb) (hget hj)
    split at e
    case isTrue hij  => rwa [if_pos hij]
    case isFalse hij => simpa [Use.pool, hij] using e

theorem Valid.of_get (h : u.Valid) (hb : u.store[i]? = some (b, true)) : b.Valid :=
  h (b, true) (mem_of_getElem? hb) rfl

theorem Valid.snoc (h : u.Valid) (hb : b.Valid) :
    ({ u with store := u.store ++ [(b, true)] } : Use).Valid := by
  intro x hm
  obtain hm | hm := mem_append.mp hm
  · exact h x hm
  · exact fun _ => mem_singleton.mp hm ▸ hb

theorem Valid.set (outputs : List Output) (h : u.Valid) (hx : x.2 → x.1.Valid) :
    Use.Valid ⟨u.store.set i x, outputs⟩ := by
  intro y hm
  obtain hm | hm := mem_or_eq_of_mem_set hm
  · exact h y hm
  · exact hm ▸ hx

theorem Valid.step (h : u.Valid) (e : Step u act u') : u'.Valid := by
  cases e
  case construct => exact h.snoc (new_valid _)
  case copy hb   => exact h.snoc ((copy_eq _).symm ▸ h.of_get hb)
  case move hb   => exact (h.set u.outputs (by simp)).snoc (h.of_get hb)
  case call call hb _ => exact h.set _ fun _ => call.exec_valid (h.of_get hb)
  case assign hb hj =>
    split
    case isTrue  => exact h
    case isFalse => exact h.set _ fun _ => (assign_eq _ _).symm ▸ h.of_get hj

theorem Valid.toValues (h : u.Valid) (e : Step u act u') :
    Values.Step u.toValues act u'.toValues := by
  have hget : ∀ {i : Nat} {b : Buffer}, u.store[i]? = some (b, true) →
      u.toValues.values[i]? = some (some b.content) := by
    intro i b hb
    rw [Use.toValues, getElem?_map, hb]
    rfl
  cases e
  case construct initSize =>
    have hn := new_content initSize
    have e : Values.Step u.toValues (.construct initSize) _ := .construct
    simpa [Use.toValues, value, hn] using e
  case copy hb =>
    simpa [Use.toValues, value, copy_eq] using Values.Step.copy (hget hb)
  case move hb =>
    simpa [Use.toValues, value, Buffer.move] using Values.Step.move (hget hb)
  case call i b call hb _ =>
    have e : Values.Step u.toValues (.call i call) _ := .call (hget hb)
    rw [call.exec_onQueue (h.of_get hb)] at e
    simpa [Use.toValues, value] using e
  case assign i j b used buffer hb hj =>
    have hi : i < u.toValues.values.length := by
      have ⟨hi, _⟩ := List.getElem?_eq_some_iff.mp hb
      simpa [Use.toValues] using hi
    have e : Values.Step u.toValues (.assign i j) _ := .assign hi (hget hj)
    split
    case isFalse => simpa [Use.toValues, value, assign_eq] using e
    case isTrue hij =>
      -- `operator=` tests for the buffer itself
      subst hij
      have hs : u.toValues.values.set j (some buffer.content) = u.toValues.values := by
        have ⟨hj, hv⟩ := List.getElem?_eq_some_iff.mp (hget hj)
        rw [← hv, set_getElem_self]
      rwa [hs] at e

end Use

theorem refines_values {acts : List Act} {u : Use} (e : Steps Use.Step ⟨[], []⟩ acts u) :
    Steps Pool.Step [] acts u.pool ∧ Steps Values.Step ⟨[], []⟩ acts u.toValues ∧
      ∀ x ∈ u.store, x.2 → x.1.Valid := by
  have hv : Use.Valid ⟨[], []⟩ := fun x hm => nomatch hm
  have hp : ∀ {u₁ act u₂}, Use.Valid u₁ → Use.Step u₁ act u₂ → Use.Valid u₂ := fun h e => h.step e
  refine ⟨?_, ?_, e.invariant (P := Use.Valid) hp hv⟩
  · exact e.simulate (P := Use.Valid) Use.pool hp (fun _ e => e.pool) hv
  · exact e.simulate (P := Use.Valid) Use.toValues hp (fun h e => h.toValues e) hv

theorem refines_values_of_reuse :
    ∃ u, Steps Use.Step ⟨[], []⟩ [.construct 4, .call 0 (.op (.append [1, 2])), .move 0, .copy 1,
      .assign 0 2,
        .call 1 (.op (.readAsString 1)), .call 0 .readInt8] u ∧
      u.toValues.values = [some [2], some [2], some [1, 2]] ∧
      u.outputs = [.bytes [], .bytes [1], .int ⟨.int8, 2⟩] ∧ ∀ x ∈ u.store, x.2 → x.1.Valid := by
  have ⟨u, e, hv, ho⟩ : ∃ u, Steps Use.Step ⟨[], []⟩ [.construct 4, .call 0 (.op (.append [1, 2])),
      .move 0, .copy 1,
      .assign 0 2, .call 1 (.op (.readAsString 1)), .call 0 .readInt8] u ∧
        u.toValues.values = [some [2], some [2], some [1, 2]] ∧
        u.outputs = [.bytes [], .bytes [1], .int ⟨.int8, 2⟩] := by
    refine ⟨_, .step .construct (.step (.call rfl trivial) (.step (.move rfl) (.step (.copy rfl)
      (.step (.assign rfl rfl) (.step (.call rfl trivial) (.single (.call rfl trivial))))))), ?_,
        ?_⟩
    all_goals decide +kernel
  exact ⟨u, e, hv, ho, (refines_values e).right.right⟩

end Pool
end Bounce.Buffer
