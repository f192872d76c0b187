import Bounce.Objects.Buffer.Calls

open List

namespace Bounce.Buffer

abbrev Pool := List Buffer

namespace Pool

inductive Act
  | construct (initSize : Nat)
  | copy (i : Nat)
  | move (i : Nat)
  | assign (i j : Nat)
  | call (i : Nat) (call : Call)

inductive Step : Pool → Act → Pool → Prop
  | construct {s initSize} :
    Step s (.construct initSize) (s ++ [new initSize])
  | copy {s i buf} :
    s[i]? = some buf → Step s (.copy i) (s ++ [buf.copy])
  | move {s i buf} :
    s[i]? = some buf → Step s (.move i) (s.set i buf.move.2 ++ [buf.move.1])
  | assign {s i j b buffer} :
    s[i]? = some b → s[j]? = some buffer →
    Step s (.assign i j) (if j = i then s else s.set i (b.assign buffer))
  | call {s i b call} :
    s[i]? = some b → call.Allowed b → Step s (.call i call) (s.set i (call.exec b))

def KeepsValid (s : Pool) : Act → Prop
  | .move i => ∀ buf ∈ s[i]?, buf.writeIndex = 0
  | _       => True

def Valid (s : Pool) : Prop :=
  ∀ b ∈ s, b.Valid

variable {s s' : Pool} {act : Act} {acts : List Act} {b buf : Buffer} {i : Nat}

theorem Valid.snoc (h : s.Valid) (hb : b.Valid) : Valid (s ++ [b]) := by
  intro b' hm
  cases mem_append.mp hm
  case inl hm => exact h b' hm
  case inr hm => exact mem_singleton.mp hm ▸ hb

theorem Valid.set (h : s.Valid) (hb : b.Valid) : Valid (s.set i b) := by
  intro b' hm
  cases mem_or_eq_of_mem_set hm
  case inl hm => exact h b' hm
  case inr hm => exact hm ▸ hb

theorem move_valid_iff (h : buf.Valid) : buf.move.2.Valid ↔ buf.writeIndex = 0 where
  mp hm  := Nat.le_zero.mp hm.write_le_size
  mpr hw := ⟨h.read_le_write, Nat.le_of_eq hw⟩

theorem Valid.step (h : s.Valid) (hk : s.KeepsValid act) (e : Step s act s') : s'.Valid := by
  cases e
  case construct => exact h.snoc (new_valid _)
  case copy buf hb =>
    rw [copy_eq]
    exact h.snoc (h buf (mem_of_getElem? hb))
  case move buf hb =>
    have hbuf := h buf (mem_of_getElem? hb)
    exact (h.set ((move_valid_iff hbuf).mpr (hk buf hb))).snoc hbuf
  case assign b buffer _ hb =>
    split
    case isTrue  => exact h
    case isFalse =>
      rw [assign_eq]
      exact h.set (h buffer (mem_of_getElem? hb))
  case call b call hb _ => exact h.set (call.exec_valid (h b (mem_of_getElem? hb)))

theorem Valid.broken (h : s.Valid) (hk : ¬s.KeepsValid act) (e : Step s act s') : ¬s'.Valid := by
  cases e
  case move i buf hb =>
    simp only [KeepsValid, hb, Option.mem_some, forall_eq'] at hk
    have hbuf := h buf (mem_of_getElem? hb)
    have ⟨hi, _⟩ := List.getElem?_eq_some_iff.mp hb
    have hm : buf.move.2 ∈ s.set i buf.move.2 ++ [buf.move.1] :=
      mem_append_left _ (mem_set hi _)
    exact fun h' => hk ((move_valid_iff hbuf).mp (h' _ hm))
  all_goals exact absurd trivial hk

def room (b : Buffer) (len : Nat) : Nat :=
  (if b.writeableBytes < len then b.makeSpace len else b).writeableBytes

theorem valid_of_keepsValid (e : Steps (Steps.When KeepsValid Step) [] acts s) :
    (∀ b ∈ s, b.readIndex ≤ b.writeIndex ∧ b.writeIndex ≤ b.buffer.length ∧
      b.readableBytes = b.writeIndex - b.readIndex ∧
      b.writeableBytes = b.buffer.length - b.writeIndex ∧
      ∀ src : List Byte, src.length ≤ room b src.length) ∧
    (∀ act s', Step s act s' → ¬s.KeepsValid act →
      ∃ b ∈ s', ¬(b.readIndex ≤ b.writeIndex ∧ b.writeIndex ≤ b.buffer.length)) := by
  have hs : s.Valid := e.invariant (P := Valid) (fun h e => h.step e.left e.right) (by simp [Valid])
  refine ⟨fun b hb => ?_, fun act s' e hk => ?_⟩
  · have h := hs b hb
    exact ⟨h.read_le_write, h.write_le_size, h.readableBytes_eq, h.writeableBytes_eq,
      fun src => (append_target h src.length).right⟩
  · have hn := hs.broken hk e
    simp only [Valid, not_forall] at hn
    have ⟨b, hb, hn⟩ := hn
    exact ⟨b, hb, fun hv => hn ⟨hv.left, hv.right⟩⟩

theorem valid_of_move_after_read :
    ∃ s : Pool, Steps (Steps.When KeepsValid Step) []
      [.construct 4, .call 0 (.op (.append [1, 2])), .call 0 (.op .readAllAsString), .move 0,
        .call 0 (.op (.append [3]))] s ∧
      ∀ b ∈ s, b.readIndex ≤ b.writeIndex ∧ b.writeIndex ≤ b.buffer.length ∧
        b.readableBytes = b.writeIndex - b.readIndex ∧
        b.writeableBytes = b.buffer.length - b.writeIndex ∧
        ∀ src : List Byte, src.length ≤ room b src.length := by
  have ⟨s, e⟩ : ∃ s : Pool, Steps (Steps.When KeepsValid Step) []
      [.construct 4, .call 0 (.op (.append [1, 2])), .call 0 (.op .readAllAsString), .move 0,
        .call 0 (.op (.append [3]))] s := by
    refine ⟨_, .step ⟨trivial, .construct⟩ (.step ⟨trivial, .call rfl trivial⟩
      (.step ⟨trivial, .call rfl trivial⟩
        (.step ⟨?_, .move rfl⟩ (.single ⟨trivial, .call rfl trivial⟩))))⟩
    intro buf hb
    cases hb
    rfl
  exact ⟨s, e, (valid_of_keepsValid e).left⟩

-- A buffer with unread bytes is moved from. What it says about its room wraps, and `append` copies
-- behind the end of its vector.
theorem not_valid_of_move :
    ∃ s : Pool, Steps Step [] [.construct 4, .call 0 (.op (.append [1])), .move 0] s ∧
      ∃ b ∈ s, b.buffer = [] ∧ b.writeIndex = 1 ∧ b.writeableBytes = 2 ^ 64 - 1 ∧
        (b.append [2]).buffer = [] ∧ (b.append [2]).writeIndex = 2 := by
  refine ⟨_, .step .construct (.step (.call rfl trivial) (.single (.move rfl))), ?_⟩
  refine ⟨⟨4, [], 0, 1⟩, ?_⟩
  decide +kernel

end Pool
end Bounce.Buffer
