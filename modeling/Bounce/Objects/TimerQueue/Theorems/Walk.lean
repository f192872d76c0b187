import Bounce.Library.Worklist
import Bounce.Objects.TimerQueue.Theorems.Callbacks

namespace Bounce.TimerQueue

variable {γ : Type} {q q' : TimerQueue γ} {body : γ → List (Action γ)} {now : TimePoint}
variable {l₁ todo l₃ : List Entry} {e : Entry}

open Multimap

theorem inFront_congr {l₃' : List Entry} (h : l₃'.head? = l₃.head?) : inFront l₃' = inFront l₃ := by
  funext k
  rw [inFront, inFront, h]

-- The walk has the entries `todo` in front of it, up to the entries `l₃`.
structure Walking (q : TimerQueue γ) (l₁ todo l₃ : List Entry) : Prop where
  wellFormed : q.WellFormed
  entries    : q.timerMapRepeat.entries = l₁ ++ todo ++ l₃
  front      : ∀ e ∈ todo, inFront l₃ e.1

namespace Walking

theorem mem_entries (h : Walking q l₁ todo l₃) {e : Entry} (he : e ∈ l₁ ++ todo ++ l₃) :
    e ∈ q.entries :=
  List.mem_append_right _ (h.entries ▸ he)

theorem nodup (h : Walking q l₁ todo l₃) : ((l₁ ++ todo ++ l₃).map (·.2)).Nodup := by
  have hn := h.wellFormed.nodup
  rw [TimerQueue.entries, List.map_append, h.entries] at hn
  exact hn.of_append_right

theorem sorted (h : Walking q l₁ (e :: todo) l₃) : ∀ e' ∈ todo, e.1 ≤ e'.1 := by
  have hs := q.timerMapRepeat.sorted
  rw [h.entries, List.pairwise_append, List.pairwise_append, List.pairwise_cons] at hs
  exact hs.left.right.left.left

theorem sorted_left (h : Walking q l₁ (e :: todo) l₃) : ∀ e' ∈ l₁, e'.1 ≤ e.1 := by
  have hs := q.timerMapRepeat.sorted
  rw [h.entries, List.pairwise_append, List.pairwise_append] at hs
  exact fun e' he => hs.left.right.right e' he e List.mem_cons_self

-- Where the new entries of a callback go: in front of the entry that the walk is at, to the entries
-- that are still to come, or to the last part.
theorem adds {actions : List (Action γ)} {log : List (TimerPtr × TimePoint)} {os rs : List Entry}
    (h : Walking q l₁ (e :: todo) l₃) (ha : Adds actions log q os rs q') :
    ∃ l₁' todo' l₃', Walking q' (l₁' ++ [e]) todo' l₃' ∧ l₃'.head? = l₃.head? ∧
      l₁'.Perm (l₁ ++ rs.filter (·.1 < e.1)) ∧
      todo'.Perm (todo ++ rs.filter fun e' => e.1 ≤ e'.1 ∧ inFront l₃ e'.1) ∧
      l₃'.Perm (l₃ ++ rs.filter fun e' => !inFront l₃ e'.1) := by
  have hf : ∀ e' ∈ e :: todo, e.1 ≤ e'.1 ∧ inFront l₃ e'.1 := by
    intro e' he
    refine ⟨?_, h.front e' he⟩
    cases List.mem_cons.mp he
    case inl he => exact he ▸ le_rfl
    case inr he => exact h.sorted e' he
  have ⟨l₁', todo', l₃', hp, hp₁, hp₂, hp₃, hh⟩ := insertEntries_parts rs h.sorted_left hf
  refine ⟨l₁', todo', l₃', ⟨ha.wellFormed h.wellFormed, ?_, ?_⟩, hh, hp₁, hp₂, hp₃⟩
  · rw [ha.repeat', h.entries, hp]
    simp
  · intro e' he
    rw [inFront_congr hh]
    cases List.mem_append.mp (hp₂.mem_iff.mp he)
    case inl he => exact h.front e' (.tail _ he)
    case inr he => simpa using (List.mem_filter.mp he).right |> And.right ∘ of_decide_eq_true

theorem callback (body : γ → List (Action γ)) (h : Walking q l₁ (e :: todo) l₃) :
    ∃ l₁' todo' l₃' new, Walking (q.execCallback body e.2) (l₁' ++ [e]) todo' l₃' ∧
      l₃'.head? = l₃.head? ∧ todo'.Perm (todo ++ new) ∧
      new.map (q.execCallback body e.2).item = (repeated (body (q.timer e.2).timeOutCb)).filter
        (fun x => e.1 ≤ x.1 ∧ inFront l₃ x.1) ∧
      ∀ t < q.allocated, (q.execCallback body e.2).timer t = q.timer t := by
  have ha := execCallback_adds q body e.2
  have ⟨l₁', todo', l₃', h', hh, _, hp, _⟩ := h.adds ha
  refine ⟨l₁', todo', l₃', _, h', hh, hp, ?_, ha.timer⟩
  rw [← ha.items, List.filter_map]
  rfl

theorem iterator_ne (h : Walking q l₁ (e :: todo) l₃) : some e.2 ≠ iterator l₃ := by
  have hn : (q.timerMapRepeat.entries.map (·.2)).Nodup := by
    rw [h.entries]
    exact h.nodup
  exact ne_iterator h.entries hn (by simp)

theorem next {l₁' todo' l₃' : List Entry} (todo l₃ : List Entry)
    (h : Walking q (l₁' ++ [e]) todo' l₃') :
    q.timerMapRepeat.next (iterator (e :: todo ++ l₃)) = iterator (todo' ++ l₃') := by
  have he : q.timerMapRepeat.entries = l₁' ++ (e :: todo' ++ l₃') := by
    simpa using h.entries
  have hn : (q.timerMapRepeat.entries.map (·.2)).Nodup := by
    rw [h.entries]
    exact h.nodup
  exact next_iterator he hn

end Walking

theorem walk_nil {upper : Iterator TimerPtr} {n : Nat} {acc : List TimerPtr} :
    q.walk body upper (n + 1) upper acc = some (q, acc) := by
  simp [walk]

theorem walk_cons {n : Nat} {acc : List TimerPtr} (h : Walking q l₁ (e :: todo) l₃)
    {l₁' todo' l₃' : List Entry} (h' : Walking (q.execCallback body e.2) (l₁' ++ [e]) todo' l₃')
    (hh : l₃'.head? = l₃.head?) :
    q.walk body (iterator l₃) (n + 1) (iterator (e :: todo ++ l₃)) acc =
      (q.execCallback body e.2).walk body (iterator l₃') n (iterator (todo' ++ l₃'))
        (acc ++ [e.2]) := by
  have hi : iterator l₃' = iterator l₃ := by rw [iterator, iterator, hh]
  rw [← h'.next todo l₃, hi]
  exact if_neg h.iterator_ne

def Spawns (body : γ → List (Action γ)) (front : TimePoint → Prop) (y x : TimePoint × γ) : Prop :=
  y ∈ repeated (body x.2) ∧ x.1 ≤ y.1 ∧ front y.1

end Bounce.TimerQueue
