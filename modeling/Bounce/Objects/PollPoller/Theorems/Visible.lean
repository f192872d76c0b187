import Bounce.Objects.PollPoller.Theorems.Run
import Mathlib.Data.List.Induction
import Mathlib.Data.List.Nodup

namespace Bounce

namespace Watch

def shown (w : Watch) : Option (Int × Events) :=
  (w.slot.filter (0 ≤ ·.fd)).map fun e => (e.fd, e.events)

theorem update_shown {w : Watch} (h : 0 ≤ w.fd) :
    w.update.shown = if w.slot.isSome ∧ w.events = 0 then none else some (w.fd, w.events) := by
  by_cases hw : w.slot.isSome ∧ w.events = 0
  case pos =>
    have hn : -w.fd - 1 < 0 := by omega
    simp [update, shown, hw.left, hw.right, Channel.kNoneEvent, hn]
  case neg =>
    have hh : (w.slot.isSome && w.events == Channel.kNoneEvent) = false := by
      simpa [Channel.kNoneEvent] using hw
    rw [if_neg hw]
    simp [update, shown, hh, Option.filter, h]

end Watch

namespace PollPoller

variable {χ : Type}

namespace Call

def updates : Call χ → Bool
  | remove _ => false
  | _        => true

def disables : Call χ → Bool
  | disableReading _ | disableWriting _ | disableAll _ => true
  | _                                                  => false

def onEvents : Call χ → Events → Events
  | enableReading _, events  => events ||| Channel.kReadEvent
  | disableReading _, events => events &&& ~~~Channel.kReadEvent
  | enableWriting _, events  => events ||| Channel.kWriteEvent
  | disableWriting _, events => events &&& ~~~Channel.kWriteEvent
  | disableAll _, _          => Channel.kNoneEvent
  | remove _, events         => events

variable {call : Call χ} {calls : List (Call χ)}

theorem onWatch_eq (h : call.updates) (w : Watch) :
    call.onWatch w = { w with events := call.onEvents w.events }.update := by
  cases call
  case remove => contradiction
  all_goals rfl

theorem onEvents_new (h : call.updates) : call.onEvents 0 = 0 ↔ call.disables := by
  cases call
  case remove => contradiction
  all_goals simp only [onEvents, disables]; decide

def onNew (fd : Int) (calls : List (Call χ)) : Watch :=
  calls.foldl (fun w call => call.onWatch w) (.new fd)

theorem onNew_snoc (fd : Int) (calls : List (Call χ)) (call : Call χ) :
    onNew fd (calls ++ [call]) = call.onWatch (onNew fd calls) := by
  simp [onNew]

theorem onNew_fd (fd : Int) (h : ∀ call ∈ calls, call.updates) : (onNew fd calls).fd = fd := by
  induction calls using List.reverseRecOn
  case nil => rfl
  case append_singleton calls call hi =>
    rw [onNew_snoc, onWatch_eq (h call (by simp))]
    exact hi fun call hc => h call (List.mem_append_left _ hc)

theorem onNew_slot (fd : Int) (h : ∀ call ∈ calls, call.updates) :
    (onNew fd calls).slot.isSome ↔ calls ≠ [] := by
  induction calls using List.reverseRecOn
  case nil => simp [onNew, Watch.new]
  case append_singleton calls call _ =>
    rw [onNew_snoc, onWatch_eq (h call (by simp))]
    simp [Watch.update]

-- A channel is hidden from `::poll` by the second call on it at the earliest.
theorem onNew_shown {fd : Int} (hn : 0 ≤ fd) (h : ∀ call ∈ calls, call.updates) :
    (onNew fd calls).shown =
      if calls = [] ∨ (1 < calls.length ∧ (onNew fd calls).events = 0) then none
      else some (fd, (onNew fd calls).events) := by
  induction calls using List.reverseRecOn
  case nil => simp [onNew, Watch.new, Watch.shown]
  case append_singleton calls call _ =>
    have hc : ∀ call ∈ calls, call.updates := fun call hc => h call (List.mem_append_left _ hc)
    have hf := onNew_fd fd hc
    have hw : 0 ≤ ({ onNew fd calls with events := call.onEvents (onNew fd calls).events } :
        Watch).fd :=
      le_of_le_of_eq hn hf.symm
    rw [onNew_snoc, onWatch_eq (h call (by simp)), Watch.update_shown hw, hf]
    simp [onNew_slot fd hc, Watch.update, List.length_pos_iff]

def Lone (calls : List (Call χ)) : Prop :=
  ∃ call : Call χ, calls = [call] ∧ call.disables

theorem lone_iff (fd : Int) (h : ∀ call ∈ calls, call.updates) :
    Lone calls ↔ calls.length = 1 ∧ (onNew fd calls).events = 0 := by
  constructor
  case mp =>
    intro ⟨call, hc, hd⟩
    subst hc
    refine ⟨rfl, ?_⟩
    have hu := h call List.mem_cons_self
    exact (congrArg Watch.events (onWatch_eq hu _)).trans ((onEvents_new hu).mpr hd)
  case mpr =>
    intro ⟨hl, he⟩
    have ⟨call, hc⟩ := List.length_eq_one_iff.mp hl
    subst hc
    have hu := h call List.mem_cons_self
    exact ⟨call, rfl, (onEvents_new hu).mp
      ((congrArg Watch.events (onWatch_eq hu _)).symm.trans he)⟩

theorem onNew_exact_iff {fd : Int} (hn : 0 ≤ fd) (h : ∀ call ∈ calls, call.updates) :
    (onNew fd calls).shown =
        (if calls ≠ [] ∧ (onNew fd calls).events ≠ 0 then some (fd, (onNew fd calls).events)
          else none) ↔
      ¬Lone calls := by
  rw [onNew_shown hn h, lone_iff fd h]
  match calls with
  | []          => simp
  | [call]      => by_cases he : (onNew fd [call]).events = 0 <;> simp [he]
  | _ :: _ :: _ => simp [ite_not]

end Call

def callsOn [DecidableEq χ] (c : χ) (calls : List (Call χ)) : List (Call χ) :=
  calls.filter (·.channel = c)

def visible (p : PollPoller χ) : List (Int × Events) :=
  (p.pollfds.toList.filter (0 ≤ ·.fd)).map fun e => (e.fd, e.events)

structure Watches (p : PollPoller χ) (calls : List (Call χ)) : Prop where
  nodup : p.visible.Nodup
  mem   : ∀ x, x ∈ p.visible ↔ ∃ c, (∃ call ∈ calls, call.channel = c) ∧
    (p.channel c).events ≠ 0 ∧ x = ((p.channel c).fd, (p.channel c).events)

variable [DecidableEq χ] {p : PollPoller χ} {calls : List (Call χ)} {c : χ} {x : Int × Events}

theorem WatchStep.run {w w' : χ → Watch} (e : Steps WatchStep w calls w') (c : χ) :
    w' c = (callsOn c calls).foldl (fun w call => call.onWatch w) (w c) := by
  induction e
  case refl => rfl
  case step call _ h _ hi =>
    rw [hi, h, callsOn, callsOn, List.filter_cons]
    by_cases hc : call.channel = c
    case pos => simp [hc]
    case neg => simp [hc, Function.update_of_ne (Ne.symm hc)]

theorem Consistent.shown_fd (h : p.Consistent) (hx : (p.watch c).shown = some x) :
    x.1 = (p.channel c).fd := by
  simp only [Watch.shown, Option.map_eq_some_iff, Option.filter_eq_some_iff,
    decide_eq_true_eq] at hx
  obtain ⟨e, ⟨he, hp⟩, hx⟩ := hx
  have hn := h.fd_nonneg c
  have hf := h.entry_fd he
  rw [← hx]
  omega

theorem Consistent.mem_visible_iff (h : p.Consistent) :
    x ∈ p.visible ↔ ∃ c, (p.watch c).shown = some x := by
  simp only [visible, Watch.shown, watch, List.mem_map, List.mem_filter, Array.mem_toList_iff,
    Option.map_eq_some_iff, Option.filter_eq_some_iff]
  constructor
  case mp =>
    rintro ⟨e, ⟨hm, hp⟩, hx⟩
    obtain ⟨i, hi, he⟩ := Array.mem_iff_getElem.mp hm
    obtain ⟨c, hr, hc⟩ := h.owner hi
    have hs : p.slot c = some e := by
      rw [slot_of_registered hr, hc, Array.getElem?_eq_getElem hi, he]
    exact ⟨c, e, ⟨hs, hp⟩, hx⟩
  case mpr =>
    rintro ⟨c, e, ⟨hs, hp⟩, hx⟩
    have hr := h.slot_isSome.mp (Option.isSome_iff_exists.mpr ⟨e, hs⟩)
    rw [slot_of_registered hr] at hs
    exact ⟨e, ⟨Array.mem_of_getElem? hs, hp⟩, hx⟩

theorem Consistent.visible_nodup (h : p.Consistent) : p.visible.Nodup := by
  refine List.Nodup.of_map Prod.fst ?_
  rw [visible, List.map_map, List.Nodup, List.pairwise_map, List.pairwise_filter,
    List.pairwise_iff_getElem]
  intro i j hi hj hlt hpi hpj heq
  have hslot : ∀ i, ∀ hi : i < p.pollfds.size, ∃ c, p.Registered c ∧ (p.channel c).index = i ∧
      p.slot c = some p.pollfds[i] := by
    intro i hi
    have ⟨c, hr, hc⟩ := h.owner hi
    exact ⟨c, hr, hc, by rw [slot_of_registered hr, hc, Array.getElem?_eq_getElem hi]⟩
  have ⟨c, hrc, hc, hsc⟩ := hslot i (by simpa using hi)
  have ⟨d, hrd, hd, hsd⟩ := hslot j (by simpa using hj)
  have hfc := h.entry_fd hsc
  have hfd := h.entry_fd hsd
  have hnc := h.fd_nonneg c
  have hnd := h.fd_nonneg d
  simp only [Array.getElem_toList, decide_eq_true_eq, Function.comp_apply] at hpi hpj heq
  have hcd : c = d := h.fd_inj (by omega)
  subst hcd
  omega

theorem Consistent.watches_iff (h : p.Consistent) :
    p.Watches calls ↔ ∀ c, (p.watch c).shown =
      if callsOn c calls ≠ [] ∧ (p.channel c).events ≠ 0 then
        some ((p.channel c).fd, (p.channel c).events)
      else none := by
  have hon : ∀ c, (∃ call ∈ calls, call.channel = c) ↔ callsOn c calls ≠ [] := by
    intro c
    simp [callsOn]
  constructor
  case mp =>
    intro hw c
    have hx : ∀ x, (p.watch c).shown = some x ↔ (callsOn c calls ≠ [] ∧ (p.channel c).events ≠ 0) ∧
        ((p.channel c).fd, (p.channel c).events) = x := by
      intro x
      constructor
      case mp =>
        intro hs
        have ⟨c', hc, he, hx⟩ := (hw.mem x).mp (h.mem_visible_iff.mpr ⟨c, hs⟩)
        have hcc : c' = c := h.fd_inj ((congrArg Prod.fst hx).symm.trans (h.shown_fd hs))
        subst hcc
        exact ⟨⟨(hon _).mp hc, he⟩, hx.symm⟩
      case mpr =>
        intro ⟨⟨hc, he⟩, hx⟩
        have ⟨c', hs⟩ := h.mem_visible_iff.mp ((hw.mem x).mpr ⟨c, (hon c).mpr hc, he, hx.symm⟩)
        have hcc : c' = c := h.fd_inj ((h.shown_fd hs).symm.trans (congrArg Prod.fst hx.symm))
        exact hcc ▸ hs
    refine Option.ext fun x => ?_
    rw [hx, Option.ite_none_right_eq_some, Option.some.injEq]
  case mpr =>
    intro hs
    refine ⟨h.visible_nodup, fun x => ?_⟩
    rw [h.mem_visible_iff]
    refine exists_congr fun c => ?_
    rw [hs c, hon, Option.ite_none_right_eq_some, Option.some.injEq, and_assoc]
    exact and_congr_right fun _ => and_congr_right fun _ => eq_comm

theorem Consistent.run_updates (h : p.Consistent) (hu : ∀ call ∈ calls, call.updates) :
    ∃ p', Steps Step p calls p' := by
  induction calls generalizing p
  case nil => exact ⟨p, .refl⟩
  case cons call calls hi =>
    have hs : p.Safe call := by
      cases call
      case remove => exact absurd (hu _ List.mem_cons_self) Bool.false_ne_true
      all_goals exact trivial
    have ⟨p₁, e, hc, _⟩ := exec_refines h hs
    have ⟨p₂, e₂⟩ := hi hc fun call hm => hu call (List.mem_cons_of_mem _ hm)
    exact ⟨p₂, .step e e₂⟩

theorem watches_iff_not_lone {fd : χ → Int} (hi : Function.Injective fd) (hn : ∀ c, 0 ≤ fd c)
    (hu : ∀ call ∈ calls, call.updates) :
    ∃ p, (new fd).run calls = .ok p ∧ (p.Watches calls ↔ ∀ c, ¬Call.Lone (callsOn c calls)) := by
  have h₀ := new_consistent hi hn
  have ⟨p, e⟩ := h₀.run_updates hu
  have h := run_consistent e h₀
  refine ⟨p, run_iff.mpr e, h.watches_iff.trans (forall_congr' fun c => ?_)⟩
  have hw : p.watch c = Call.onNew (fd c) (callsOn c calls) := WatchStep.run (run_watch e h₀) c
  have hc : ∀ call ∈ callsOn c calls, call.updates :=
    fun call hm => hu call (List.mem_filter.mp hm).left
  have hfd : (p.channel c).fd = fd c := (congrArg Watch.fd hw).trans (Call.onNew_fd _ hc)
  have hev : (p.channel c).events = (Call.onNew (fd c) (callsOn c calls)).events :=
    congrArg Watch.events hw
  rw [hw, hfd, hev]
  exact Call.onNew_exact_iff (hn c) hc

theorem watches_of_descriptor_zero :
    ∃ p : PollPoller Bool, p.visible = [(0, Channel.kWriteEvent)] ∧
      p.Watches [.enableReading false, .enableWriting true, .disableAll false, .disableWriting true,
        .enableWriting false] := by
  have hi : Function.Injective fun b : Bool => if b then (3 : Int) else 0 := by
    intro b b' h
    cases b <;> cases b' <;> simp_all
  have ⟨p, hr, hw⟩ := @watches_iff_not_lone Bool _ [.enableReading false, .enableWriting true,
    .disableAll false, .disableWriting true, .enableWriting false] _ hi (by decide) (by decide)
  refine ⟨p, ?_, hw.mpr ?_⟩
  case refine_1 =>
    cases hr
    rfl
  case refine_2 =>
    intro c ⟨call, hc, _⟩
    revert hc
    cases c <;> simp [callsOn, Call.channel]

theorem not_watches_of_disableAll :
    ∃ p : PollPoller Unit, (new fun _ => 3).run [.disableAll ()] = .ok p ∧ p.visible = [(3, 0)] ∧
      (p.channel ()).events = 0 ∧ ¬p.Watches [.disableAll ()] := by
  refine ⟨_, rfl, rfl, rfl, ?_⟩
  intro h
  have ⟨_, _, he, _⟩ := (h.mem (3, 0)).mp List.mem_cons_self
  exact he rfl

end PollPoller
end Bounce
