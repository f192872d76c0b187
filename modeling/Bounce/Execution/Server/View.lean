import Bounce.Execution.Server.Basic
import Bounce.Execution.Connection.Theorems.Lifetime

namespace Bounce

namespace Connection

variable {θ : Type} [DecidableEq θ] {cfg : Callbacks} {own base t : θ} {c c' : Connection θ}
variable {code : Code θ} {codes : List (Code θ)} {answer : Answer} {api : Api}

theorem Runs.fd (hr : Runs cfg base t c code answer c' codes) : c'.socket.fd = c.socket.fd := by
  cases hr
  case sendInLoop  => exact TcpConnection.sendInLoop_fd
  case handleWrite => exact TcpConnection.handleWrite_fd
  case shutdownInLoop | checkDisconnecting => exact TcpConnection.shutdownInLoop_fd
  all_goals rfl

theorem Calls.fd (hc : Calls own t c api c' codes) : c'.socket.fd = c.socket.fd := by
  cases hc <;> rfl

theorem Step.fd {s s' : State θ} {act : Act θ} (e : Step cfg own base s act s') :
    s'.conn.socket.fd = s.conn.socket.fd := by
  cases e
  case call       => exact (call_cases ..).fd
  case exec hs hr => exact (run_cases hr).fd
  all_goals rfl

end Connection

namespace Server

open Connection (Code Answer Api)
open Tagged

variable {θ : Type} [DecidableEq θ]

inductive Act.For (c : Nat) : Act θ → Connection.Act θ → Prop
  | call {t api}     : For c (.call t c api) (.call t api)
  | exec {t answer}  : For c (.exec t answer) (.exec t answer)
  | poll {t batch}   : For c (.poll t batch) (.poll t (batch.lookup c))
  | dispatch {t}     : For c (.dispatch t) (.dispatch t)
  | swap {t}         : For c (.swap t) (.swap t)
  | task {t}         : For c (.task t) (.task t)
  | finish {t}       : For c (.finish t) (.finish t)

variable {cfg : Callbacks} {initSize : Nat} {base t : θ} {s s' : State θ} {act : Act θ} {c d : Nat}

structure Turns (s : State θ) : Prop where
  layered : ∀ t, Layered (· = Code.user) (s.stack t)
  batch   : ∀ t batch, s.phase t = .dispatch batch → (batch.map (·.1)).Nodup

def Matched (s : State θ) : Prop :=
  ∀ t c rest, s.stack t = (c, .task .removeConnectionInLoop) :: rest →
    ∀ d, s.connectionMap[s.getFd c]? = some d → d = c

namespace State

theorem view_resume {r : Connection θ × List (Code θ)} {rest : List (Nat × Code θ)}
    (h : r.1.socket.fd = s.getFd c) :
    (s.resume t c r rest).view c = (s.view c).resume t r (only c rest) := by
  have hst : (fun t' => only c ((s.resume t c r rest).stack t')) =
      Function.update (fun t' => only c (s.stack t')) t (r.2 ++ only c rest) := by
    funext t'
    by_cases ht : t' = t
    case pos => simp [resume, ht]
    case neg => simp [resume, ht]
  simp only [view, Connection.State.resume, hst]
  simp [resume, getFd, h]

theorem view_resume_of_ne {r : Connection θ × List (Code θ)} {rest : List (Nat × Code θ)}
    (h : d ≠ c) (hs : only c rest = only c (s.stack t)) :
    (s.resume t d r rest).view c = s.view c := by
  have hst : (fun t' => only c ((s.resume t d r rest).stack t')) =
      fun t' => only c (s.stack t') := by
    funext t'
    by_cases ht : t' = t
    case pos => simp [resume, ht, only_tag_of_ne h, hs]
    case neg => simp [resume, ht]
  simp only [view, hst]
  simp [resume, getFd, Ne.symm h]

theorem view_setPhase {p : Phase} : (s.setPhase t p).view c = (s.view c).setPhase t (p.of c) := by
  have hp : (fun t' => ((s.setPhase t p).phase t').of c) =
      Function.update (fun t' => (s.phase t').of c) t (p.of c) := by
    funext t'
    by_cases ht : t' = t <;> simp [setPhase, ht]
  simp only [view, Connection.State.setPhase, hp]
  rfl

theorem view_setQueue {q : TaskQueue (Nat × Connection.Task θ)} :
    (s.setQueue t q).view c = (s.view c).setQueue t ⟨only c q.taskVec, only c q.tmpVec⟩ := by
  have hq : (fun t' => (⟨only c ((s.setQueue t q).queue t').taskVec,
      only c ((s.setQueue t q).queue t').tmpVec⟩ :
      TaskQueue (Connection.Task θ))) = Function.update (fun t' => ⟨only c (s.queue t').taskVec,
        only c (s.queue t').tmpVec⟩) t ⟨only c q.taskVec, only c q.tmpVec⟩ := by
    funext t'
    by_cases ht : t' = t <;> simp [setQueue, ht]
  simp only [view, Connection.State.setQueue, hq]
  rfl

theorem view_setPhase_of_eq {p : Phase} (h : p.of c = (s.phase t).of c) :
    (s.setPhase t p).view c = s.view c := by
  rw [view_setPhase, h]
  simp [Connection.State.setPhase, view]

theorem view_setQueue_of_eq {q : TaskQueue (Nat × Connection.Task θ)}
    (h₁ : only c q.taskVec = only c (s.queue t).taskVec)
    (h₂ : only c q.tmpVec = only c (s.queue t).tmpVec) :
    (s.setQueue t q).view c = s.view c := by
  rw [view_setQueue, h₁, h₂]
  simp [Connection.State.setQueue, view]

omit [DecidableEq θ] in
theorem view_callable (h : Layered (· = Code.user) (s.stack t)) (hc : s.Callable t) :
    (s.view c).Callable t := by
  obtain hs | ⟨d, rest, hs⟩ := hc
  · exact .inl (by simp [view, hs])
  · simp only [Connection.State.Callable, view, hs]
    by_cases hd : d = c
    case pos =>
      subst hd
      exact .inr ⟨only d rest, only_cons_self⟩
    case neg =>
      rw [only_cons_of_ne hd]
      obtain he | ⟨b, bs, he, rfl⟩ := (hs ▸ h).only_of_ne hd
      · exact .inl he
      · exact .inr ⟨bs, he⟩

omit [DecidableEq θ] in
theorem removeConnectionInLoop_frame : (s.removeConnectionInLoop c).1.conn = s.conn ∧
    (s.removeConnectionInLoop c).1.stack = s.stack := by
  rw [removeConnectionInLoop]
  split <;> exact ⟨rfl, rfl⟩

omit [DecidableEq θ] in
theorem view_removeConnectionInLoop (h : ∀ x, s.connectionMap[s.getFd d]? = some x → x = d) :
    ((s.removeConnectionInLoop d).1.view d = { s.view d with mapped := false } ∧
      (s.removeConnectionInLoop d).2 = if (s.view d).mapped then [.queue .destroyConnection]
        else []) ∧
    ∀ c, d ≠ c → (s.removeConnectionInLoop d).1.view c = s.view c := by
  rw [removeConnectionInLoop]
  cases hl : s.connectionMap[s.getFd d]?
  case none =>
    have hm : (s.view d).mapped = false := by simp [view, hl]
    refine ⟨⟨?_, by simp [hm]⟩, fun _ _ => rfl⟩
    rw [← hm]
  case some x =>
    obtain rfl := h x hl
    have hm : (s.view x).mapped = true := by simp [view, hl]
    refine ⟨⟨?_, by simp [hm]⟩, fun c hc => ?_⟩
    · simp [view, getFd]
    · have he : ((s.connectionMap.erase (s.getFd x))[s.getFd c]? == some c) =
          (s.connectionMap[s.getFd c]? == some c) := by
        rw [Std.TreeMap.getElem?_erase]
        by_cases hf : s.getFd x = s.getFd c
        case pos =>
          rw [← hf]
          simp [hl, hc]
        case neg => simp [hf]
      simp only [view, ← he]
      rfl

def top (s : State θ) : Act θ → Option (Nat × Code θ)
  | .exec t _ => (s.stack t).head?
  | _         => none

def destroys (s : State θ) (act : Act θ) (c : Nat) : Nat :=
  if s.top act = some (c, .task .destroyConnection) then 1 else 0

end State

-- A step of the server is a step of each connection, or nothing for it.
inductive Viewed (cfg : Callbacks) (base : θ) (s : State θ) (act : Act θ) (s' : State θ)
    (c : Nat) : Prop
  | none :
    s'.view c = s.view c → (∀ code, s.top act ≠ some (c, code)) → Viewed cfg base s act s' c
  | step {a} :
    act.For c a → Connection.Step cfg (s.loop c) base (s.view c) a (s'.view c) →
    s.top act = ((s.view c).top a).map (c, ·) → Viewed cfg base s act s' c

theorem destroys_of_map {a : Connection.Act θ} (h : s.top act = ((s.view c).top a).map (c, ·)) :
    s.destroys act c = (s.view c).destroys a := by
  rw [State.destroys, Connection.State.destroys, h]
  cases (s.view c).top a <;> simp

omit [DecidableEq θ] in
theorem top_ne {answer : Answer} {code : Code θ} {rest : List (Nat × Code θ)}
    (h : s.stack t = (d, code) :: rest) (hd : d ≠ c) :
    ∀ code, s.top (.exec t answer) ≠ some (c, code) := by
  simp [State.top, h, hd]

omit [DecidableEq θ] in
theorem top_eq {answer : Answer} {code : Code θ} {rest : List (Nat × Code θ)}
    (h : s.stack t = (c, code) :: rest) :
    s.top (.exec t answer) = ((s.view c).top (.exec t answer)).map (c, ·) := by
  simp [State.top, Connection.State.top, State.view, h]

theorem Step.viewed (ht : Turns s) (hm : Matched s) (e : Step cfg initSize base s act s')
    (ha : ∀ loop fd, act ≠ .accept loop fd) (c : Nat) : Viewed cfg base s act s' c := by
  cases e
  case accept loop fd _ _ _ _ => exact absurd rfl (ha loop fd)
  case hold | drop            => exact .none rfl nofun
  case call t d api hl hk hc =>
    by_cases hd : d = c
    case neg => exact .none (State.view_resume_of_ne hd rfl) nofun
    case pos =>
      subst hd
      refine .step .call ?_ rfl
      rw [State.view_resume (Connection.call_cases ..).fd]
      exact .call hk (State.view_callable (ht.layered t) hc)
  case exec t d code rest answer r hs hr =>
    by_cases hd : d = c
    case neg =>
      exact .none (State.view_resume_of_ne hd (by rw [hs, only_cons_of_ne hd])) (top_ne hs hd)
    case pos =>
      subst hd
      refine .step .exec ?_ (top_eq hs)
      rw [State.view_resume (Connection.run_cases hr).fd]
      exact .exec (by simp [State.view, hs]) hr
  case queue t d f rest hs =>
    by_cases hd : d = c
    case neg =>
      refine .none ?_ (top_ne hs hd)
      rw [State.view_resume_of_ne hd (by simp [State.setQueue, hs, only_cons_of_ne hd])]
      exact State.view_setQueue_of_eq (by simp [TaskQueue.push, only_cons_of_ne hd]) rfl
    case pos =>
      subst hd
      refine .step .exec ?_ (top_eq hs)
      rw [State.view_resume rfl, State.view_setQueue]
      have hq : (⟨only d ((s.queue (f.home (s.loop d) base)).push (d, f)).taskVec,
          only d ((s.queue (f.home (s.loop d) base)).push (d, f)).tmpVec⟩ :
            TaskQueue (Connection.Task θ)) =
            ((s.view d).queue (f.home (s.loop d) base)).push f := by
        simp [TaskQueue.push, State.view]
      rw [hq]
      exact .queue (by simp [State.view, hs])
  case remove t d rest hs =>
    obtain ⟨⟨hv, hr⟩, hn⟩ := State.view_removeConnectionInLoop (hm t d rest hs)
    obtain ⟨hc, hst⟩ := State.removeConnectionInLoop_frame (s := s) (c := d)
    by_cases hd : d = c
    case neg =>
      refine .none ?_ (top_ne hs hd)
      rw [State.view_resume_of_ne hd (by rw [hst, hs, only_cons_of_ne hd]), hn c hd]
    case pos =>
      subst hd
      refine .step .exec ?_ (top_eq hs)
      rw [State.view_resume (by rw [State.getFd, hc]), hv, hr]
      exact .remove (by simp [State.view, hs])
  case poll t batch hp hs hn hb =>
    refine .step .poll ?_ rfl
    rw [State.view_setPhase]
    refine .poll (by simp [State.view, hp, Phase.of]) (by simp [State.view, hs]) fun r hr => ?_
    obtain ⟨l₁, l₂, hl, _⟩ := List.lookup_eq_some_iff.mp hr
    obtain ⟨_, ho, hv, hr⟩ := hb (c, r) (by simp [hl])
    exact ⟨ho.symm, hv, hr⟩
  case dispatch t d revents batch hp hs =>
    have hnd := ht.batch t _ hp
    by_cases hd : d = c
    case neg =>
      refine .none ?_ (by simp [State.top])
      rw [State.view_resume_of_ne hd (by simp [State.setPhase, hs])]
      refine State.view_setPhase_of_eq ?_
      rw [hp, Phase.of, Phase.of, List.lookup_cons, beq_eq_false_iff_ne.mpr (Ne.symm hd)]
    case pos =>
      subst hd
      refine .step .dispatch ?_ rfl
      rw [State.view_resume rfl, State.view_setPhase]
      have hl : batch.lookup d = none := by
        have hnd := (List.nodup_cons.mp hnd).left
        rw [List.lookup_eq_none_iff]
        intro x hx
        exact bne_iff_ne.mpr fun he => hnd (List.mem_map.mpr ⟨x, hx, he.symm⟩)
      rw [Phase.of, hl]
      exact .dispatch (by simp [State.view, hp, Phase.of]) (by simp [State.view, hs])
  case swap t hp hs =>
    refine .step .swap ?_ rfl
    rw [State.view_setQueue, State.view_setPhase]
    exact .swap (by simp [State.view, hp, Phase.of]) (by simp [State.view, hs])
  case task t d f tasks hp hs hq =>
    by_cases hd : d = c
    case neg =>
      refine .none ?_ (by simp [State.top])
      rw [State.view_resume_of_ne hd (by simp [State.setQueue, hs])]
      exact State.view_setQueue_of_eq rfl (by simp [hq, only_cons_of_ne hd])
    case pos =>
      subst hd
      refine .step .task ?_ rfl
      rw [State.view_resume rfl, State.view_setQueue]
      exact .task (by simp [State.view, hp, Phase.of]) (by simp [State.view, hs])
        (by simp [State.view, hq])
  case finish t hp hs hq =>
    refine .step .finish ?_ rfl
    rw [State.view_setPhase]
    exact .finish (by simp [State.view, hp, Phase.of]) (by simp [State.view, hs])
      (by simp [State.view, hq])

theorem Turns.resume {r : Connection θ × List (Code θ)} {rest : List (Nat × Code θ)} (h : Turns s)
    (hl : Layered (· = Code.user) (tag c r.2 ++ rest)) : Turns (s.resume t c r rest) where
  layered t' := by
    by_cases ht : t' = t
    case pos => simpa [State.resume, ht] using hl
    case neg => simpa [State.resume, ht] using h.layered t'
  batch := h.batch

theorem Turns.setPhase {p : Phase} (h : Turns s)
    (hp : ∀ batch, p = .dispatch batch → (batch.map (·.1)).Nodup) :
    Turns (s.setPhase t p) where
  layered := h.layered
  batch t' batch hb := by
    by_cases ht : t' = t
    case pos => exact hp batch (by simpa [State.setPhase, ht] using hb)
    case neg => exact h.batch t' batch (by simpa [State.setPhase, ht] using hb)

theorem Turns.step (h : Turns s) (e : Step cfg initSize base s act s') : Turns s' := by
  cases e
  case accept =>
    refine ⟨fun t => ?_, h.batch⟩
    by_cases ht : t = base
    case pos => simp [State.newConnection, ht, Layered]
    case neg => simpa [State.newConnection, ht] using h.layered t
  case hold | drop => exact ⟨h.layered, h.batch⟩
  case call t c api _ _ hc =>
    refine h.resume ((h.layered t).push fun x hx => ?_)
    obtain hs | ⟨d, rest, hs⟩ := hc
    · simp [hs] at hx
    · obtain rfl : (d, Code.user) = x := by simpa [hs] using hx
      exact .inr rfl
  case exec hs _ => exact h.resume (hs ▸ h.layered _).resume
  case queue t c f rest hs =>
    exact Turns.resume (s := s.setQueue _ _) ⟨h.layered, h.batch⟩ (hs ▸ h.layered t).resume
  case remove t c rest hs =>
    have hr : Turns (s.removeConnectionInLoop c).1 := by
      rw [State.removeConnectionInLoop]
      split <;> exact ⟨h.layered, h.batch⟩
    exact hr.resume (hs ▸ h.layered t).resume
  case poll hn _ => exact h.setPhase fun batch hb => Phase.dispatch.inj hb ▸ hn
  case dispatch t c revents batch hp _ =>
    have hn := h.batch t _ hp
    have hs : Turns (s.setPhase t (.dispatch batch)) :=
      h.setPhase fun batch hb => Phase.dispatch.inj hb ▸ (List.nodup_cons.mp hn).right
    exact hs.resume (Layered.nil.push (by simp))
  case swap t _ _ =>
    have hs : Turns (s.setPhase t .tasks) := h.setPhase fun _ hb => by cases hb
    exact ⟨hs.layered, hs.batch⟩
  case task =>
    exact Turns.resume (s := s.setQueue _ _) ⟨h.layered, h.batch⟩ (Layered.nil.push (by simp))
  case finish => exact h.setPhase fun _ hb => by cases hb

end Server
end Bounce
