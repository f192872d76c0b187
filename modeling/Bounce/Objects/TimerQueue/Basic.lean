import Bounce.Library.Multimap
import Mathlib.Logic.Function.Basic

namespace Bounce

-- Time points and durations count nanoseconds.
abbrev TimePoint := Int64
abbrev NanoSeconds := Int64

instance instLinearOrderInt64 : LinearOrder Int64 where
  le_refl := Int64.le_refl
  le_trans _ _ _ := Int64.le_trans
  le_antisymm _ _ := Int64.le_antisymm
  le_total := Int64.le_total
  lt_iff_le_not_ge a b := by
    rw [Int64.lt_iff_toInt_lt, Int64.le_iff_toInt_le, Int64.le_iff_toInt_le]
    omega
  toDecidableLE := inferInstance
  toDecidableLT := inferInstance
  toDecidableEq := inferInstance
  compare_eq_compareOfLessAndEq _ _ := rfl
  min_def _ _ := rfl
  max_def _ _ := rfl

def TimePoint.max : TimePoint :=
  .maxValue

def nanoSecondsPerSecond : NanoSeconds :=
  1000000000

structure Timer (γ : Type) where
  expiration : TimePoint
  duration   : NanoSeconds
  timeOutCb  : γ

abbrev TimerPtr := Nat

structure Timespec where
  sec  : Int64
  nsec : Int64
  deriving DecidableEq

-- A timer descriptor is set, and expires on its own. It keeps the clock of the last setting with
-- it.
inductive TimerFd.Status
  | disarmed
  | armed
  | expired
  deriving DecidableEq

structure TimerFd where
  status : TimerFd.Status
  clock  : TimePoint
  value  : Timespec
  deriving DecidableEq

-- What a callback does on the thread of the loop: it adds a timer, where the clock is the one that
-- `resetTimerfd` reads if it gets called, or it deletes one.
inductive Action (γ : Type)
  | addTimer (timer : Timer γ) (clock : TimePoint)
  | deleteTimer (timer : TimerPtr)

-- The timers live in `timer`, which is allocated below `allocated`. The callbacks that have been
-- run are listed in `ran` with the expiration that their timer had then.
structure TimerQueue (γ : Type) where
  timerMapOnce   : Multimap TimePoint TimerPtr
  timerMapRepeat : Multimap TimePoint TimerPtr
  minExpiration  : TimePoint
  timerFd        : TimerFd
  timer          : TimerPtr → Timer γ
  allocated      : TimerPtr
  deletions      : List TimerPtr
  ran            : List (TimerPtr × TimePoint)

variable {γ : Type}

namespace Timer

def repeats (t : Timer γ) : Bool :=
  t.duration ≠ 0

def timerUpdate (t : Timer γ) : Timer γ :=
  if t.duration ≠ 0 then { t with expiration := t.expiration + t.duration } else t

end Timer

namespace TimerFd

def new : TimerFd where
  status := .disarmed
  clock  := 0
  value  := ⟨0, 0⟩

def settime (clock : TimePoint) (value : Timespec) : TimerFd where
  status := if value = ⟨0, 0⟩ then .disarmed else .armed
  clock  := clock
  value  := value

-- A `read` ends the expiration, and fails if there is none.
def read (fd : TimerFd) : TimerFd :=
  if fd.status = .expired then { fd with status := .disarmed } else fd

def expire (fd : TimerFd) : TimerFd :=
  if fd.status = .armed then { fd with status := .expired } else fd

end TimerFd

namespace Action

def runAt (expiration : TimePoint) (cb : γ) (clock : TimePoint) : Action γ :=
  .addTimer ⟨expiration, 0, cb⟩ clock

def runAfter (now : TimePoint) (delay : NanoSeconds) (cb : γ) (clock : TimePoint) : Action γ :=
  .addTimer ⟨now + delay, 0, cb⟩ clock

def runEvery (now : TimePoint) (interval : NanoSeconds) (cb : γ) (clock : TimePoint) : Action γ :=
  .addTimer ⟨now + interval, interval, cb⟩ clock

end Action

namespace TimerQueue

def new (timer : TimerPtr → Timer γ) : TimerQueue γ where
  timerMapOnce   := .empty
  timerMapRepeat := .empty
  minExpiration  := .max
  timerFd        := .new
  timer          := timer
  allocated      := 0
  deletions      := []
  ran            := []

def expiration (q : TimerQueue γ) (it : Multimap.Iterator TimerPtr) : TimePoint :=
  match it with
  | some t => (q.timer t).expiration
  | none   => .max

def earliest (q : TimerQueue γ) : TimePoint :=
  let once := q.expiration q.timerMapOnce.first
  let repeated := q.expiration q.timerMapRepeat.first
  if once < repeated then once else repeated

-- The delay to an expiration, where 10 nanoseconds stand for one in the past.
def delay (expiration clock : TimePoint) : Timespec :=
  let diff := expiration - clock
  let diff := if diff < 0 then 10 else diff
  ⟨diff / nanoSecondsPerSecond, diff % nanoSecondsPerSecond⟩

def resetTimerfd (q : TimerQueue γ) (clock : TimePoint) : TimerQueue γ :=
  { q with
    minExpiration := q.earliest
    timerFd := if q.earliest ≠ .max then .settime clock (delay q.earliest clock) else q.timerFd }

def insertTimer (q : TimerQueue γ) (t : TimerPtr) : TimerQueue γ :=
  let timer := q.timer t
  if ¬timer.repeats then
    { q with timerMapOnce := q.timerMapOnce.insert (timer.expiration, t) }
  else
    { q with timerMapRepeat := q.timerMapRepeat.insert (timer.expiration, t) }

def addTimerInLoop (q : TimerQueue γ) (t : TimerPtr) (clock : TimePoint) : TimerQueue γ :=
  let q := q.insertTimer t
  if (q.timer t).expiration < q.minExpiration then q.resetTimerfd clock else q

def allocate (q : TimerQueue γ) (timer : Timer γ) : TimerQueue γ :=
  { q with timer := Function.update q.timer q.allocated timer, allocated := q.allocated + 1 }

-- On the thread of the loop, where `doTaskInThread` calls `addTimerInLoop` at once.
def addTimer (q : TimerQueue γ) (timer : Timer γ) (clock : TimePoint) : TimerQueue γ :=
  (q.allocate timer).addTimerInLoop q.allocated clock

def deleteTimer (q : TimerQueue γ) (t : TimerPtr) : TimerQueue γ :=
  { q with deletions := q.deletions ++ [t] }

-- The loop from the lower bound on looks for the timer until the expirations get greater.
def deleteTimerInLoop (q : TimerQueue γ) (t : TimerPtr) : TimerQueue γ :=
  let lower := q.timerMapRepeat.lowerBound (q.timer t).expiration
  let candidates := (q.timerMapRepeat.onward lower).takeWhile fun e =>
    (q.timer e.2).expiration ≤ (q.timer t).expiration
  if candidates.any (·.2 = t) then
    { q with timerMapRepeat := q.timerMapRepeat.erase (some t) }
  else
    q

def exec (q : TimerQueue γ) : Action γ → TimerQueue γ
  | .addTimer timer clock => q.addTimer timer clock
  | .deleteTimer t        => q.deleteTimer t

def execCallback (body : γ → List (Action γ)) (q : TimerQueue γ) (t : TimerPtr) : TimerQueue γ :=
  let q' := { q with ran := q.ran ++ [(t, (q.timer t).expiration)] }
  (body (q.timer t).timeOutCb).foldl exec q'

def runOnce (body : γ → List (Action γ)) (now : TimePoint) (q : TimerQueue γ) : TimerQueue γ :=
  let upper := q.timerMapOnce.upperBound now
  let toDelete := q.timerMapOnce.before upper
  let q := { q with timerMapOnce := q.timerMapOnce.eraseBefore upper }
  toDelete.foldl (fun q e => q.execCallback body e.2) q

-- The walk over the repeat timers up to `upper`, with `toUpdate` for the timers that have been run.
def walk (body : γ → List (Action γ)) (upper : Multimap.Iterator TimerPtr) :
    Nat → Multimap.Iterator TimerPtr → List TimerPtr → TimerQueue γ →
      Option (TimerQueue γ × List TimerPtr)
  | 0, _, _, _ => none
  | n + 1, it, toUpdate, q =>
    if it = upper then
      some (q, toUpdate)
    else
      match it with
      | none   => none
      | some t =>
        let q := q.execCallback body t
        walk body upper n (q.timerMapRepeat.next it) (toUpdate ++ [t]) q

def update (q : TimerQueue γ) (t : TimerPtr) : TimerQueue γ :=
  let timer := (q.timer t).timerUpdate
  { q with
    timer          := Function.update q.timer t timer
    timerMapRepeat := q.timerMapRepeat.insert (timer.expiration, t) }

-- The second part of `handleRead`, with a limit on the steps of its walk.
def runRepeat (body : γ → List (Action γ)) (now : TimePoint) (fuel : Nat) (q : TimerQueue γ) :
    Option (TimerQueue γ) :=
  let upper := q.timerMapRepeat.upperBound now
  (q.walk body upper fuel q.timerMapRepeat.first []).map fun (q, toUpdate) =>
    toUpdate.foldl update { q with timerMapRepeat := q.timerMapRepeat.eraseBefore upper }

def handleRead (body : γ → List (Action γ)) (now clock : TimePoint) (fuel : Nat)
    (q : TimerQueue γ) :
    Option (TimerQueue γ) :=
  let q := { q with timerFd := q.timerFd.read }
  ((q.runOnce body now).runRepeat body now fuel).map (·.resetTimerfd clock)

end TimerQueue
end Bounce
