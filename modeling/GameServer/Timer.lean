import GameServer.Lib.Heap
import Mathlib.Data.Int.Order.Basic
/-!
# The timer of an IO thread

`Timer.h` and `Timer.cpp` of Homework4. The queue is a binary heap in a vector, and
`top` is a reference into the vector's buffer, which a push replaces when it is
full. A task may do anything to the rest of the program; to the timer it only
pushes. Ticks are `Int`: an `int64_t` of milliseconds does not wrap.
-/

namespace GameServer

namespace Timer

open Lib

/-- The owner is the address of a `SyncExecutable`. -/
structure TimerJobElement (τ : Type) where
  mOwner : Nat
  mTask : τ
  mExecutionTick : Int
  deriving DecidableEq

/-- A call of `PushTimerJob`. -/
structure Push (τ : Type) where
  owner : Nat
  task : τ
  after : Nat
  deriving DecidableEq

/-- A lock that is left through a reference into a buffer that is freed is none that
can be named. -/
inductive LockEvent where
  | enterLock (owner : Nat)
  | leaveLock (owner : Option Nat)
  deriving DecidableEq

/-- How far a call of `DoTimerJob` has come. -/
inductive Course where
  | returned
  | running
  /-- `LeaveLock` was called through a reference that dangles. -/
  | undefined
  deriving DecidableEq

/-- `TimerJobComparator` has the element on top that is due first. -/
abbrev TimerJobPriorityQueue (τ : Type) := PriorityQueue fun e : TimerJobElement τ => e.mExecutionTick

end Timer

open Timer Lib

/-- The vector has room for `capacity` elements in buffer number `buffer`. `executed`,
`pushed` and `locks` record what `DoTimerJob` does. -/
structure Timer (τ : Type) where
  mTimerJobQueue : TimerJobPriorityQueue τ
  capacity : Nat
  room : mTimerJobQueue.c.length ≤ capacity
  buffer : Nat
  LTickCount : Int
  executed : List (TimerJobElement τ)
  pushed : List (TimerJobElement τ)
  locks : List LockEvent

namespace Timer

variable {τ σ : Type}

/-- A queue in a vector of some capacity, before a call of `DoTimerJob`. -/
def of (q : TimerJobPriorityQueue τ) (capacity : Nat) (room : q.c.length ≤ capacity) : Timer τ where
  mTimerJobQueue := q
  capacity := capacity
  room := room
  buffer := 0
  LTickCount := 0
  executed := []
  pushed := []
  locks := []

def element (t : Timer τ) (p : Push τ) : TimerJobElement τ := ⟨p.owner, p.task, p.after + t.LTickCount⟩

def lock (t : Timer τ) (e : LockEvent) : Timer τ := { t with locks := t.locks ++ [e] }

/-- `timerJobElem.mOwner`, for the reference that `top` gave in the buffer. -/
def deref (t : Timer τ) (buffer : Nat) : Option Nat :=
  if t.buffer = buffer then t.mTimerJobQueue.top.map TimerJobElement.mOwner else none

section
variable (grow : Nat → Nat)

/-- A full vector moves to a buffer that is at least one larger. -/
def pushTimerJob (t : Timer τ) (p : Push τ) : Timer τ :=
  let size := t.mTimerJobQueue.c.length
  if h : size < t.capacity then
    { t with
      mTimerJobQueue := t.mTimerJobQueue.push (t.element p)
      room := by rw [PriorityQueue.length_push]; exact h
      pushed := t.pushed ++ [t.element p] }
  else
    { t with
      mTimerJobQueue := t.mTimerJobQueue.push (t.element p)
      capacity := size + 1 + grow size
      room := by rw [PriorityQueue.length_push]; exact Nat.le_add_right _ _
      buffer := t.buffer + 1
      pushed := t.pushed ++ [t.element p] }

def pop (t : Timer τ) : Timer τ :=
  { t with mTimerJobQueue := t.mTimerJobQueue.pop, room := Nat.le_trans (PriorityQueue.length_pop_le _) t.room }

variable (task : τ → σ → σ × List (Push τ))

/-- The body of the loop up to `LeaveLock`, for the element on top. -/
def runTask (t : Timer τ) (e : TimerJobElement τ) (s : σ) : Timer τ × σ :=
  let timerJobElem := t.buffer
  let t := t.lock (.enterLock e.mOwner)
  let r := task e.mTask s
  let t := r.2.foldl (pushTimerJob grow) { t with executed := t.executed ++ [e] }
  (t.lock (.leaveLock (t.deref timerJobElem)), r.1)

/-- The loop, for at most `fuel` turns. It goes on if the reference of the turn is into
the buffer that the vector still has. -/
def loop : (fuel : Nat) → Timer τ → σ → Course × Timer τ × σ
  | 0, t, s => (.running, t, s)
  | fuel + 1, t, s =>
    match t.mTimerJobQueue.top with
    | none => (.returned, t, s)
    | some e =>
      if t.LTickCount < e.mExecutionTick then (.returned, t, s)
      else
        let r := runTask grow task t e s
        if r.1.buffer = t.buffer then loop fuel r.1.pop r.2 else (.undefined, r)

/-- `now` is what `GetTickCount64` returns. -/
def doTimerJob (fuel : Nat) (now : Int) (t : Timer τ) (s : σ) : Course × Timer τ × σ :=
  loop grow task fuel { t with LTickCount := now } s

end

end Timer

end GameServer
