import Mathlib.Logic.Function.Basic
import Mathlib.Logic.Relation
import GameServer.FastSpinlock
/-!
# LockOrderChecker

The stack of locks a thread has entered, and threads that enter and leave the
locks of a set `Λ` in any nesting. `Push` comes before the first read of
`mLockFlag`, `Pop` after the last `InterlockedAdd`. A failed `CRASH_ASSERT` ends
the process: there is no state after it.
-/

namespace GameServer

open Lib

namespace LockOrderChecker

variable {Λ : Type*}

def maxLockDepth : Nat := 32

/-- `LO_DONT_CARE` -/
def loDontCare : Int := 0

/-- `Push` on `mLockStack`, the top first. -/
def push (mLockOrder : Λ → Int) (mLockStack : List Λ) (lock : Λ) : Option (List Λ) :=
  if mLockStack.length < maxLockDepth then
    match mLockStack with
    | [] => some [lock]
    | top :: rest => if mLockOrder top < mLockOrder lock then some (lock :: top :: rest) else none
  else none

def pop [DecidableEq Λ] (mLockStack : List Λ) (lock : Λ) : Option (List Λ) :=
  match mLockStack with
  | [] => none
  | top :: rest => if top = lock then some rest else none

/-- The call of `FastSpinlock` a thread has not returned from. -/
inductive Pending (Λ : Type*) where
  | enter (lock : Λ)
  /-- `LLockOrderChecker->Pop(this)` is left to do. -/
  | pop (lock : Λ)
  deriving DecidableEq, Repr

structure Thread (Λ : Type*) where
  phase : Λ → FastSpinlock.Phase
  pending : Option (Pending Λ)
  mLockStack : List Λ

/-- The flags of the locks and the threads. -/
structure Process (Λ : Type*) where
  mLockFlag : Λ → BitVec 32
  threads : List (Thread Λ)

inductive Call (Λ : Type*) where
  | enterWriteLock (lock : Λ)
  | leaveWriteLock (lock : Λ)
  | enterReadLock (lock : Λ)
  | leaveReadLock (lock : Λ)
  /-- The call the thread is in goes on. -/
  | advance
  deriving DecidableEq, Repr

def Call.enters : Call Λ → Bool
  | .enterWriteLock _ | .enterReadLock _ => true
  | _ => false

variable [DecidableEq Λ] (mLockOrder : Λ → Int)

/-- The thread's step `c` on `lock`, which changes nothing of the other locks. -/
def Thread.on (mLockFlag : Λ → BitVec 32) (t : Thread Λ) (lock : Λ) (c : FastSpinlock.Call) :
    Option ((Λ → BitVec 32) × Thread Λ) :=
  (FastSpinlock.act (mLockFlag lock) (t.phase lock) c).map fun r =>
    (Function.update mLockFlag lock r.1, { t with phase := Function.update t.phase lock r.2 })

/-- The start of `EnterWriteLock` or `EnterReadLock`, with the order check. -/
def Thread.enter (mLockFlag : Λ → BitVec 32) (t : Thread Λ) (lock : Λ) (c : FastSpinlock.Call) :
    Option ((Λ → BitVec 32) × Thread Λ) :=
  if t.pending = none then
    (if mLockOrder lock = loDontCare then some t.mLockStack else push mLockOrder t.mLockStack lock).bind
      fun mLockStack => { t with mLockStack, pending := some (.enter lock) }.on mLockFlag lock c
  else none

/-- `LeaveWriteLock` or `LeaveReadLock` up to the order check. -/
def Thread.leave (mLockFlag : Λ → BitVec 32) (t : Thread Λ) (lock : Λ) (c : FastSpinlock.Call) :
    Option ((Λ → BitVec 32) × Thread Λ) :=
  if t.pending = none then
    { t with pending := if mLockOrder lock = loDontCare then none else some (.pop lock) }.on mLockFlag lock c
  else none

/-- The enter function returns once the lock is held. -/
def Thread.settle (lock : Λ) (t : Thread Λ) : Thread Λ :=
  if (t.phase lock).holds then { t with pending := none } else t

def Thread.act (mLockFlag : Λ → BitVec 32) (t : Thread Λ) : Call Λ → Option ((Λ → BitVec 32) × Thread Λ)
  | .enterWriteLock lock => t.enter mLockOrder mLockFlag lock .enterWriteLock
  | .leaveWriteLock lock => t.leave mLockOrder mLockFlag lock .leaveWriteLock
  | .enterReadLock lock => t.enter mLockOrder mLockFlag lock .enterReadLock
  | .leaveReadLock lock => t.leave mLockOrder mLockFlag lock .leaveReadLock
  | .advance =>
    match t.pending with
    | none => none
    | some (.enter lock) => (t.on mLockFlag lock .advance).map (Prod.map id (Thread.settle lock))
    | some (.pop lock) =>
      (pop t.mLockStack lock).map fun mLockStack => (mLockFlag, { t with mLockStack, pending := none })

namespace Process

/-- Unlocked locks and `n` threads outside of them. -/
def start (Λ : Type*) (n : Nat) : Process Λ := ⟨fun _ => 0, List.replicate n ⟨fun _ => .outside, none, []⟩⟩

/-- Thread `a.1` takes the step `a.2`. -/
def step (s : Process Λ) (a : Nat × Call Λ) : Option (Process Λ) :=
  s.threads[a.1]?.bind fun t =>
    (t.act mLockOrder s.mLockFlag a.2).map fun r => ⟨r.1, s.threads.set a.1 r.2⟩

/-- Thread `i` is in `EnterWriteLock` or `EnterReadLock` of `lock`. -/
def Waits (s : Process Λ) (i : Nat) (lock : Λ) : Prop :=
  ∃ t, s.threads[i]? = some t ∧ t.pending = some (.enter lock)

def Holds (s : Process Λ) (i : Nat) (lock : Λ) : Prop :=
  ∃ t, s.threads[i]? = some t ∧ (t.phase lock).holds

/-- A writer that found itself the only one, waiting for the readers or past them. -/
def Claims (s : Process Λ) (i : Nat) (lock : Λ) : Prop :=
  ∃ t, s.threads[i]? = some t ∧ (t.phase lock).claims

/-- Thread `i` waits for a lock that thread `j` holds or has claimed. -/
def WaitsFor (s : Process Λ) (i j : Nat) : Prop :=
  i ≠ j ∧ ∃ lock, s.Waits i lock ∧ (s.Holds j lock ∨ s.Claims j lock)

/-- No threads wait for each other in a cycle, and when threads wait, one that
holds a lock does not, or one of them completes its call by steps that enter
nothing more. -/
structure DeadlockFree (s : Process Λ) : Prop where
  acyclic : ∀ i, ¬ Relation.TransGen s.WaitsFor i i
  progress : (∃ i lock, s.Waits i lock) →
    (∃ i lock, s.Holds i lock ∧ ∀ lock', ¬ s.Waits i lock') ∨
    ∃ i lock as s', s.Waits i lock ∧ (∀ a ∈ as, Call.enters (Prod.snd a) = false) ∧
      run (step mLockOrder) s as = some s' ∧ s'.Holds i lock

end Process

end LockOrderChecker

end GameServer
