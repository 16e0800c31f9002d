import Mathlib.Data.BitVec
import GameServer.Lib.Run
/-!
# FastSpinlock

The reader-writer lock of Homework4 as a step relation. Every read of
`mLockFlag` and every `InterlockedAdd` is one atomic step, so a run is an
interleaving of such steps by any number of threads. The order check in front
of a call is in `GameServer.LockOrderChecker`.
-/

namespace GameServer

open Lib

namespace FastSpinlock

def lfWriteMask : BitVec 32 := 0x7FF00000#32
def lfWriteFlag : BitVec 32 := 0x00100000#32
def lfReadMask : BitVec 32 := 0x000FFFFF#32

/-- Where a thread stands with one lock: the next atomic step of its call, or
the section the call has entered. -/
inductive Phase where
  | outside
  /-- `while (mLockFlag & LF_WRITE_MASK)` of `EnterWriteLock` -/
  | spinWrite
  /-- `InterlockedAdd(&mLockFlag, LF_WRITE_FLAG)` and the test of its result -/
  | addWrite
  /-- `InterlockedAdd(&mLockFlag, -LF_WRITE_FLAG)` after the test failed -/
  | backOutWrite
  /-- `while (mLockFlag & LF_READ_MASK)` -/
  | drain
  | inWrite
  /-- `while (mLockFlag & LF_WRITE_MASK)` of `EnterReadLock` -/
  | spinRead
  /-- `InterlockedAdd(&mLockFlag, 1)` and the test of its result -/
  | addRead
  /-- `InterlockedAdd(&mLockFlag, -1)` after the test failed -/
  | backOutRead
  | inRead
  deriving DecidableEq, Repr

namespace Phase

/-- The thread is in `EnterWriteLock` or `EnterReadLock`. -/
@[grind =] def entering : Phase → Bool
  | outside | inWrite | inRead => false
  | _ => true

/-- The thread's `LF_WRITE_FLAG` is in `mLockFlag`. -/
@[grind =] def wrote : Phase → Bool
  | backOutWrite | drain | inWrite => true
  | _ => false

/-- The thread's 1 is in `mLockFlag`. -/
@[grind =] def read : Phase → Bool
  | backOutRead | inRead => true
  | _ => false

/-- The thread found itself the only writer and has not left since. -/
@[grind =] def claims : Phase → Bool
  | drain | inWrite => true
  | _ => false

/-- The call that entered the lock has returned. -/
def holds : Phase → Bool
  | inWrite | inRead => true
  | _ => false

/-- What the thread has added to `mLockFlag` and not taken back. -/
@[grind =] def added (p : Phase) : BitVec 32 :=
  (if p.wrote then lfWriteFlag else 0) + (if p.read then 1 else 0)

end Phase

/-- One atomic step of `EnterWriteLock` or `EnterReadLock`. -/
@[grind =] def advance (mLockFlag : BitVec 32) : Phase → BitVec 32 × Phase
  | .spinWrite => (mLockFlag, if mLockFlag &&& lfWriteMask = 0 then .addWrite else .spinWrite)
  | .addWrite =>
    let sum := mLockFlag + lfWriteFlag
    (sum, if sum &&& lfWriteMask = lfWriteFlag then .drain else .backOutWrite)
  | .backOutWrite => (mLockFlag + -lfWriteFlag, .spinWrite)
  | .drain => (mLockFlag, if mLockFlag &&& lfReadMask = 0 then .inWrite else .drain)
  | .spinRead => (mLockFlag, if mLockFlag &&& lfWriteMask = 0 then .addRead else .spinRead)
  | .addRead =>
    let sum := mLockFlag + 1
    (sum, if sum &&& lfWriteMask = 0 then .inRead else .backOutRead)
  | .backOutRead => (mLockFlag + -1, .spinRead)
  | p => (mLockFlag, p)

inductive Call where
  | enterWriteLock
  | leaveWriteLock
  | enterReadLock
  | leaveReadLock
  /-- The enter function the thread is in goes on. -/
  | advance
  deriving DecidableEq, Repr

/-- A step of a thread on the flag. A thread calls an enter function from
outside, and leaves what it has entered. -/
@[grind =] def act (mLockFlag : BitVec 32) (p : Phase) : Call → Option (BitVec 32 × Phase)
  | .enterWriteLock => if p = .outside then some (mLockFlag, .spinWrite) else none
  | .leaveWriteLock => if p = .inWrite then some (mLockFlag + -lfWriteFlag, .outside) else none
  | .enterReadLock => if p = .outside then some (mLockFlag, .spinRead) else none
  | .leaveReadLock => if p = .inRead then some (mLockFlag + -1, .outside) else none
  | .advance => if p.entering then some (advance mLockFlag p) else none

end FastSpinlock

/-- A lock and the threads that use it. -/
structure FastSpinlock where
  mLockFlag : BitVec 32
  threads : List FastSpinlock.Phase
  deriving DecidableEq, Repr

namespace FastSpinlock

/-- A new lock and `n` threads. -/
def start (n : Nat) : FastSpinlock := ⟨0, List.replicate n .outside⟩

/-- Thread `a.1` takes the step `a.2`. -/
def step (s : FastSpinlock) (a : Nat × Call) : Option FastSpinlock :=
  s.threads[a.1]?.bind fun p => (act s.mLockFlag p a.2).map fun r => ⟨r.1, s.threads.set a.1 r.2⟩

end FastSpinlock

end GameServer
