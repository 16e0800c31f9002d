import GameServer.Lib.Cyclic
import GameServer.Lib.Run
import Mathlib.Algebra.Group.Nat.Defs
import Mathlib.Algebra.Group.Int.Defs
/-!
# The logs of Homework7

`Log.h` and `Log.cpp`. Each thread keeps its last calls, and how long they took,
in arrays of its own; `EventLog` stores into one array for all threads, at an
index it has from an interlocked counter. A dump gives the rows between the
headings. Calls of `EventLog` are interleaved statement by statement.
-/

namespace GameServer

namespace Log

/-- The value of a signed 64-bit expression. -/
def int64 (x : Int) : Int := Int.bmod x (2 ^ 64)

/-- A conversion to `int`. -/
def int32 (x : Int) : Int := Int.bmod x (2 ^ 32)

/-- A conversion to `uint64_t`. -/
def uint64 (x : Int) : Nat := (x % 2 ^ 64).toNat

/-! ## The threads' own records -/

/-- `ThreadCallHistory::MAX_HISTORY`. -/
def maxHistory : Nat := 1024

/-- `ThreadCallElapsedRecord::MAX_ELAPSED_RECORD`. -/
def maxElapsedRecord : Nat := 512 * 64

/-- A string that was never stored is null. -/
structure ThreadCallHistory where
  mCounter : Nat
  mThreadId : Int
  mHistory : Nat → Option String

namespace ThreadCallHistory

def new (tid : Int) : ThreadCallHistory := ⟨0, tid, fun _ => none⟩

def append (r : ThreadCallHistory) (funsig : String) : ThreadCallHistory :=
  { r with
    mCounter := (r.mCounter + 1) % 2 ^ 64
    mHistory := Function.update r.mHistory (r.mCounter % maxHistory) (some funsig) }

-- `i` is at most the counter, so `mCounter - i` does not wrap.
def dumpOut (r : ThreadCallHistory) : List (Int × Option String) :=
  let count := if r.mCounter < maxHistory then r.mCounter else maxHistory
  (List.range' 1 count).map fun i => (r.mThreadId, r.mHistory ((r.mCounter - i) % maxHistory))

end ThreadCallHistory

structure ThreadCallElapsedRecord where
  mCounter : Nat
  mThreadId : Int
  mElapsedFuncSig : Nat → Option String
  mElapsedTime : Nat → Int

namespace ThreadCallElapsedRecord

def new (tid : Int) : ThreadCallElapsedRecord := ⟨0, tid, fun _ => none, fun _ => 0⟩

def append (r : ThreadCallElapsedRecord) (funcsig : String) (elapsedMicroseconds : Int) : ThreadCallElapsedRecord :=
  { r with
    mElapsedFuncSig := Function.update r.mElapsedFuncSig r.mCounter (some funcsig)
    mElapsedTime := Function.update r.mElapsedTime r.mCounter elapsedMicroseconds
    mCounter := (r.mCounter + 1) % maxElapsedRecord }

def dumpOut (r : ThreadCallElapsedRecord) : List (Int × Option String × Int) :=
  let count := if r.mCounter < maxElapsedRecord then r.mCounter else maxElapsedRecord
  (List.range' 1 count).map fun i =>
    (r.mThreadId, r.mElapsedFuncSig ((r.mCounter - i) % maxElapsedRecord),
      r.mElapsedTime ((r.mCounter - i) % maxElapsedRecord))

end ThreadCallElapsedRecord

/-! ## Times -/

/-- `(endTick.QuadPart - startTick.QuadPart) * 1000000`. -/
def scaled (startTick endTick : Int) : Int := int64 (int64 (endTick - startTick) * 1000000)

/-- `scaled` and then `/= frequency`, which rounds towards zero. -/
def micros (frequency startTick endTick : Int) : Int := int64 ((scaled startTick endTick).tdiv frequency)

/-- What `~ScopeElapsedCheck` gives to `Append`. -/
def ScopeElapsedCheck.elapsedMicroseconds (mFrequency mStartTick endTick : Int) : Int :=
  micros mFrequency mStartTick endTick

/-- What `EventLog` stores in the `uint64_t`. -/
def EventLog.mMicrosecTimestamp (gFrequencyQPC gStartQPC endQPC : Int) : Nat :=
  uint64 (micros gFrequencyQPC gStartQPC endQPC)

/-! ## The log of all threads -/

/-- `MAX_LOG_SIZE`. -/
def maxLogSize : Nat := 16777216

structure LogEvent where
  mThreadId : Int
  mAdditionalInfo : Int
  mMessage : Option String
  mMicrosecTimestamp : Nat
  deriving DecidableEq

/-- The statement a call of `EventLog` does next. -/
inductive Stage where
  | message
  | additionalInfo
  | threadId
  | timestamp
  | done
  deriving DecidableEq

/-- A call of `EventLog` after its increment. `index` is the local after `%=`, and
`endQPC` is read for the last store. -/
structure Call where
  threadId : Nat
  msg : String
  info : Int
  index : Int
  next : Stage
  endQPC : Int
  deriving DecidableEq

/-- `calls` has every call, in the order of the increments. -/
structure State where
  gLogEvents : Nat → LogEvent
  gCurrentLogIndex : Int
  calls : List Call

inductive Action where
  | increment (threadId : Nat) (msg : String) (info : Int)
  | store (k : Nat) (endQPC : Int)
  deriving DecidableEq

def State.init : State := ⟨fun _ => ⟨-1, 0, none, 0⟩, 0, []⟩

section
variable (gFrequencyQPC gStartQPC : Int)

/-- What the call is to leave in the log. -/
def Call.record (c : Call) : LogEvent :=
  ⟨int32 c.threadId, c.info, some c.msg, EventLog.mMicrosecTimestamp gFrequencyQPC gStartQPC c.endQPC⟩

/-- The store a call does next, and the call after it. -/
def Call.store (c : Call) (e : LogEvent) (endQPC : Int) : Option (LogEvent × Call) :=
  match c.next with
  | .message => some ({ e with mMessage := some c.msg }, { c with next := .additionalInfo })
  | .additionalInfo => some ({ e with mAdditionalInfo := c.info }, { c with next := .threadId })
  | .threadId => some ({ e with mThreadId := int32 c.threadId }, { c with next := .timestamp })
  | .timestamp =>
    some ({ e with mMicrosecTimestamp := EventLog.mMicrosecTimestamp gFrequencyQPC gStartQPC endQPC },
      { c with next := .done, endQPC := endQPC })
  | .done => none

/-- A store below the array has no next state. -/
def State.step (s : State) : Action → Option State
  | .increment threadId msg info =>
    if ∀ c ∈ s.calls, c.threadId = threadId → c.next = .done then
      let gCurrentLogIndex := int64 (s.gCurrentLogIndex + 1)
      let index := (int64 (gCurrentLogIndex - 1)).tmod maxLogSize
      some { s with gCurrentLogIndex, calls := s.calls ++ [⟨threadId, msg, info, index, .message, 0⟩] }
    else none
  | .store k endQPC => do
    let c ← s.calls[k]?
    if c.index < 0 then none
    else
      let (e, c') ← c.store gFrequencyQPC gStartQPC (s.gLogEvents c.index.toNat) endQPC
      some { s with gLogEvents := Function.update s.gLogEvents c.index.toNat e, calls := s.calls.set k c' }

end

/-- The rows; none where one is read outside the array. -/
def State.eventLogDumpOut (s : State) : Option (List LogEvent) :=
  let count := if s.gCurrentLogIndex < maxLogSize then uint64 s.gCurrentLogIndex else maxLogSize
  (List.range' 1 count).mapM fun _ =>
    let index := uint64 ((int64 (s.gCurrentLogIndex - 1)).tmod maxLogSize)
    if index < maxLogSize then some (s.gLogEvents index) else none

end Log

end GameServer
