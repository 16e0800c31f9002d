import GameServer.Lib.Memory
import Mathlib.Algebra.Group.Nat.Defs
/-!
# The bip buffer

`CircularBuffer.h` and `CircularBuffer.cpp`, which Homework3 to Homework7 and
DummyClients share unchanged. A pointer into the allocation is its offset from
`mBuffer`; sizes are `size_t` values, so sums and differences wrap.
-/

namespace GameServer

open Lib

abbrev Byte := UInt8

/-- The number of `size_t` values. -/
def sizeMod : Nat := 2 ^ 64

/-- `a + b` on `size_t`. -/
def addSize (a b : Nat) : Nat := (a + b) % sizeMod

/-- `a - b` on `size_t`. -/
def subSize (a b : Nat) : Nat := (a + sizeMod - b) % sizeMod

structure CircularBuffer where
  mBuffer : List Byte
  mBufferEnd : Nat
  mARegionPointer : Nat
  mARegionSize : Nat
  mBRegionPointer : Option Nat
  mBRegionSize : Nat
  mCapacity : Nat
  deriving DecidableEq

namespace CircularBuffer

/-- The constructor. `new char[n]` leaves the cells unset; they read as 0 here. -/
def new (capacity : Nat) : CircularBuffer where
  mBuffer := List.replicate capacity 0
  mBufferEnd := capacity
  mARegionPointer := 0
  mARegionSize := 0
  mBRegionPointer := none
  mBRegionSize := 0
  mCapacity := capacity

def bufferReset (b : CircularBuffer) : CircularBuffer where
  mBuffer := List.replicate b.mCapacity 0
  mBufferEnd := b.mCapacity
  mARegionPointer := 0
  mARegionSize := 0
  mBRegionPointer := none
  mBRegionSize := 0
  mCapacity := b.mCapacity

def allocateB (b : CircularBuffer) : CircularBuffer := { b with mBRegionPointer := some 0 }

def getAFreeSpace (b : CircularBuffer) : Nat := subSize (subSize b.mBufferEnd b.mARegionPointer) b.mARegionSize

def getSpaceBeforeA (b : CircularBuffer) : Nat := b.mARegionPointer

def getBFreeSpace (b : CircularBuffer) : Nat :=
  match b.mBRegionPointer with
  | none => 0
  | some p => subSize (subSize b.mARegionPointer p) b.mBRegionSize

/-- The free space, and the buffer after the query, which may open region B. -/
def getFreeSpaceSize (b : CircularBuffer) : Nat × CircularBuffer :=
  if b.mBRegionPointer.isSome then (b.getBFreeSpace, b)
  else if b.getAFreeSpace < b.getSpaceBeforeA then (b.allocateB.getBFreeSpace, b.allocateB)
  else (b.getAFreeSpace, b)

def getStoredSize (b : CircularBuffer) : Nat := addSize b.mARegionSize b.mBRegionSize

def getContiguiousBytes (b : CircularBuffer) : Nat :=
  if 0 < b.mARegionSize then b.mARegionSize else b.mBRegionSize

/-- Where the next bytes are written. -/
def getBuffer (b : CircularBuffer) : Nat :=
  match b.mBRegionPointer with
  | some p => p + b.mBRegionSize
  | none => b.mARegionPointer + b.mARegionSize

/-- The caller's `memcpy` of `bs` to `GetBuffer()`. -/
def write (b : CircularBuffer) (bs : List Byte) : CircularBuffer :=
  { b with mBuffer := overwrite b.mBuffer b.getBuffer bs }

def commit (b : CircularBuffer) (len : Nat) : CircularBuffer :=
  if b.mBRegionPointer.isSome then { b with mBRegionSize := addSize b.mBRegionSize len }
  else { b with mARegionSize := addSize b.mARegionSize len }

/-- Where the stored bytes start; null when nothing is stored and B is not open. -/
def getBufferStart (b : CircularBuffer) : Option Nat :=
  if 0 < b.mARegionSize then some b.mARegionPointer else b.mBRegionPointer

/-- How much of `cnt` `Remove` takes off A. -/
def aRemove (b : CircularBuffer) (cnt : Nat) : Nat := if cnt > b.mARegionSize then b.mARegionSize else cnt

/-- How much of `cnt` it takes off B. -/
def bRemove (b : CircularBuffer) (cnt : Nat) : Nat := if cnt > b.mBRegionSize then b.mBRegionSize else cnt

/-- `Remove`'s first block: the buffer and the count left to remove. -/
def removeFromA (b : CircularBuffer) (cnt : Nat) : CircularBuffer × Nat :=
  if 0 < b.mARegionSize then
    ({ b with mARegionSize := subSize b.mARegionSize (b.aRemove cnt)
              mARegionPointer := b.mARegionPointer + b.aRemove cnt },
      subSize cnt (b.aRemove cnt))
  else (b, cnt)

/-- Its second block. -/
def removeFromB (b : CircularBuffer) (cnt : Nat) : CircularBuffer :=
  if 0 < cnt ∧ 0 < b.mBRegionSize then
    { b with mBRegionSize := subSize b.mBRegionSize (b.bRemove cnt)
             mBRegionPointer := b.mBRegionPointer.map (· + b.bRemove cnt) }
  else b

/-- Its third block: once A is empty, B becomes A at the start of the allocation. -/
def reseat (b : CircularBuffer) : CircularBuffer :=
  if b.mARegionSize = 0 then
    if 0 < b.mBRegionSize then
      { b with mBuffer := match b.mBRegionPointer with
                 | some p => if p ≠ 0 then move b.mBuffer 0 p b.mBRegionSize else b.mBuffer
                 | none => b.mBuffer
               mARegionPointer := 0
               mARegionSize := b.mBRegionSize
               mBRegionPointer := none
               mBRegionSize := 0 }
    else { b with mBRegionPointer := none, mBRegionSize := 0, mARegionPointer := 0, mARegionSize := 0 }
  else b

def remove (b : CircularBuffer) (len : Nat) : CircularBuffer :=
  let r := b.removeFromA len
  (r.1.removeFromB r.2).reseat

/-! ## What the buffer holds -/

def regionA (b : CircularBuffer) : List Byte := slice b.mBuffer b.mARegionPointer b.mARegionSize

def regionB (b : CircularBuffer) : List Byte :=
  match b.mBRegionPointer with
  | none => []
  | some p => slice b.mBuffer p b.mBRegionSize

/-- The stored bytes, oldest first. -/
def contents (b : CircularBuffer) : List Byte := b.regionA ++ b.regionB

/-- The bytes at `GetBufferStart()`, as many as `GetContiguiousBytes()` says. -/
def contiguous (b : CircularBuffer) : List Byte :=
  match b.getBufferStart with
  | none => []
  | some p => slice b.mBuffer p b.getContiguiousBytes

/-- The representation invariant: B is closed, or starts at offset 0 and ends
before a non-empty A; an empty A starts at offset 0. -/
structure Inv (b : CircularBuffer) : Prop where
  cap : b.mCapacity < sizeMod
  alloc : b.mBuffer.length = b.mCapacity
  fin : b.mBufferEnd = b.mCapacity
  inside : b.mARegionPointer + b.mARegionSize ≤ b.mCapacity
  closed : b.mBRegionPointer = none → b.mBRegionSize = 0
  opened : ∀ p, b.mBRegionPointer = some p → p = 0 ∧ b.mBRegionSize ≤ b.mARegionPointer ∧ 0 < b.mARegionSize
  empty : b.mARegionSize = 0 → b.mARegionPointer = 0

end CircularBuffer

end GameServer
