import GameServer.Lib.Run
import Mathlib.Logic.Function.Basic
import Mathlib.Algebra.Group.Nat.Defs
import Mathlib.Algebra.Group.Int.Defs
/-!
# The memory pool

`MemoryPool.h` and `MemoryPool.cpp` of Homework4, which Homework3 nearly shares. Small
blocks come from pools of one size each, which keep what they get back on a free
list threaded through the blocks' headers. Addresses are numbers, and null is 0.
Only the header at the start of a block is modelled: what the caller writes goes
behind it, into the `size` bytes it asked for. `sizeof(MemAllocInfo)` is 16 on
Win32 and 32 on x64, and a parameter here.
-/

namespace GameServer

namespace MemoryPool

/-- `MAX_ALLOC_SIZE`. -/
def maxAllocSize : Nat := 4096

/-- What a heap block starts with. `next` is the link of `SLIST_ENTRY`. -/
structure MemAllocInfo where
  next : Nat
  mAllocSize : Int
  mExtraInfo : Int
  deriving DecidableEq

/-- What ends a call: a `CRASH_ASSERT`, an access through a null pointer, or an
address that the heap cannot have answered. -/
inductive Stop where
  | popAssert
  | deallocateAssert
  | nullPool
  | nullHeader
  | noSuchAnswer
  deriving DecidableEq

/-! ## The heap -/

/-- The headers in memory, and the blocks `_aligned_malloc` has given out and not
got back, each an address and a capacity. -/
structure Heap where
  info : Nat → MemAllocInfo
  blocks : List (Nat × Nat)

/-- What `_aligned_malloc` answers: null, or where it puts the block and what
the memory holds there. -/
abbrev Answer := Option (Nat × MemAllocInfo)

def Apart (b c : Nat × Nat) : Prop := b.1 + b.2 ≤ c.1 ∨ c.1 + c.2 ≤ b.1

instance (b c : Nat × Nat) : Decidable (Apart b c) := inferInstanceAs (Decidable (_ ∨ _))

namespace Heap

/-- `_aligned_malloc(n)`. It may place a block anywhere but on another one. -/
def alignedMalloc (h : Heap) (n : Nat) : Answer → Except Stop (Nat × Heap)
  | none => .ok (0, h)
  | some (a, left) =>
    if a ≠ 0 ∧ ∀ b ∈ h.blocks, Apart (a, n) b then
      .ok (a, { info := Function.update h.info a left, blocks := (a, n) :: h.blocks })
    else .error .noSuchAnswer

def alignedFree (h : Heap) (a : Nat) : Heap := { h with blocks := h.blocks.filter (·.1 ≠ a) }

def write (h : Heap) (a : Nat) (info : MemAllocInfo) : Heap := { h with info := Function.update h.info a info }

@[simp] theorem write_self (h : Heap) (a : Nat) (info : MemAllocInfo) : (h.write a info).info a = info :=
  Function.update_self ..

theorem write_ne (h : Heap) {a b : Nat} (info : MemAllocInfo) (hb : b ≠ a) : (h.write a info).info b = h.info b :=
  Function.update_of_ne hb ..

end Heap

/-! ## The pools -/

structure SmallSizeMemoryPool where
  mFreeList : Nat
  mAllocSize : Nat
  mAllocCount : Int32
  deriving DecidableEq

namespace SmallSizeMemoryPool

def new (allocSize : Nat) : SmallSizeMemoryPool := ⟨0, allocSize, 0⟩

def pop (p : SmallSizeMemoryPool) (h : Heap) (answer : Answer) : Except Stop (Nat × SmallSizeMemoryPool × Heap) :=
  let mem := p.mFreeList
  if mem = 0 then do
    let (mem, h) ← h.alignedMalloc p.mAllocSize answer
    return (mem, { p with mAllocCount := p.mAllocCount + 1 }, h)
  else if (h.info mem).mAllocSize = 0 then
    return (mem, { p with mFreeList := (h.info mem).next, mAllocCount := p.mAllocCount + 1 }, h)
  else throw .popAssert

def push (p : SmallSizeMemoryPool) (h : Heap) (ptr : Nat) : SmallSizeMemoryPool × Heap :=
  ({ p with mFreeList := ptr, mAllocCount := p.mAllocCount - 1 },
    h.write ptr { h.info ptr with next := p.mFreeList })

end SmallSizeMemoryPool

end MemoryPool

open MemoryPool

/-- A pointer to a small pool is its index in `pools`, in the order of the
constructor's `new`s. -/
structure MemoryPool where
  pools : List SmallSizeMemoryPool
  mSmallSizeMemoryPoolTable : List (Option Nat)
  deriving DecidableEq

namespace MemoryPool

/-- The values of `i` in `for (int i = first; i < bound; i += stride)`. -/
def steps (first bound stride : Nat) : List Nat :=
  List.range' first ((bound - first + stride - 1) / stride) stride

/-- The body of the constructor's loops. The second component is `recent`. -/
def addPool (c : MemoryPool × Nat) (i : Nat) : MemoryPool × Nat :=
  let pool := c.1.pools.length
  ({ pools := c.1.pools ++ [.new i]
     mSmallSizeMemoryPoolTable :=
      (steps (c.2 + 1) (i + 1) 1).foldl (fun table j => table.set j (some pool)) c.1.mSmallSizeMemoryPoolTable },
    i)

/-- The constructor. -/
def new : MemoryPool :=
  let start : MemoryPool × Nat := (⟨[], List.replicate (maxAllocSize + 1) none⟩, 0)
  let c := (steps 32 1024 32).foldl addPool start
  let c := (steps 1024 2048 128).foldl addPool c
  ((steps 2048 (4096 + 1) 256).foldl addPool c).1

/-- `mSmallSizeMemoryPoolTable[realAllocSize]`. -/
def poolOf (m : MemoryPool) (realAllocSize : Int) : Option Nat :=
  if 0 ≤ realAllocSize then (m.mSmallSizeMemoryPoolTable[realAllocSize.toNat]?).join else none

/-- The pool behind an entry of the table. -/
def deref (m : MemoryPool) (entry : Option Nat) : Except Stop (Nat × SmallSizeMemoryPool) :=
  match entry.bind fun i => m.pools[i]?.map (i, ·) with
  | some p => .ok p
  | none => .error .nullPool

def setPool (m : MemoryPool) (i : Nat) (p : SmallSizeMemoryPool) : MemoryPool :=
  { m with pools := m.pools.set i p }

section
variable (sizeofMemAllocInfo : Nat)

/-- `size + sizeof(MemAllocInfo)`, converted to `int`. -/
def realAllocSize (size : Int) : Int := Int.bmod (size + sizeofMemAllocInfo) (2 ^ 32)

/-- The caller's pointer. A placement `new` at null constructs nothing. -/
def attachMemAllocInfo (h : Heap) (header : Nat) (size : Int) : Nat × Heap :=
  (header + sizeofMemAllocInfo,
    if header = 0 then h else h.write header { h.info header with mAllocSize := size, mExtraInfo := -1 })

def detachMemAllocInfo (ptr : Nat) : Nat := ptr - sizeofMemAllocInfo

def allocate (m : MemoryPool) (h : Heap) (size : Int) (answer : Answer) : Except Stop (Nat × MemoryPool × Heap) := do
  let real := realAllocSize sizeofMemAllocInfo size
  if (maxAllocSize : Int) < real then
    let (header, h) ← h.alignedMalloc real.toNat answer
    let (ptr, h) := attachMemAllocInfo sizeofMemAllocInfo h header real
    return (ptr, m, h)
  else
    let (i, p) ← m.deref (m.poolOf real)
    let (header, p, h) ← p.pop h answer
    let (ptr, h) := attachMemAllocInfo sizeofMemAllocInfo h header real
    return (ptr, m.setPool i p, h)

def deallocate (m : MemoryPool) (h : Heap) (ptr : Nat) (extraInfo : Int) : Except Stop (MemoryPool × Heap) := do
  let header := detachMemAllocInfo sizeofMemAllocInfo ptr
  if header = 0 then throw .nullHeader
  let real := (h.info header).mAllocSize
  let h := h.write header { h.info header with mAllocSize := 0, mExtraInfo := extraInfo }
  if real ≤ 0 then throw .deallocateAssert
  if (maxAllocSize : Int) < real then return (m, h.alignedFree header)
  else
    let (i, p) ← m.deref (m.poolOf real)
    let (p, h) := p.push h header
    return (m.setPool i p, h)

end

/-! ## Calls in any order -/

/-- What a caller holds: the pointer it was given, the size it asked for, and the
pool it was popped from. -/
structure Live where
  ptr : Nat
  size : Int
  pool : Option Nat
  deriving DecidableEq

/-- The program's memory with a record of the calls: `live` is what callers
hold, `idle` the pointers to small blocks they gave back and were not given
again since. -/
structure State where
  pool : MemoryPool
  heap : Heap
  live : List Live
  idle : List Nat

/-- How many live blocks are of pool `i`. -/
def State.liveOf (s : State) (i : Nat) : Nat := s.live.countP (·.pool = some i)

inductive Action where
  | allocate (size : Int) (answer : Answer)
  | deallocate (ptr : Nat) (extraInfo : Int)

/-- Before the first call. Memory the heap has not given out holds anything. -/
def State.init (info : Nat → MemAllocInfo) : State := ⟨.new, ⟨info, []⟩, [], []⟩

section
variable (sizeofMemAllocInfo : Nat)

/-- The block behind the caller's pointer; null where the heap had none. -/
def Live.header (b : Live) : Nat := detachMemAllocInfo sizeofMemAllocInfo b.ptr

/-- The pool `Allocate` pops from; none where it goes to the heap. -/
def smallPool (m : MemoryPool) (size : Int) : Option Nat :=
  if (maxAllocSize : Int) < realAllocSize sizeofMemAllocInfo size then none
  else m.poolOf (realAllocSize sizeofMemAllocInfo size)

/-- `Allocate` calls `_aligned_malloc`. -/
def asksHeap (m : MemoryPool) (size : Int) : Prop :=
  let real := realAllocSize sizeofMemAllocInfo size
  maxAllocSize < real ∨ ∃ i p, m.poolOf real = some i ∧ m.pools[i]? = some p ∧ p.mFreeList = 0

def State.exec (s : State) : Action → Except Stop State
  | .allocate size answer => do
    let (ptr, m, h) ← s.pool.allocate sizeofMemAllocInfo s.heap size answer
    return { pool := m, heap := h
             live := ⟨ptr, size, s.pool.smallPool sizeofMemAllocInfo size⟩ :: s.live
             idle := s.idle.filter (· ≠ ptr) }
  | .deallocate ptr extraInfo => do
    let (m, h) ← s.pool.deallocate sizeofMemAllocInfo s.heap ptr extraInfo
    return { pool := m, heap := h
             live := s.live.filter (·.ptr ≠ ptr)
             idle := (s.live.filter fun b => b.ptr = ptr ∧ b.pool.isSome).map Live.ptr ++ s.idle }

/-- The calls callers may make. -/
def State.Legal (s : State) : Action → Prop
  | .allocate size _ => 1 ≤ size ∧ size + sizeofMemAllocInfo < 2 ^ 31
  | .deallocate ptr _ => ∃ b ∈ s.live, b.ptr = ptr

instance (s : State) : ∀ a, Decidable (s.Legal sizeofMemAllocInfo a)
  | .allocate .. => inferInstanceAs (Decidable (_ ∧ _))
  | .deallocate .. => inferInstanceAs (Decidable (∃ b ∈ s.live, _))

/-- `_aligned_malloc` does not answer null, and the pool's count does not overflow. -/
def State.Fits (s : State) : Action → Prop
  | .allocate size answer => (s.pool.asksHeap sizeofMemAllocInfo size → answer ≠ none) ∧
      ∀ i ∈ s.pool.smallPool sizeofMemAllocInfo size, s.liveOf i + 1 < 2 ^ 31
  | .deallocate .. => True

def State.step (s : State) (a : Action) : Option State :=
  if s.Legal sizeofMemAllocInfo a then (s.exec sizeofMemAllocInfo a).toOption else none

end

end MemoryPool

end GameServer
