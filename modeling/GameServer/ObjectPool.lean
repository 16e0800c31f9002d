import GameServer.Lib.Run
import GameServer.Lib.Word
/-!
# The object pool

`ObjectPool.h` of Homework7. Each class has a pool of its own: slots of
`sizeof(TOBJECT)` bytes, cut from chunks of `ALLOC_COUNT`, and a list of the free
ones that is threaded through their first bytes. Memory is the bytes at every
address, and null is 0. Where `new uint8_t[]` throws, nothing has changed yet, so
a call that throws is no step.
-/

namespace GameServer

open Lib

/-- `TOBJECT` and `ALLOC_COUNT`, an `int`, of a pool. An object is at least as big
as a pointer, as the code's comment demands. -/
structure ObjectClass where
  sizeofPointer : Nat
  sizeofTOBJECT : Nat
  allocCount : Nat
  pointer_pos : 0 < sizeofPointer
  pointer_le : sizeofPointer ≤ sizeofTOBJECT
  count_pos : 0 < allocCount
  count_lt : allocCount < 2 ^ 31

namespace ObjectPool

/-- The static members and the memory, with a record of the calls: the chunks
the heap gave and the slots that were returned and not deleted since. -/
structure State where
  memory : Nat → UInt8
  mFreeList : Nat
  mTotalAllocCount : Int32
  mCurrentUseCount : Int32
  chunks : List Nat
  live : List Nat

def State.init (memory : Nat → UInt8) : State := ⟨memory, 0, 0, 0, [], []⟩

section
variable (c : ObjectClass)

/-- `*reinterpret_cast<uint8_t**>(p)`. -/
def load (memory : Nat → UInt8) (p : Nat) : Nat := readWord memory c.sizeofPointer p

/-- `*reinterpret_cast<uint8_t**>(p) = v`. -/
def store (memory : Nat → UInt8) (p v : Nat) : Nat → UInt8 := writeWord memory c.sizeofPointer p v

def chunkSize : Nat := c.sizeofTOBJECT * c.allocCount

/-- `n` rounds of the loop: the memory, `pNext` and `ppCurr`. -/
def link (memory : Nat → UInt8) (pNext ppCurr : Nat) : Nat → (Nat → UInt8) × Nat × Nat
  | 0 => (memory, pNext, ppCurr)
  | n + 1 =>
    let pNext := pNext + c.sizeofTOBJECT
    link (store c memory ppCurr pNext) pNext pNext n

/-- Where the heap may put a chunk. -/
def Fits (chunks : List Nat) (a : Nat) : Prop :=
  a ≠ 0 ∧ a + chunkSize c ≤ 256 ^ c.sizeofPointer ∧ ∀ b ∈ chunks, a + chunkSize c ≤ b ∨ b + chunkSize c ≤ a

instance (chunks : List Nat) (a : Nat) : Decidable (Fits c chunks a) := inferInstanceAs (Decidable (_ ∧ _))

/-- The block under `if (!mFreeList)`, for a chunk at `a`. -/
def refill (s : State) (a : Nat) : State :=
  let (memory, _, ppCurr) := link c s.memory a a (c.allocCount - 1)
  { s with
    memory := store c memory ppCurr 0
    mFreeList := a
    mTotalAllocCount := s.mTotalAllocCount + Int32.ofNat c.allocCount
    chunks := a :: s.chunks }

/-- The end of `operator new`: the slot, and the state after it. -/
def take (s : State) : Nat × State :=
  (s.mFreeList,
    { s with mFreeList := load c s.memory s.mFreeList
             mCurrentUseCount := s.mCurrentUseCount + 1
             live := s.mFreeList :: s.live })

/-- `operator new`, with where the heap puts a chunk if it is asked for one. -/
def operatorNew (s : State) (chunk : Nat) : Option (Nat × State) :=
  if s.mFreeList = 0 then
    if Fits c s.chunks chunk then some (take c (refill c s chunk)) else none
  else some (take c s)

/-- `operator delete`; none where the assert fails. -/
def operatorDelete (s : State) (obj : Nat) : Option State :=
  if 0 < s.mCurrentUseCount then
    some { s with
      memory := store c s.memory obj s.mFreeList
      mFreeList := obj
      mCurrentUseCount := s.mCurrentUseCount - 1
      live := s.live.erase obj }
  else none

/-- The program's own memory: what lies in a live slot or in no chunk. -/
def Own (s : State) (a : Nat) : Prop :=
  (∃ p ∈ s.live, p ≤ a ∧ a < p + c.sizeofTOBJECT) ∨ ∀ b ∈ s.chunks, a < b ∨ b + chunkSize c ≤ a

instance (s : State) (a : Nat) : Decidable (Own c s a) := inferInstanceAs (Decidable (_ ∨ _))

/-- `write` is any store of the rest of the program. -/
inductive Action where
  | new (chunk : Nat)
  | delete (obj : Nat)
  | write (a : Nat) (byte : UInt8)

def State.step (s : State) : Action → Option State
  | .new chunk => (operatorNew c s chunk).map Prod.snd
  | .delete obj => if obj ∈ s.live then operatorDelete c s obj else none
  | .write a byte => if Own c s a then some { s with memory := Function.update s.memory a byte } else none

/-- A new chunk does not take the number of slots beyond an `int`. Without free slots
it is that of the live ones. -/
def Room (s : State) : Action → Prop
  | .new _ => s.mFreeList = 0 → s.live.length + c.allocCount < 2 ^ 31
  | .delete _ | .write _ _ => True

instance (s : State) : ∀ x, Decidable (Room c s x)
  | .new _ => inferInstanceAs (Decidable (_ → _))
  | .delete _ | .write _ _ => inferInstanceAs (Decidable True)

/-- A TOBJECT boundary of a chunk. -/
def Slot (chunks : List Nat) (p : Nat) : Prop :=
  ∃ b ∈ chunks, ∃ i < c.allocCount, p = b + i * c.sizeofTOBJECT

end

end ObjectPool

end GameServer
