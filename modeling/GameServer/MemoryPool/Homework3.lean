import GameServer.MemoryPool.Rounding
import GameServer.MemoryPool.STLAllocator
/-!
# The containers' allocator of Homework3

`MemoryPool.h`, `MemoryPool.cpp` and `XTL.h` of Homework3, where they are not as in
Homework4. `STLAllocator` asks for as many bytes as elements, and hands the count
to `Deallocate`, which zeroes that many bytes from the header on. A call tells which
bytes it, or the container with what it was given, writes apart from the header.
-/

namespace GameServer.MemoryPool

open Lib

namespace Homework3

/-- What the project is built for. -/
inductive Platform where
  | win32
  | x64
  deriving DecidableEq

namespace Platform

/-- Of a `size_t`. -/
def bits : Platform → Nat
  | win32 => 32
  | x64 => 64

def sizeofPointer : Platform → Nat
  | win32 => 4
  | x64 => 8

def sizeofSListEntry : Platform → Nat
  | win32 => 4
  | x64 => 16

def sizeofMemAllocInfo : Platform → Nat
  | win32 => 16
  | x64 => 32

end Platform

/-- A conversion to `int` or `long`. -/
def toInt (n : Nat) : Int := Int.bmod n (2 ^ 32)

/-- A field whose first `count` bytes were zeroed. -/
def zeroBytes (count v : Nat) : Nat := v / 256 ^ count * 256 ^ count

def zeroLong (count : Nat) (v : Int) : Int := toInt (zeroBytes (min 4 count) (v % 2 ^ 32).toNat)

variable (pl : Platform)

/-- `SecureZeroMemory(header, count)`, as far as the header goes. -/
def secureZeroMemory (h : Heap) (header count : Nat) : Heap :=
  let info := h.info header
  h.write header {
    next := zeroBytes (min pl.sizeofPointer count) info.next
    mAllocSize := zeroLong (count - pl.sizeofSListEntry) info.mAllocSize
    mExtraInfo := zeroLong (count - (pl.sizeofSListEntry + 4)) info.mExtraInfo }

def attachMemAllocInfo (h : Heap) (header : Nat) (size : Int) : Except Stop (Nat × Heap) :=
  if header = 0 then .error .nullHeader
  else .ok (header + pl.sizeofMemAllocInfo, h.write header { h.info header with mAllocSize := size })

/-- `MemoryPool::Allocate`. -/
def allocate (m : MemoryPool) (h : Heap) (size : Int) (answer : Answer) : Except Stop (Nat × MemoryPool × Heap) := do
  let real := realAllocSize pl.sizeofMemAllocInfo size
  if (maxAllocSize : Int) < real then
    let (header, h) ← h.alignedMalloc real.toNat answer
    let (ptr, h) ← attachMemAllocInfo pl h header real
    return (ptr, m, h)
  else
    let (i, p) ← m.deref (m.poolOf real)
    let (header, p, h) ← p.pop h answer
    let (ptr, h) ← attachMemAllocInfo pl h header real
    return (ptr, m.setPool i p, h)

/-- Bytes that are written: the elements of an array, or what is zeroed from a header on. -/
inductive Access where
  | elements (ptr length : Nat)
  | zeroed (header length : Nat)
  deriving DecidableEq

/-- `MemoryPool::Deallocate`. -/
def deallocate (m : MemoryPool) (h : Heap) (ptr : Nat) (extraInfo : Int) :
    Except Stop (MemoryPool × Heap × List Access) := do
  let header := detachMemAllocInfo pl.sizeofMemAllocInfo ptr
  let h := h.write header { h.info header with mExtraInfo := extraInfo }
  let real := (h.info header).mAllocSize
  let h := h.write header { h.info header with mAllocSize := 0 }
  if real ≤ 0 then throw .deallocateAssert
  if (maxAllocSize : Int) < real then return (m, h.alignedFree header, [])
  else
    let count := ((h.info header).mExtraInfo % 2 ^ pl.bits).toNat
    let h := secureZeroMemory pl h header count
    let (i, p) ← m.deref (m.poolOf real)
    let (p, h) := p.push h header
    return (m.setPool i p, h, [.zeroed header count])

/-! ## Calls in any order -/

/-- What containers do. -/
inductive Action where
  /-- `STLAllocator<T>::allocate(n)`, and the construction of the `n` elements. -/
  | allocate (sizeofT n : Nat) (answer : Answer)
  /-- `STLAllocator<T>::deallocate(ptr, n)`. -/
  | deallocate (ptr n : Nat)

/-- A call, and the bytes that are written. -/
def exec (s : State) : Action → Except Stop (State × List Access)
  | .allocate sizeofT n answer => do
    let (ptr, m, h) ← allocate pl s.pool s.heap (toInt n) answer
    return ({ pool := m, heap := h
              live := ⟨ptr, n, s.pool.smallPool pl.sizeofMemAllocInfo (toInt n)⟩ :: s.live
              idle := s.idle.filter (· ≠ ptr) }, [.elements ptr (n * sizeofT)])
  | .deallocate ptr n => do
    let (m, h, accesses) ← deallocate pl s.pool s.heap ptr (toInt n)
    return ({ pool := m, heap := h
              live := s.live.filter (·.ptr ≠ ptr)
              idle := (s.live.filter fun b => b.ptr = ptr ∧ b.pool.isSome).map Live.ptr ++ s.idle }, accesses)

/-- A container gives back what it got, with the count it asked for. -/
def Legal (s : State) : Action → Prop
  | .allocate sizeofT n _ => 1 ≤ sizeofT ∧ 1 ≤ n ∧ n < 2 ^ pl.bits
  | .deallocate ptr n => ∃ b ∈ s.live, b.ptr = ptr ∧ b.size = n

instance (s : State) : ∀ a, Decidable (Legal pl s a)
  | .allocate .. => inferInstanceAs (Decidable (_ ∧ _ ∧ _))
  | .deallocate .. => inferInstanceAs (Decidable (∃ b ∈ s.live, _))

def step (s : State) (a : Action) : Option State :=
  if Legal pl s a then (exec pl s a).toOption.map Prod.fst else none

/-! ## What the containers rely on -/

/-- The bytes are of one block, and the elements come after its header. -/
def Access.Within (h : Heap) : Access → Prop
  | .elements ptr length => ∃ header size, (header, size) ∈ h.blocks ∧ ptr = header + pl.sizeofMemAllocInfo ∧
      ptr + length ≤ header + size
  | .zeroed header length => ∃ size, (header, size) ∈ h.blocks ∧ length ≤ size

/-- The call only fails where the heap does, and writes into the block it is about. -/
structure Inside (s : State) (a : Action) : Prop where
  within : ∀ s' accesses, exec pl s a = .ok (s', accesses) → ∀ x ∈ accesses, x.Within pl s'.heap
  fails : ∀ e, exec pl s a = .error e → e = .noSuchAnswer ∨ e = .nullHeader

/-- The size and count of an allocation are among those. -/
def Action.Asks (P : Nat → Nat → Prop) : Action → Prop
  | .allocate sizeofT n _ => P sizeofT n
  | .deallocate .. => True

/-- Whatever containers with such elements and counts have done, their next call keeps
inside of its block. -/
def HoldsElements (P : Nat → Nat → Prop) : Prop :=
  ∀ info as s a, (∀ b ∈ as ++ [a], b.Asks P) → run (step pl) (State.init info) as = some s → Legal pl s a → Inside pl s a

/-- The elements fit into the block that their count leads to. -/
def Fits (sizeofT n : Nat) : Prop :=
  n + pl.sizeofMemAllocInfo < 2 ^ 31 ∧ n * sizeofT + pl.sizeofMemAllocInfo ≤ blockSize (n + pl.sizeofMemAllocInfo)

variable {pl} {s s' : State} {m m' : MemoryPool} {h h' h₁ h₂ : Heap} {i ptr header sizeofT n : Nat} {p : SmallSizeMemoryPool}
  {b : Live} {size r : Int} {answer : Answer} {accesses : List Access}

theorem toInt_of_lt (hn : n < 2 ^ 31) : toInt n = n := by
  apply Int.bmod_eq_of_le <;> omega

/-- A count that an `int` holds gets through. -/
theorem count_of_lt (hn : n < 2 ^ 31) : (toInt n % 2 ^ pl.bits).toNat = n := by
  rw [toInt_of_lt hn]
  cases pl <;> simp only [Platform.bits] <;> omega

/-! ## What is as in Homework4 -/

/-- The heaps differ in `mExtraInfo` at most. -/
structure Same (h h' : Heap) : Prop where
  blocks : h'.blocks = h.blocks
  next : ∀ a, (h'.info a).next = (h.info a).next
  mAllocSize : ∀ a, (h'.info a).mAllocSize = (h.info a).mAllocSize

theorem same_write {info info' : MemAllocInfo} (hs : Same h h') (hn : info'.next = info.next)
    (ha : info'.mAllocSize = info.mAllocSize) : Same (h.write header info) (h'.write header info') where
  blocks := hs.blocks
  next a := by
    by_cases hah : a = header
    · subst hah
      rwa [Heap.write_self, Heap.write_self]
    · rw [Heap.write_ne _ _ hah, Heap.write_ne _ _ hah]
      exact hs.next a
  mAllocSize a := by
    by_cases hah : a = header
    · subst hah
      rwa [Heap.write_self, Heap.write_self]
    · rw [Heap.write_ne _ _ hah, Heap.write_ne _ _ hah]
      exact hs.mAllocSize a

theorem same_refl (h : Heap) : Same h h := ⟨rfl, fun _ => rfl, fun _ => rfl⟩

/-- Nothing that is kept is about `mExtraInfo`. -/
theorem inv_same {w : Nat} (hi : Inv w s) (hs : Same s.heap h) : Inv w { s with heap := h } where
  built := hi.built
  apart := hs.blocks ▸ hi.apart
  pos := hs.blocks ▸ hi.pos
  size := hi.size
  header b hb := (hs.mAllocSize _).trans (hi.header b hb)
  holds b hb := hs.blocks ▸ hi.holds b hb
  ptrs := hi.ptrs
  free p hp := by
    obtain ⟨l, hl⟩ := hi.free p hp
    refine ⟨l, hl.chain.frame fun a _ => hs.next a, fun a ha => ?_, fun a ha => ?_⟩
    · rw [hs.mAllocSize, hl.zero a ha]
    · rw [hs.blocks]
      exact hl.block a ha
  idle q hq := by
    rw [hs.mAllocSize]
    exact hi.idle q hq

/-- Results of `Allocate` in the two projects. Here null is written through. -/
inductive SameResult (pl : Platform) : Except Stop (Nat × MemoryPool × Heap) → Except Stop (Nat × MemoryPool × Heap) → Prop
  | ok {ptr : Nat} {m : MemoryPool} {h h' : Heap} (hne : ptr ≠ pl.sizeofMemAllocInfo) (hs : Same h h') :
    SameResult pl (.ok (ptr, m, h)) (.ok (ptr, m, h'))
  | null {m : MemoryPool} {h : Heap} : SameResult pl (.ok (pl.sizeofMemAllocInfo, m, h)) (.error .nullHeader)
  | error (e : Stop) : SameResult pl (.error e) (.error e)

theorem attachMemAllocInfo_same (m : MemoryPool) (h : Heap) (header : Nat) (size : Int) :
    SameResult pl (.ok ((MemoryPool.attachMemAllocInfo pl.sizeofMemAllocInfo h header size).1, m,
        (MemoryPool.attachMemAllocInfo pl.sizeofMemAllocInfo h header size).2))
      (attachMemAllocInfo pl h header size >>= fun x => .ok (x.1, m, x.2)) := by
  unfold MemoryPool.attachMemAllocInfo attachMemAllocInfo
  by_cases h0 : header = 0
  · rw [if_pos h0, h0, Nat.zero_add]
    exact .null
  · rw [if_neg h0, if_neg h0]
    exact .ok (by omega) (same_write (same_refl h) rfl rfl)

theorem allocate_same (pl : Platform) (m : MemoryPool) (h : Heap) (size : Int) (answer : Answer) :
    SameResult pl (m.allocate pl.sizeofMemAllocInfo h size answer) (allocate pl m h size answer) := by
  unfold MemoryPool.allocate allocate
  dsimp only
  split
  · cases h.alignedMalloc _ answer with
    | error e => exact .error e
    | ok x => exact attachMemAllocInfo_same m x.2 x.1 _
  · cases m.deref _ with
    | error e => exact .error e
    | ok x =>
      cases hp : x.2.pop h answer with
      | error e =>
        simp only [bind, Except.bind, hp]
        exact .error e
      | ok y =>
        simp only [bind, Except.bind, hp]
        exact attachMemAllocInfo_same _ y.2.2 y.1 _

@[simp] theorem zeroLong_zero (count : Nat) : zeroLong count 0 = 0 := by
  unfold zeroLong zeroBytes
  rw [Int.zero_emod, Int.toNat_zero, Nat.zero_div, Nat.zero_mul]
  rfl

/-- Zeroing a header that goes on a free list leaves no trace but in `mExtraInfo`. -/
theorem push_zeroed_same (p : SmallSizeMemoryPool) (h : Heap) (header count : Nat) (extraInfo : Int) :
    Same (p.push (h.cleared header extraInfo) header).2
      (p.push (secureZeroMemory pl (h.cleared header extraInfo) header count) header).2 where
  blocks := rfl
  next a := by
    by_cases ha : a = header
    · subst ha
      simp [SmallSizeMemoryPool.push]
    · simp [SmallSizeMemoryPool.push, secureZeroMemory, Heap.write_ne _ _ ha]
  mAllocSize a := by
    by_cases ha : a = header
    · subst ha
      simp [SmallSizeMemoryPool.push, secureZeroMemory, Heap.cleared]
    · simp [SmallSizeMemoryPool.push, secureZeroMemory, Heap.write_ne _ _ ha]

/-- The two writes to the header. -/
theorem write_write_cleared (h : Heap) (header : Nat) (extraInfo : Int) :
    (h.write header { h.info header with mExtraInfo := extraInfo }).write header
      { (h.write header { h.info header with mExtraInfo := extraInfo }).info header with mAllocSize := 0 } =
    h.cleared header extraInfo := by
  rw [Heap.write_self]
  unfold Heap.cleared Heap.write
  rw [Function.update_idem]

theorem deallocate_large (hs : (h.info header).mAllocSize = r) (hr : maxAllocSize < r) (extraInfo : Int) :
    deallocate pl m h (header + pl.sizeofMemAllocInfo) extraInfo =
      .ok (m, (h.cleared header extraInfo).alignedFree header, []) := by
  unfold deallocate detachMemAllocInfo
  dsimp only
  rw [Nat.add_sub_cancel, write_write_cleared, Heap.write_self, hs, if_neg (by unfold maxAllocSize at hr; omega), if_pos hr]
  rfl

theorem deallocate_small (hs : (h.info header).mAllocSize = r) (h0 : 0 < r) (hr : r ≤ maxAllocSize)
    (hi : m.poolOf r = some i) (hp : m.pools[i]? = some p) (extraInfo : Int) :
    deallocate pl m h (header + pl.sizeofMemAllocInfo) extraInfo =
      let zeroed := secureZeroMemory pl (h.cleared header extraInfo) header (extraInfo % 2 ^ pl.bits).toNat
      .ok (m.setPool i (p.push zeroed header).1, (p.push zeroed header).2,
        [.zeroed header (extraInfo % 2 ^ pl.bits).toNat]) := by
  unfold deallocate detachMemAllocInfo
  dsimp only
  have hextra : ((h.cleared header extraInfo).info header).mExtraInfo = extraInfo := by
    unfold Heap.cleared
    rw [Heap.write_self]
  rw [Nat.add_sub_cancel, write_write_cleared, Heap.write_self, hs, if_neg (by omega), if_neg (by omega), hi, deref_eq hp,
    hextra]
  rfl

/-- A block goes back as in Homework4, and what is zeroed is of it. -/
theorem deallocate_same (hi : Inv pl.sizeofMemAllocInfo s) (hb : b ∈ s.live) (hn : b.size = n) :
    ∃ m h h' accesses, s.pool.deallocate pl.sizeofMemAllocInfo s.heap b.ptr (toInt n) = .ok (m, h) ∧
      deallocate pl s.pool s.heap b.ptr (toInt n) = .ok (m, h', accesses) ∧ Same h h' ∧
      (AsBuilt s.pool → AsBuilt m) ∧ ∀ x ∈ accesses, x.Within pl h' := by
  obtain ⟨h1, hptr⟩ := hi.size b hb
  have hs := hi.header b hb
  rw [hptr]
  cases hi.holds b hb with
  | large hr =>
    exact ⟨_, _, _, _, MemoryPool.deallocate_large (hi.header_ne hb) hs hr _, deallocate_large hs hr _, same_refl _, id, by simp⟩
  | small i p hr hbp hpo hp hle hm =>
    refine ⟨_, _, _, _, MemoryPool.deallocate_small (hi.header_ne hb) hs (by omega) hr hpo hp _,
      deallocate_small hs (by omega) hr hpo hp _, push_zeroed_same _ _ _ _ _, fun hm => hm.setPool hp rfl, ?_⟩
    intro x hx
    rw [List.mem_singleton.1 hx]
    unfold maxAllocSize at hr
    refine ⟨p.mAllocSize, hm, ?_⟩
    rw [count_of_lt (by omega)]
    omega

/-! ## A call of a count that fits -/

structure Kept (pl : Platform) (s : State) : Prop where
  inv : Inv pl.sizeofMemAllocInfo s
  built : AsBuilt s.pool

theorem kept_init (pl : Platform) (info : Nat → MemAllocInfo) : Kept pl (State.init info) :=
  ⟨inv_init _ info, asBuilt_new⟩

theorem asBuilt_of_obtained (hm : AsBuilt m) (ho : Obtained m h r header m' h₁) : AsBuilt m' := by
  cases ho with
  | large hr ht he => exact he ▸ hm
  | fresh i p hr hi hp ht he => exact he ▸ hm.setPool hp rfl
  | reuse i p hr hi hp hf h0 hh he => exact he ▸ hm.setPool hp rfl

/-- The block of an allocation. -/
theorem block_of_holds {w : Nat} {blocks : List (Nat × Nat)} (hh : Holds w m blocks b) (hm : AsBuilt m) (hn : b.size = n)
    (h1 : 1 ≤ n) : (b.header w, blockSize (n + w)) ∈ blocks := by
  cases hh with
  | large hr hb hmem =>
    rw [hn] at hr hmem
    rwa [blockSize_of_lt (by omega)]
  | small i p hr hb hi hp hs hmem =>
    rw [hn] at hr hi
    rwa [← hm.mAllocSize_eq (by omega) (by omega) hi hp]

theorem allocate_fits (hk : Kept pl s) (h1 : 1 ≤ n) (hlt : n + pl.sizeofMemAllocInfo < 2 ^ 31)
    (ha : allocate pl s.pool s.heap (toInt n) answer = .ok (ptr, m, h)) :
    Kept pl ⟨m, h, ⟨ptr, n, s.pool.smallPool pl.sizeofMemAllocInfo (toInt n)⟩ :: s.live, s.idle.filter (· ≠ ptr)⟩ ∧
      ∃ header, ptr = header + pl.sizeofMemAllocInfo ∧
        (header, blockSize (n + pl.sizeofMemAllocInfo)) ∈ h.blocks := by
  have hsame := allocate_same pl s.pool s.heap (toInt n) answer
  rw [ha] at hsame
  generalize hx : s.pool.allocate pl.sizeofMemAllocInfo s.heap (toInt n) answer = x at hsame
  cases hsame with
  | ok hne hs =>
    obtain ⟨header, h₁, -, -, hob, -⟩ := obtained_of_ne hx hne
    rw [toInt_of_lt (by omega)] at hx ⊢
    have hinv := hk.inv.allocate (by omega) (by omega) hx hne
    have hbuilt := asBuilt_of_obtained hk.built hob
    have hhead := (hinv.size _ List.mem_cons_self).2
    have hblock := block_of_holds (hinv.holds _ List.mem_cons_self) hbuilt rfl h1
    exact ⟨⟨inv_same hinv hs, hbuilt⟩, _, hhead, hs.blocks ▸ hblock⟩

theorem allocate_fits_error (hk : Kept pl s) (h1 : 1 ≤ n) (hlt : n + pl.sizeofMemAllocInfo < 2 ^ 31) {e : Stop}
    (ha : allocate pl s.pool s.heap (toInt n) answer = .error e) : e = .noSuchAnswer ∨ e = .nullHeader := by
  have hsame := allocate_same pl s.pool s.heap (toInt n) answer
  rw [ha] at hsame
  generalize hx : s.pool.allocate pl.sizeofMemAllocInfo s.heap (toInt n) answer = x at hsame
  cases hsame with
  | null => exact .inr rfl
  | error =>
    rw [toInt_of_lt (by omega)] at hx
    exact .inl (hk.inv.allocate_error (by omega) (by omega) hx).1

theorem exec_allocate (ha : allocate pl s.pool s.heap (toInt n) answer = .ok (ptr, m, h)) :
    exec pl s (.allocate sizeofT n answer) =
      .ok (⟨m, h, ⟨ptr, n, s.pool.smallPool pl.sizeofMemAllocInfo (toInt n)⟩ :: s.live, s.idle.filter (· ≠ ptr)⟩,
        [.elements ptr (n * sizeofT)]) := by
  simp only [exec, ha]
  rfl

theorem exec_allocate_error {e : Stop} (ha : allocate pl s.pool s.heap (toInt n) answer = .error e) :
    exec pl s (.allocate sizeofT n answer) = .error e := by
  simp only [exec, ha]
  rfl

theorem exec_deallocate (hd : deallocate pl s.pool s.heap ptr (toInt n) = .ok (m, h, accesses)) :
    exec pl s (.deallocate ptr n) = .ok (⟨m, h, s.live.filter (·.ptr ≠ ptr),
      (s.live.filter fun b => b.ptr = ptr ∧ b.pool.isSome).map Live.ptr ++ s.idle⟩, accesses) := by
  simp only [exec, hd]
  rfl

/-- What fits stays inside, and everything is kept. -/
theorem exec_fits (hk : Kept pl s) {a : Action} (hl : Legal pl s a) (hf : a.Asks (Fits pl)) :
    (∃ s' accesses, exec pl s a = .ok (s', accesses) ∧ Kept pl s' ∧ ∀ x ∈ accesses, x.Within pl s'.heap) ∨
      ∃ e, exec pl s a = .error e ∧ (e = .noSuchAnswer ∨ e = .nullHeader) := by
  cases a with
  | allocate sizeofT n answer =>
    obtain ⟨hlt, hle⟩ := hf
    cases ha : allocate pl s.pool s.heap (toInt n) answer with
    | error e => exact .inr ⟨e, exec_allocate_error ha, allocate_fits_error hk hl.2.1 hlt ha⟩
    | ok x =>
      obtain ⟨ptr, m, h⟩ := x
      obtain ⟨hk', header, hptr, hblock⟩ := allocate_fits hk hl.2.1 hlt ha
      refine .inl ⟨_, _, exec_allocate ha, hk', ?_⟩
      intro x hx
      rw [List.mem_singleton.1 hx]
      refine ⟨header, _, hblock, hptr, ?_⟩
      omega
  | deallocate ptr n =>
    obtain ⟨b, hb, rfl, hn⟩ := hl
    obtain ⟨m, h, h', accesses, hd, hd', hs, hm, hw⟩ := deallocate_same hk.inv hb hn
    refine .inl ⟨_, accesses, exec_deallocate hd', ?_, hw⟩
    exact ⟨inv_same (hk.inv.deallocate hb hd) hs, hm hk.built⟩

/-! ## Any sequence of calls -/

theorem step_ok {a : Action} (hs : step pl s a = some s') :
    Legal pl s a ∧ ∃ accesses, exec pl s a = .ok (s', accesses) := by
  unfold step at hs
  split at hs
  next hl =>
    obtain ⟨x, hx, rfl⟩ := Option.map_eq_some_iff.1 hs
    refine ⟨hl, x.2, ?_⟩
    cases he : exec pl s a with
    | error e => simp [he, Except.toOption] at hx
    | ok y =>
      simp only [he, Except.toOption, Option.some.injEq] at hx
      rw [hx]
  · cases hs

theorem kept_step {a : Action} (hk : Kept pl s) (hf : a.Asks (Fits pl)) (hs : step pl s a = some s') : Kept pl s' := by
  obtain ⟨hl, accesses, he⟩ := step_ok hs
  rcases exec_fits hk hl hf with ⟨t, _, ht, hkt, -⟩ | ⟨e, hee, -⟩
  · cases he.symm.trans ht
    exact hkt
  · cases he.symm.trans hee

theorem inside_of_fits {a : Action} (hk : Kept pl s) (hl : Legal pl s a) (hf : a.Asks (Fits pl)) : Inside pl s a := by
  constructor
  · intro s' accesses he
    rcases exec_fits hk hl hf with ⟨t, accesses', ht, -, hw⟩ | ⟨e, hee, -⟩
    · cases he.symm.trans ht
      exact hw
    · cases he.symm.trans hee
  · intro e he
    rcases exec_fits hk hl hf with ⟨t, accesses, ht, -, -⟩ | ⟨e', hee, hw⟩
    · cases he.symm.trans ht
    · cases he.symm.trans hee
      exact hw

/-- The first allocation of all only stays inside if it fits. -/
theorem fits_of_inside (hk : Kept pl s) (hpool : s.pool = new) (hheap : s.heap = ⟨fun _ => ⟨0, 0, 0⟩, []⟩) (h1 : 1 ≤ n)
    (hs : 1 ≤ sizeofT) (hin : Inside pl s (.allocate sizeofT n (some (64, ⟨0, 0, 0⟩)))) : Fits pl sizeofT n := by
  have hsame := allocate_same pl s.pool s.heap (toInt n) (some (64, ⟨0, 0, 0⟩))
  have hlt31 : realAllocSize pl.sizeofMemAllocInfo (toInt n) < 2 ^ 31 := by
    unfold realAllocSize
    rw [Int.bmod_def]
    split <;> omega
  generalize hx : allocate pl s.pool s.heap (toInt n) (some (64, ⟨0, 0, 0⟩)) = x at hsame
  by_cases hr : 1 ≤ realAllocSize pl.sizeofMemAllocInfo (toInt n)
  · obtain ⟨m, h, ha, hsmall⟩ := allocate_new hlt31 hr rfl
    rw [← hpool, ← hheap] at ha
    rw [ha] at hsame
    generalize hout : 64 + pl.sizeofMemAllocInfo = ptr at hsame
    cases hsame with
    | null => omega
    | ok hne hs' =>
      obtain ⟨header, size, hblock, hptr, hle⟩ := hin.within _ _ (exec_allocate hx) _ List.mem_cons_self
      have hsize : size < 2 ^ 31 := hsmall _ (hs'.blocks ▸ hblock)
      have hmul : n ≤ n * sizeofT := Nat.le_mul_of_pos_right n hs
      have hlt : n + pl.sizeofMemAllocInfo < 2 ^ 31 := by omega
      obtain ⟨hk', header', hptr', hblock'⟩ := allocate_fits hk h1 hlt hx
      have hheader : header' = header := by omega
      subst hheader
      have hsizes : size = blockSize (n + pl.sizeofMemAllocInfo) := hk'.inv.block_unique hblock hblock'
      exact ⟨hlt, by omega⟩
  · have hnull : s.pool.allocate pl.sizeofMemAllocInfo s.heap (toInt n) (some (64, ⟨0, 0, 0⟩)) = .error .nullPool := by
      unfold MemoryPool.allocate maxAllocSize
      dsimp only
      rw [if_neg (by omega), hpool, poolOf_new (by omega)]
      rfl
    rw [hnull] at hsame
    cases hsame
    rcases hin.fails _ (exec_allocate_error hx) with he | he <;> cases he

/-- Containers keep inside of their blocks if and only if every allocation of theirs
fits: the bytes are for the count, and only rounding makes room for larger elements. -/
theorem holdsElements_iff (pl : Platform) (P : Nat → Nat → Prop) :
    HoldsElements pl P ↔ ∀ sizeofT n, P sizeofT n → 1 ≤ sizeofT → 1 ≤ n → n < 2 ^ pl.bits → Fits pl sizeofT n := by
  constructor
  · intro h sizeofT n hP hs h1 hlt
    have hk := kept_init pl fun _ => ⟨0, 0, 0⟩
    refine fits_of_inside hk rfl rfl h1 hs (h _ [] _ _ ?_ (run_nil _) ⟨hs, h1, hlt⟩)
    intro b hb
    rw [List.mem_singleton.1 hb]
    exact hP
  · intro hf info as s a hP hr hl
    have hfits (s : State) (b : Action) (hlb : Legal pl s b) (hb : b ∈ as ++ [a]) : b.Asks (Fits pl) := by
      cases b with
      | allocate sizeofT n answer => exact hf sizeofT n (hP _ hb) hlb.1 hlb.2.1 hlb.2.2
      | deallocate ptr n => trivial
    have hk : Kept pl s := by
      have hm : Meets (step pl) (fun _ b => b ∈ as ++ [a]) (State.init info) as :=
        meets_of_forall fun b hb => List.mem_append_left _ hb
      refine inv_of_meets (fun s b s' hk hb hs => ?_) (kept_init pl info) hm hr
      exact kept_step hk (hfits s b (step_ok hs).1 hb) hs
    exact inside_of_fits hk hl (hfits s a hl (List.mem_append_right _ (List.mem_singleton_self a)))

/-- A hundred elements of eight bytes get 128 bytes with the header. -/
theorem not_holdsElements_eight : ¬ HoldsElements .win32 fun sizeofT n => sizeofT = 8 ∧ n = 100 := by
  intro h
  have hin := h (fun _ => ⟨0, 0, 0⟩) [] _ (.allocate 8 100 (some (64, ⟨0, 0, 0⟩))) (by
    intro b hb
    rw [List.mem_singleton.1 hb]
    exact ⟨rfl, rfl⟩) (run_nil _) (by decide)
  have hf : Fits .win32 8 100 := fits_of_inside (kept_init .win32 _) rfl rfl (by decide) (by decide) hin
  exact absurd hf.2 (by decide)

end Homework3

end GameServer.MemoryPool
