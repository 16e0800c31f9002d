import GameServer.Lib.Chain
import GameServer.MemoryPool.Table
import Mathlib.Data.List.Nodup
import Mathlib.Data.List.Perm.Basic
/-!
# No wrong block

The size in a live block's header is the one it was asked for with, so giving it
back goes through the table entry it came from. Headers on a free list say 0,
which keeps them apart from those of live blocks (`Inv`). Nobody looks at what
`_aligned_malloc` answers, so a caller may hold a pointer behind the header that
null would have: `backed` leaves those out. `never_wrong_block_iff` is what callers
may rely on.
-/

namespace GameServer.MemoryPool

open Lib

variable {w : Nat} {s s' : State} {m m' : MemoryPool} {h h' h₁ : Heap} {i : Nat} {p p' : SmallSizeMemoryPool}
  {a header ptr n : Nat} {size r : Int} {answer : Answer} {b c : Live}

/-! ## What a call does -/

/-- `h'` is `h` with a new block. -/
structure Heap.Took (h : Heap) (a : Nat) (n : Nat) (h' : Heap) : Prop where
  ne_null : a ≠ 0
  apart : ∀ b ∈ h.blocks, Apart (a, n) b
  blocks : h'.blocks = (a, n) :: h.blocks
  frame : ∀ b, b ≠ a → h'.info b = h.info b

theorem alignedMalloc_ok (hm : h.alignedMalloc n answer = .ok (a, h')) (ha : a ≠ 0) : h.Took a n h' := by
  unfold Heap.alignedMalloc at hm
  split at hm
  · cases hm
    exact absurd rfl ha
  · split at hm
    next hapart =>
      cases hm
      exact ⟨ha, hapart.2, rfl, fun b hb => Function.update_of_ne hb _ _⟩
    · cases hm

/-- Where `Allocate` has its block from. -/
inductive Obtained (m : MemoryPool) (h : Heap) (r : Int) (header : Nat) (m' : MemoryPool) (h₁ : Heap) : Prop
  | large (hr : maxAllocSize < r) (ht : h.Took header r.toNat h₁) (hm : m' = m)
  | fresh (i : Nat) (p : SmallSizeMemoryPool) (hr : r ≤ maxAllocSize) (hi : m.poolOf r = some i)
      (hp : m.pools[i]? = some p) (ht : h.Took header p.mAllocSize h₁)
      (hm : m' = m.setPool i { p with mAllocCount := p.mAllocCount + 1 })
  | reuse (i : Nat) (p : SmallSizeMemoryPool) (hr : r ≤ maxAllocSize) (hi : m.poolOf r = some i)
      (hp : m.pools[i]? = some p) (hf : p.mFreeList = header) (h0 : (h.info header).mAllocSize = 0) (hh : h₁ = h)
      (hm : m' = m.setPool i { p with mFreeList := (h.info header).next, mAllocCount := p.mAllocCount + 1 })

theorem deref_eq (hp : m.pools[i]? = some p) : m.deref (some i) = .ok (i, p) := by
  simp [deref, hp]

theorem deref_ok {e : Option Nat} (hd : m.deref e = .ok (i, p)) : e = some i ∧ m.pools[i]? = some p := by
  unfold deref at hd
  split at hd
  next q hq =>
    cases hd
    obtain ⟨j, rfl, hj⟩ := Option.bind_eq_some_iff.1 hq
    obtain ⟨q, hq, he⟩ := Option.map_eq_some_iff.1 hj
    cases he
    exact ⟨rfl, hq⟩
  · cases hd

theorem bind_ok {ε α β : Type} {x : Except ε α} {f : α → Except ε β} {y : β} (hx : x >>= f = .ok y) :
    ∃ a, x = .ok a ∧ f a = .ok y := by
  cases x with
  | error e => cases hx
  | ok a => exact ⟨a, rfl, hx⟩

/-- `_aligned_malloc` answered null: only the count has changed. -/
inductive Missed (m : MemoryPool) (r : Int) (m' : MemoryPool) : Prop
  | large (hr : maxAllocSize < r) (hm : m' = m)
  | small (i : Nat) (p : SmallSizeMemoryPool) (hr : r ≤ maxAllocSize) (hi : m.poolOf r = some i)
      (hp : m.pools[i]? = some p) (hf : p.mFreeList = 0) (hm : m' = m.setPool i { p with mAllocCount := p.mAllocCount + 1 })

theorem alignedMalloc_null (hm : h.alignedMalloc n answer = .ok (0, h')) : answer = none ∧ h' = h := by
  unfold Heap.alignedMalloc at hm
  split at hm
  · cases hm
    exact ⟨rfl, rfl⟩
  · split at hm
    next ha =>
      cases hm
      exact absurd rfl ha.1
    · cases hm

theorem pop_ok (hp : p.pop h answer = .ok (header, p', h₁)) (h0 : header ≠ 0) :
    (h.Took header p.mAllocSize h₁ ∧ p' = { p with mAllocCount := p.mAllocCount + 1 }) ∨
    (p.mFreeList = header ∧ (h.info header).mAllocSize = 0 ∧ h₁ = h ∧
      p' = { p with mFreeList := (h.info header).next, mAllocCount := p.mAllocCount + 1 }) := by
  unfold SmallSizeMemoryPool.pop at hp
  dsimp only at hp
  split at hp
  · obtain ⟨⟨a, h₂⟩, hm, hp⟩ := bind_ok hp
    cases hp
    exact .inl ⟨alignedMalloc_ok hm h0, rfl⟩
  · split at hp
    next hs =>
      cases hp
      exact .inr ⟨rfl, hs, rfl, rfl⟩
    · cases hp

theorem pop_null (hp : p.pop h answer = .ok (0, p', h₁)) :
    answer = none ∧ h₁ = h ∧ p.mFreeList = 0 ∧ p' = { p with mAllocCount := p.mAllocCount + 1 } := by
  unfold SmallSizeMemoryPool.pop at hp
  dsimp only at hp
  split at hp
  next hf =>
    obtain ⟨⟨a, h₂⟩, hm, hp⟩ := bind_ok hp
    cases hp
    obtain ⟨rfl, rfl⟩ := alignedMalloc_null hm
    exact ⟨rfl, rfl, hf, rfl⟩
  next h0 =>
    split at hp
    · simp only [pure, Except.pure, Except.ok.injEq, Prod.mk.injEq] at hp
      exact absurd hp.1 h0
    · cases hp

theorem attach_null (h : Heap) (r : Int) : (attachMemAllocInfo w h 0 r).2 = h := by
  simp [attachMemAllocInfo]

theorem attach_ne (h : Heap) (r : Int) (h0 : header ≠ 0) : (attachMemAllocInfo w h header r).2 =
    h.write header { h.info header with mAllocSize := r, mExtraInfo := -1 } := if_neg h0

/-- A call that returns had a block, or null. -/
theorem allocate_ok (ha : m.allocate w h size answer = .ok (ptr, m', h')) :
    (∃ header h₁, header ≠ 0 ∧ ptr = header + w ∧ Obtained m h (realAllocSize w size) header m' h₁ ∧
      h' = h₁.write header { h₁.info header with mAllocSize := realAllocSize w size, mExtraInfo := -1 }) ∨
    (ptr = w ∧ answer = none ∧ Missed m (realAllocSize w size) m' ∧ h' = h) := by
  unfold allocate at ha
  dsimp only at ha
  split at ha
  next hr =>
    obtain ⟨⟨header, h₁⟩, hm, ha⟩ := bind_ok ha
    cases ha
    by_cases h0 : header = 0
    · subst h0
      obtain ⟨rfl, rfl⟩ := alignedMalloc_null hm
      exact .inr ⟨Nat.zero_add w, rfl, .large hr rfl, attach_null ..⟩
    · exact .inl ⟨header, h₁, h0, rfl, .large hr (alignedMalloc_ok hm h0) rfl, attach_ne _ _ h0⟩
  next hr =>
    have hr := Int.not_lt.1 hr
    obtain ⟨⟨i, p⟩, hd, ha⟩ := bind_ok ha
    obtain ⟨⟨header, p', h₁⟩, hp, ha⟩ := bind_ok ha
    obtain ⟨hi, hpool⟩ := deref_ok hd
    cases ha
    by_cases h0 : header = 0
    · subst h0
      obtain ⟨rfl, rfl, hf, rfl⟩ := pop_null hp
      exact .inr ⟨Nat.zero_add w, rfl, .small i p hr hi hpool hf rfl, attach_null ..⟩
    · rcases pop_ok hp h0 with ⟨ht, rfl⟩ | ⟨hf, hz, rfl, rfl⟩
      · exact .inl ⟨header, h₁, h0, rfl, .fresh i p hr hi hpool ht rfl, attach_ne _ _ h0⟩
      · exact .inl ⟨header, h₁, h0, rfl, .reuse i p hr hi hpool hf hz rfl rfl, attach_ne _ _ h0⟩

/-- The pointer is not the one behind null. -/
theorem obtained_of_ne (ha : m.allocate w h size answer = .ok (ptr, m', h')) (hne : ptr ≠ w) :
    ∃ header h₁, header ≠ 0 ∧ ptr = header + w ∧ Obtained m h (realAllocSize w size) header m' h₁ ∧
      h' = h₁.write header { h₁.info header with mAllocSize := realAllocSize w size, mExtraInfo := -1 } :=
  (allocate_ok ha).resolve_right fun hn => hne hn.1

theorem realAllocSize_eq (h1 : 1 ≤ size) (hlt : size + w < 2 ^ 31) : realAllocSize w size = size + w := by
  apply Int.bmod_eq_of_le <;> omega

theorem Built.poolOf (hb : Built m) (h1 : 1 ≤ r) (hr : r ≤ maxAllocSize) :
    ∃ i p, m.poolOf r = some i ∧ m.pools[i]? = some p ∧ r ≤ p.mAllocSize := by
  obtain ⟨i, p, ht, hp, hs⟩ := hb.entry r.toNat (by omega) (by omega)
  refine ⟨i, p, ?_, hp, by omega⟩
  rw [MemoryPool.poolOf, if_pos (by omega), ht]
  rfl

/-- The pool of an entry has blocks that are big enough. -/
theorem Built.le_of_poolOf (hb : Built m) (h1 : 1 ≤ r) (hr : r ≤ maxAllocSize) (hi : m.poolOf r = some i)
    (hp : m.pools[i]? = some p) : r ≤ p.mAllocSize := by
  obtain ⟨j, q, hj, hq, hle⟩ := hb.poolOf h1 hr
  cases hi.symm.trans hj
  cases hp.symm.trans hq
  exact hle

theorem deallocate_second (hne : detachMemAllocInfo w ptr ≠ 0)
    (h0 : (h.info (detachMemAllocInfo w ptr)).mAllocSize ≤ 0) (extraInfo : Int) :
    m.deallocate w h ptr extraInfo = .error .deallocateAssert := by
  unfold deallocate
  dsimp only
  rw [if_neg hne, if_pos h0]
  rfl

/-- Giving a block back clears its header. -/
def Heap.cleared (h : Heap) (header : Nat) (extraInfo : Int) : Heap :=
  h.write header { h.info header with mAllocSize := 0, mExtraInfo := extraInfo }

theorem deallocate_large (hne : header ≠ 0) (hs : (h.info header).mAllocSize = r) (hr : maxAllocSize < r) (extraInfo : Int) :
    m.deallocate w h (header + w) extraInfo = .ok (m, (h.cleared header extraInfo).alignedFree header) := by
  unfold deallocate detachMemAllocInfo
  dsimp only
  rw [Nat.add_sub_cancel, if_neg hne, hs, if_neg (by unfold maxAllocSize at hr; omega), if_pos hr]
  rfl

theorem deallocate_small (hne : header ≠ 0) (hs : (h.info header).mAllocSize = r) (h0 : 0 < r) (hr : r ≤ maxAllocSize)
    (hi : m.poolOf r = some i) (hp : m.pools[i]? = some p) (extraInfo : Int) :
    m.deallocate w h (header + w) extraInfo =
      .ok (m.setPool i (p.push (h.cleared header extraInfo) header).1, (p.push (h.cleared header extraInfo) header).2) := by
  unfold deallocate detachMemAllocInfo
  dsimp only
  rw [Nat.add_sub_cancel, if_neg hne, hs, if_neg (by omega), if_neg (by omega), hi, deref_eq hp]
  rfl

/-! ## What every call keeps -/

/-- The block of `b` is in the heap, and is of the pool the size leads to. -/
inductive Holds (w : Nat) (m : MemoryPool) (blocks : List (Nat × Nat)) (b : Live) : Prop
  | large (hr : maxAllocSize < b.size + w) (hb : b.pool = none)
      (hm : (b.header w, (b.size + w).toNat) ∈ blocks)
  | small (i : Nat) (p : SmallSizeMemoryPool) (hr : b.size + w ≤ maxAllocSize) (hb : b.pool = some i)
      (hi : m.poolOf (b.size + w) = some i) (hp : m.pools[i]? = some p) (hs : b.size + w ≤ p.mAllocSize)
      (hm : (b.header w, p.mAllocSize) ∈ blocks)

/-- `l` is the pool's free list: blocks of its size, each with 0 in its header. -/
structure FreeList (h : Heap) (p : SmallSizeMemoryPool) (l : List Nat) : Prop where
  chain : Chain (fun a => (h.info a).next) 0 p.mFreeList l
  zero : ∀ a ∈ l, (h.info a).mAllocSize = 0
  block : ∀ a ∈ l, (a, p.mAllocSize) ∈ h.blocks

structure Inv (w : Nat) (s : State) : Prop where
  built : Built s.pool
  apart : s.heap.blocks.Pairwise Apart
  pos : ∀ b ∈ s.heap.blocks, b.1 ≠ 0 ∧ 0 < b.2
  size : ∀ b ∈ s.live, 1 ≤ b.size ∧ b.ptr = b.header w + w
  header : ∀ b ∈ s.live, (s.heap.info (b.header w)).mAllocSize = b.size + w
  holds : ∀ b ∈ s.live, Holds w s.pool s.heap.blocks b
  ptrs : (s.live.map Live.ptr).Nodup
  free : ∀ p ∈ s.pool.pools, ∃ l, FreeList s.heap p l
  idle : ∀ q ∈ s.idle, (s.heap.info (detachMemAllocInfo w q)).mAllocSize = 0 ∧ w < q

theorem inv_init (w : Nat) (info : Nat → MemAllocInfo) : Inv w (State.init info) where
  built := built_new
  apart := List.Pairwise.nil
  pos := by simp [State.init]
  size := by simp [State.init]
  header := by simp [State.init]
  holds := by simp [State.init]
  ptrs := List.nodup_nil
  free p hp := by
    refine ⟨[], ?_, by simp, by simp⟩
    rw [filled_new.empty p hp]
    rfl
  idle := by simp [State.init]

instance : Std.Symm Apart := ⟨fun _ _ h => Or.symm h⟩

namespace Inv

/-- An address is where one block starts. -/
theorem block_unique (hi : Inv w s) {k : Nat} (h₁ : (a, n) ∈ s.heap.blocks) (h₂ : (a, k) ∈ s.heap.blocks) : n = k := by
  by_contra hne
  have hap := hi.apart.forall h₁ h₂ (by simpa using hne)
  have hn := (hi.pos _ h₁).2
  have hk := (hi.pos _ h₂).2
  simp only [Apart] at hap hn hk
  omega

theorem header_pos (hi : Inv w s) (hb : b ∈ s.live) : 0 < (s.heap.info (b.header w)).mAllocSize := by
  have := hi.size b hb
  have := hi.header b hb
  omega

/-- Live blocks have headers of their own. -/
theorem header_inj (hi : Inv w s) (hb : b ∈ s.live) (hc : c ∈ s.live) (he : b.header w = c.header w) : b = c := by
  refine List.inj_on_of_nodup_map hi.ptrs hb hc ?_
  rw [(hi.size b hb).2, (hi.size c hc).2, he]

/-- A live block is on no free list. -/
theorem header_notMem (hi : Inv w s) (hb : b ∈ s.live) {l : List Nat} (hl : FreeList s.heap p l) : b.header w ∉ l := by
  intro hm
  have := hi.header_pos hb
  have := hl.zero _ hm
  omega

end Inv

theorem Holds.mono {blocks blocks' : List (Nat × Nat)} (hh : Holds w m blocks b)
    (hm : ∀ (i : Nat) (p : SmallSizeMemoryPool),
      m.pools[i]? = some p → ∃ p', m'.pools[i]? = some p' ∧ p'.mAllocSize = p.mAllocSize)
    (ht : m'.mSmallSizeMemoryPoolTable = m.mSmallSizeMemoryPoolTable)
    (hb : ∀ n, (b.header w, n) ∈ blocks → (b.header w, n) ∈ blocks') : Holds w m' blocks' b := by
  cases hh with
  | large hr hp hmem => exact .large hr hp (hb _ hmem)
  | small i p hr hbp hi hp hs hmem =>
    obtain ⟨p', hp', he⟩ := hm i p hp
    refine .small i p' hr hbp ?_ hp' (he ▸ hs) (he ▸ hb _ hmem)
    unfold poolOf at hi ⊢
    rwa [ht]

theorem Holds.exists_block {blocks : List (Nat × Nat)} (hh : Holds w m blocks b) :
    ∃ n, (b.header w, n) ∈ blocks ∧ b.size + w ≤ n := by
  cases hh with
  | large hr hb hm => exact ⟨_, hm, by omega⟩
  | small i p hr hb hi hp hs hm => exact ⟨_, hm, hs⟩

theorem Inv.header_ne (hi : Inv w s) (hb : b ∈ s.live) : b.header w ≠ 0 := by
  obtain ⟨n, hn, -⟩ := (hi.holds b hb).exists_block
  exact (hi.pos _ hn).1

/-- A free list does not depend on a block that is not on it. -/
theorem FreeList.frame {l : List Nat} (hl : FreeList h p l) (hh : header ∉ l)
    (hi : ∀ a, a ≠ header → h'.info a = h.info a) (hb : ∀ b ∈ h.blocks, b.1 ≠ header → b ∈ h'.blocks) :
    FreeList h' p l := by
  have hne (a : Nat) (ha : a ∈ l) : a ≠ header := ne_of_mem_of_not_mem ha hh
  refine ⟨hl.chain.frame fun a ha => ?_, fun a ha => ?_, fun a ha => hb _ (hl.block a ha) (hne a ha)⟩
  · rw [hi a (hne a ha)]
  · rw [hi a (hne a ha)]
    exact hl.zero a ha

/-! ## Handing out -/

/-- A block that is on no free list and not live is handed out. -/
theorem Inv.handOut (hi : Inv w s) (hb1 : 1 ≤ b.size) (hptr : b.ptr = b.header w + w)
    (hnew : ∀ c ∈ s.live, c.header w ≠ b.header w) (hbuilt : Built m') (hap : h₁.blocks.Pairwise Apart)
    (hpos : ∀ c ∈ h₁.blocks, c.1 ≠ 0 ∧ 0 < c.2) (hframe : ∀ a, a ≠ b.header w → h₁.info a = s.heap.info a)
    (hb : Holds w m' h₁.blocks b) (hholds : ∀ c ∈ s.live, Holds w m' h₁.blocks c)
    (hfree : ∀ p ∈ m'.pools, ∃ l, FreeList h₁ p l ∧ b.header w ∉ l) :
    Inv w ⟨m', h₁.write (b.header w) { h₁.info (b.header w) with mAllocSize := b.size + w, mExtraInfo := -1 },
      b :: s.live, s.idle.filter (· ≠ b.ptr)⟩ where
  built := hbuilt
  apart := hap
  pos := hpos
  size c hc := by
    rcases List.mem_cons.1 hc with rfl | hc
    · exact ⟨hb1, hptr⟩
    · exact hi.size c hc
  header c hc := by
    rcases List.mem_cons.1 hc with rfl | hc
    · rw [Heap.write_self]
    · rw [Heap.write_ne _ _ (hnew c hc), hframe _ (hnew c hc)]
      exact hi.header c hc
  holds c hc := by
    rcases List.mem_cons.1 hc with rfl | hc
    · exact hb
    · exact hholds c hc
  ptrs := by
    refine List.nodup_cons.2 ⟨fun hm => ?_, hi.ptrs⟩
    obtain ⟨c, hc, he⟩ := List.mem_map.1 hm
    exact hnew c hc (by rw [Live.header, he, Live.header])
  free p hp := by
    obtain ⟨l, hl, hn⟩ := hfree p hp
    exact ⟨l, hl.frame hn (fun a ha => Heap.write_ne _ _ ha) fun b hb _ => hb⟩
  idle q hq := by
    obtain ⟨hq, hne⟩ := List.mem_filter.1 hq
    obtain ⟨h0, hw⟩ := hi.idle q hq
    have hdet : detachMemAllocInfo w q ≠ b.header w := by
      intro he
      apply of_decide_eq_true hne
      unfold detachMemAllocInfo at he
      omega
    rw [Heap.write_ne _ _ hdet, hframe _ hdet]
    exact ⟨h0, hw⟩

/-- A new block is none that the heap has given out already. -/
theorem Inv.ne_of_took (hi : Inv w s) (ht : s.heap.Took header n h₁) (hn : 0 < n) {k : Nat} (hk : (a, k) ∈ s.heap.blocks) :
    a ≠ header := by
  rintro rfl
  have hap := ht.apart _ hk
  have hpos := (hi.pos _ hk).2
  simp only [Apart] at hap hpos
  omega

/-- A block that is new from the heap is handed out. -/
theorem Inv.handOut_took (hi : Inv w s) (hb1 : 1 ≤ b.size) (hptr : b.ptr = b.header w + w) (ht : s.heap.Took (b.header w) n h₁)
    (hn : 0 < n) (hbuilt : Built m') (hb : Holds w m' h₁.blocks b)
    (hsizes : ∀ (i : Nat) (p : SmallSizeMemoryPool),
      s.pool.pools[i]? = some p → ∃ p', m'.pools[i]? = some p' ∧ p'.mAllocSize = p.mAllocSize)
    (htable : m'.mSmallSizeMemoryPoolTable = s.pool.mSmallSizeMemoryPoolTable)
    (hfree : ∀ p' ∈ m'.pools, ∃ p ∈ s.pool.pools, p'.mFreeList = p.mFreeList ∧ p'.mAllocSize = p.mAllocSize) :
    Inv w ⟨m', h₁.write (b.header w) { h₁.info (b.header w) with mAllocSize := b.size + w, mExtraInfo := -1 },
      b :: s.live, s.idle.filter (· ≠ b.ptr)⟩ := by
  have hmem (c : Nat × Nat) (hc : c ∈ s.heap.blocks) : c ∈ h₁.blocks := ht.blocks ▸ List.mem_cons_of_mem _ hc
  refine hi.handOut hb1 hptr ?_ hbuilt ?_ ?_ ht.frame hb ?_ ?_
  · intro c hc
    obtain ⟨k, hk, -⟩ := (hi.holds c hc).exists_block
    exact hi.ne_of_took ht hn hk
  · rw [ht.blocks]
    exact List.Pairwise.cons ht.apart hi.apart
  · intro c hc
    rw [ht.blocks] at hc
    rcases List.mem_cons.1 hc with rfl | hc
    · exact ⟨ht.ne_null, hn⟩
    · exact hi.pos c hc
  · exact fun c hc => (hi.holds c hc).mono hsizes htable fun n hn => hmem _ hn
  · intro p' hp'
    obtain ⟨p, hp, hf, hs⟩ := hfree p' hp'
    obtain ⟨l, hl⟩ := hi.free p hp
    have hnot : b.header w ∉ l := fun hm => hi.ne_of_took ht hn (hl.block _ hm) rfl
    have hl := hl.frame hnot ht.frame fun c hc _ => hmem c hc
    exact ⟨l, ⟨hf ▸ hl.chain, hl.zero, hs ▸ hl.block⟩, hnot⟩

theorem freeList_setPool {q : SmallSizeMemoryPool} (hp : m.pools[i]? = some p) (hf : q.mFreeList = p.mFreeList)
    (hs : q.mAllocSize = p.mAllocSize) :
    ∀ p' ∈ (m.setPool i q).pools, ∃ p ∈ m.pools, p'.mFreeList = p.mFreeList ∧ p'.mAllocSize = p.mAllocSize := by
  intro p' hp'
  rcases List.mem_or_eq_of_mem_set hp' with hp' | rfl
  · exact ⟨p', hp', rfl, rfl⟩
  · exact ⟨p, List.mem_of_getElem? hp, hf, hs⟩

theorem Inv.allocate (hi : Inv w s) (h1 : 1 ≤ size) (hlt : size + w < 2 ^ 31)
    (ha : s.pool.allocate w s.heap size answer = .ok (ptr, m', h')) (hne : ptr ≠ w) :
    Inv w ⟨m', h', ⟨ptr, size, s.pool.smallPool w size⟩ :: s.live, s.idle.filter (· ≠ ptr)⟩ := by
  obtain ⟨header, h₁, h0, rfl, hob, rfl⟩ := obtained_of_ne ha hne
  rw [realAllocSize_eq h1 hlt] at hob ⊢
  generalize hb : (⟨header + w, size, s.pool.smallPool w size⟩ : Live) = b
  have hhead : header = b.header w := by rw [← hb]; exact (Nat.add_sub_cancel ..).symm
  have hptr : b.ptr = b.header w + w := by rw [← hhead, ← hb]
  have hsize : b.size = size := by rw [← hb]
  have hpool : b.pool = if maxAllocSize < size + w then none else s.pool.poolOf (size + w) := by
    rw [← hb, smallPool, realAllocSize_eq h1 hlt]
  rw [show header + w = b.ptr by rw [← hb], hhead, ← hsize]
  rw [hhead, ← hsize] at hob
  rw [← hsize] at h1 hpool
  cases hob with
  | large hr ht hm =>
    subst hm
    rw [if_pos hr] at hpool
    exact hi.handOut_took h1 hptr ht (by omega) hi.built (.large hr hpool (ht.blocks ▸ List.mem_cons_self))
      (fun i p hp => ⟨p, hp, rfl⟩) rfl fun p hp => ⟨p, hp, rfl, rfl⟩
  | fresh i p hr hpo hp ht hm =>
    generalize hq : { p with mAllocCount := p.mAllocCount + 1 } = q at hm
    subst hm
    rw [if_neg (by omega), hpo] at hpool
    have hq1 : q.mAllocSize = p.mAllocSize := by rw [← hq]
    have hle := hi.built.le_of_poolOf (by omega) hr hpo hp
    refine hi.handOut_took h1 hptr ht (hi.built.pos p (List.mem_of_getElem? hp)) (hi.built.setPool hp hq1)
      (.small i q hr hpool hpo ?_ (hq1 ▸ hle) ?_) (sizes_setPool hp hq1) rfl (freeList_setPool hp ?_ hq1)
    · rw [getElem?_setPool hp, if_pos rfl]
    · rw [hq1, ht.blocks]
      exact List.mem_cons_self
    · rw [← hq]
  | reuse i p hr hpo hp hf hz hh hm =>
    generalize hq : { p with mFreeList := (s.heap.info (b.header w)).next, mAllocCount := p.mAllocCount + 1 } = q at hm
    subst hm hh
    rw [if_neg (by omega), hpo] at hpool
    have hq1 : q.mAllocSize = p.mAllocSize := by rw [← hq]
    have hle := hi.built.le_of_poolOf (by omega) hr hpo hp
    obtain ⟨l, hl⟩ := hi.free p (List.mem_of_getElem? hp)
    obtain ⟨t, rfl, ht⟩ := hl.chain.pop (by rw [hf, ← hhead]; exact h0)
    rw [hf] at hl ht
    have hblock := hl.block _ List.mem_cons_self
    refine hi.handOut h1 hptr ?_ (hi.built.setPool hp hq1) hi.apart hi.pos (fun a _ => rfl)
      (.small i q hr hpool hpo ?_ (hq1 ▸ hle) (hq1 ▸ hblock)) ?_ ?_
    · intro c hc he
      exact hi.header_notMem hc hl (he ▸ List.mem_cons_self)
    · rw [getElem?_setPool hp, if_pos rfl]
    · exact fun c hc => (hi.holds c hc).mono (sizes_setPool hp hq1) rfl fun n hn => hn
    · intro q' hq'
      obtain ⟨j, hj⟩ := List.getElem?_of_mem hq'
      rw [getElem?_setPool hp] at hj
      split at hj
      next hij =>
        cases hj
        refine ⟨t, ⟨?_, fun a ha => hl.zero a (List.mem_cons_of_mem _ ha), fun a ha => ?_⟩,
          (List.nodup_cons.1 hl.chain.nodup).1⟩
        · rw [← hq]
          exact ht
        · rw [hq1]
          exact hl.block a (List.mem_cons_of_mem _ ha)
      next hij =>
        -- the block is of pool `i`'s size, so no other pool has it
        obtain ⟨l', hl'⟩ := hi.free q' (List.mem_of_getElem? hj)
        refine ⟨l', hl', fun hm => hij ?_⟩
        exact hi.built.size_inj hp hj (hi.block_unique hblock (hl'.block _ hm))

/-- Null changes nothing but the count of a pool. -/
theorem Inv.missed (hi : Inv w s) (hm : Missed s.pool r m') :
    Inv w { s with pool := m', idle := s.idle.filter (· ≠ w) } := by
  have hidle : ∀ q ∈ s.idle.filter (· ≠ w), (s.heap.info (detachMemAllocInfo w q)).mAllocSize = 0 ∧ w < q :=
    fun q hq => hi.idle q (List.mem_of_mem_filter hq)
  cases hm with
  | large hr hm => exact hm ▸ ⟨hi.built, hi.apart, hi.pos, hi.size, hi.header, hi.holds, hi.ptrs, hi.free, hidle⟩
  | small i p hr hpo hp hf hm =>
    generalize hq : { p with mAllocCount := p.mAllocCount + 1 } = q at hm
    subst hm
    have hq1 : q.mAllocSize = p.mAllocSize := by rw [← hq]
    refine ⟨hi.built.setPool hp hq1, hi.apart, hi.pos, hi.size, hi.header, fun b hb => ?_, hi.ptrs, fun p' hp' => ?_, hidle⟩
    · exact (hi.holds b hb).mono (sizes_setPool hp hq1) rfl fun n hn => hn
    · obtain ⟨p, hp, hf, hs⟩ := freeList_setPool hp (by rw [← hq]) hq1 p' hp'
      obtain ⟨l, hl⟩ := hi.free p hp
      exact ⟨l, hf ▸ hl.chain, hl.zero, hs ▸ hl.block⟩

/-! ## Taking back -/

theorem Inv.perm_filter (hi : Inv w s) (hb : b ∈ s.live) : s.live.Perm (b :: s.live.filter (·.ptr ≠ b.ptr)) := by
  have he : s.live.erase b = s.live.filter (·.ptr ≠ b.ptr) := by
    rw [hi.ptrs.of_map.erase_eq_filter]
    refine List.filter_congr fun c hc => ?_
    have : c = b ↔ c.ptr = b.ptr := ⟨congrArg Live.ptr, List.inj_on_of_nodup_map hi.ptrs hc hb⟩
    rw [Bool.eq_iff_iff]
    simpa using not_congr this
  exact he ▸ List.perm_cons_erase hb

/-- A live block is given back. -/
theorem Inv.takeBack (hi : Inv w s) (hb : b ∈ s.live) (hbuilt : Built m') (hap : h'.blocks.Pairwise Apart)
    (hpos : ∀ c ∈ h'.blocks, c.1 ≠ 0 ∧ 0 < c.2) (hframe : ∀ a, a ≠ b.header w → h'.info a = s.heap.info a)
    (h0 : (h'.info (b.header w)).mAllocSize = 0)
    (hsizes : ∀ (i : Nat) (p : SmallSizeMemoryPool),
      s.pool.pools[i]? = some p → ∃ p', m'.pools[i]? = some p' ∧ p'.mAllocSize = p.mAllocSize)
    (htable : m'.mSmallSizeMemoryPoolTable = s.pool.mSmallSizeMemoryPoolTable)
    (hblocks : ∀ c ∈ s.heap.blocks, c.1 ≠ b.header w → c ∈ h'.blocks) (hfree : ∀ p ∈ m'.pools, ∃ l, FreeList h' p l) :
    Inv w ⟨m', h', s.live.filter (·.ptr ≠ b.ptr),
      (s.live.filter fun c => c.ptr = b.ptr ∧ c.pool.isSome).map Live.ptr ++ s.idle⟩ := by
  have hother (c : Live) (hc : c ∈ s.live.filter (·.ptr ≠ b.ptr)) : c ∈ s.live ∧ c.header w ≠ b.header w := by
    obtain ⟨hc, hne⟩ := List.mem_filter.1 hc
    exact ⟨hc, fun he => of_decide_eq_true hne (congrArg Live.ptr (hi.header_inj hc hb he))⟩
  refine ⟨hbuilt, hap, hpos, fun c hc => hi.size c (hother c hc).1, fun c hc => ?_, fun c hc => ?_, ?_, hfree,
    fun q hq => ?_⟩
  · obtain ⟨hc, hne⟩ := hother c hc
    rw [hframe _ hne]
    exact hi.header c hc
  · obtain ⟨hc, hne⟩ := hother c hc
    exact (hi.holds c hc).mono hsizes htable fun n hn => hblocks _ hn hne
  · exact hi.ptrs.sublist (List.filter_sublist.map Live.ptr)
  · rcases List.mem_append.1 hq with hq | hq
    · obtain ⟨c, hc, rfl⟩ := List.mem_map.1 hq
      obtain ⟨hc, hcb⟩ := List.mem_filter.1 hc
      have he : c.header w = b.header w := by rw [Live.header, (of_decide_eq_true hcb).1, Live.header]
      have hptr := (hi.size c hc).2
      have hne := hi.header_ne hc
      refine ⟨?_, by omega⟩
      change (h'.info (c.header w)).mAllocSize = 0
      rw [he, h0]
    · obtain ⟨hq0, hw⟩ := hi.idle q hq
      refine ⟨?_, hw⟩
      by_cases he : detachMemAllocInfo w q = b.header w
      · rw [he, h0]
      · rw [hframe _ he, hq0]

theorem Inv.deallocate (hi : Inv w s) (hb : b ∈ s.live) {extraInfo : Int}
    (hd : s.pool.deallocate w s.heap b.ptr extraInfo = .ok (m', h')) :
    Inv w ⟨m', h', s.live.filter (·.ptr ≠ b.ptr),
      (s.live.filter fun c => c.ptr = b.ptr ∧ c.pool.isSome).map Live.ptr ++ s.idle⟩ := by
  obtain ⟨h1, hptr⟩ := hi.size b hb
  have hs := hi.header b hb
  have hclear (a : Nat) (ha : a ≠ b.header w) : (s.heap.cleared (b.header w) extraInfo).info a = s.heap.info a :=
    Heap.write_ne _ _ ha
  rw [hptr] at hd
  cases hi.holds b hb with
  | large hr hbp hm =>
    rw [deallocate_large (hi.header_ne hb) hs hr] at hd
    cases hd
    refine hi.takeBack hb hi.built (hi.apart.filter _) (fun c hc => hi.pos c (List.mem_of_mem_filter hc)) hclear
      (by simp [Heap.alignedFree, Heap.cleared]) (fun i p hp => ⟨p, hp, rfl⟩) rfl
      (fun c hc hne => List.mem_filter.2 ⟨hc, decide_eq_true hne⟩) fun p hp => ?_
    obtain ⟨l, hl⟩ := hi.free p hp
    exact ⟨l, hl.frame (hi.header_notMem hb hl) hclear fun c hc hne => List.mem_filter.2 ⟨hc, decide_eq_true hne⟩⟩
  | small i p hr hbp hpo hp hle hm =>
    rw [deallocate_small (hi.header_ne hb) hs (by omega) hr hpo hp] at hd
    generalize hq : (p.push (s.heap.cleared (b.header w) extraInfo) (b.header w)).1 = q at hd
    cases hd
    have hq1 : q.mAllocSize = p.mAllocSize := by rw [← hq]; rfl
    have hframe (a : Nat) (ha : a ≠ b.header w) :
        (p.push (s.heap.cleared (b.header w) extraInfo) (b.header w)).2.info a = s.heap.info a :=
      (Heap.write_ne _ _ ha).trans (hclear a ha)
    refine hi.takeBack hb (hi.built.setPool hp hq1) hi.apart hi.pos hframe
      (by simp [SmallSizeMemoryPool.push, Heap.cleared]) (sizes_setPool hp hq1) rfl (fun c hc _ => hc) fun p' hp' => ?_
    rcases List.mem_or_eq_of_mem_set hp' with hp' | rfl
    · obtain ⟨l, hl⟩ := hi.free p' hp'
      exact ⟨l, hl.frame (hi.header_notMem hb hl) hframe fun c hc _ => hc⟩
    · -- the block goes in front of what the pool had
      obtain ⟨l, hl⟩ := hi.free p (List.mem_of_getElem? hp)
      have hnot := hi.header_notMem hb hl
      have hl := hl.frame hnot hframe fun c hc _ => hc
      refine ⟨b.header w :: l, ?_, fun a ha => ?_, fun a ha => ?_⟩
      · rw [← hq]
        exact hl.chain.push (hi.pos _ hm).1 (by simp [SmallSizeMemoryPool.push]) fun _ _ => rfl
      · rcases List.mem_cons.1 ha with rfl | ha
        · simp [SmallSizeMemoryPool.push, Heap.cleared]
        · exact hl.zero a ha
      · rw [hq1]
        rcases List.mem_cons.1 ha with rfl | ha
        · exact hm
        · exact hl.block a ha

theorem step_ok {a : Action} (hs : s.step w a = some s') : s.Legal w a ∧ s.exec w a = .ok s' := by
  unfold State.step at hs
  split at hs
  next hl =>
    refine ⟨hl, ?_⟩
    cases hx : s.exec w a with
    | error e => simp [hx, Except.toOption] at hs
    | ok t =>
      simp only [hx, Except.toOption, Option.some.injEq] at hs
      rw [hs]
  · cases hs

theorem step_of_exec {a : Action} (hl : s.Legal w a) (hx : s.exec w a = .ok s') : s.step w a = some s' := by
  rw [State.step, if_pos hl, hx]
  rfl

/-! ## What is behind the pointers -/

/-- The state without the pointers that are behind null. -/
def State.backed (w : Nat) (s : State) : State := { s with live := s.live.filter (·.header w ≠ 0) }

theorem backed_eq (hs : ∀ b ∈ s.live, b.header w ≠ 0) : s.backed w = s := by
  have hlive : s.live.filter (·.header w ≠ 0) = s.live := List.filter_eq_self.2 fun b hb => decide_eq_true (hs b hb)
  rw [State.backed, hlive]

theorem mem_backed : b ∈ (s.backed w).live ↔ b ∈ s.live ∧ b.header w ≠ 0 := by
  simp [State.backed]

/-- Nothing can be given back through null. -/
theorem header_ne_of_deallocate {extraInfo : Int} (hd : m.deallocate w h ptr extraInfo = .ok (m', h')) :
    detachMemAllocInfo w ptr ≠ 0 := by
  intro h0
  unfold MemoryPool.deallocate at hd
  dsimp only at hd
  rw [if_pos h0] at hd
  cases hd

theorem filter_backed {q : Live → Bool} (hq : ∀ c, q c = true → c.header w ≠ 0) :
    (s.backed w).live.filter q = s.live.filter q := by
  rw [State.backed, List.filter_filter]
  refine List.filter_congr fun c _ => ?_
  cases hc : q c with
  | false => rfl
  | true => simp [hq c hc]

/-- Who shares the pointer with a block has that block. -/
theorem header_ne_of_ptr (hb : b.header w ≠ 0) (hc : c.ptr = b.ptr) : c.header w ≠ 0 := by
  rwa [Live.header, hc]

theorem inv_step {a : Action} (hi : Inv w (s.backed w)) (hs : s.step w a = some s') : Inv w (s'.backed w) := by
  obtain ⟨hl, hx⟩ := step_ok hs
  cases a with
  | allocate size answer =>
    obtain ⟨⟨ptr, m, h⟩, ha, hx⟩ := bind_ok hx
    cases hx
    rcases allocate_ok ha with ⟨header, h₁, h0, hptr, -, -⟩ | ⟨rfl, -, hm, rfl⟩
    · have hhead : (⟨ptr, size, s.pool.smallPool w size⟩ : Live).header w ≠ 0 := by
        rw [Live.header, detachMemAllocInfo, hptr, Nat.add_sub_cancel]
        exact h0
      have hnext := hi.allocate hl.1 hl.2 ha (by omega)
      simp only [State.backed, List.filter_cons, decide_eq_true hhead, if_true] at hnext ⊢
      exact hnext
    · have hhead : (⟨ptr, size, s.pool.smallPool ptr size⟩ : Live).header ptr = 0 := Nat.sub_self ptr
      have hnext := hi.missed hm
      simp only [State.backed, List.filter_cons, hhead] at hnext ⊢
      exact hnext
  | deallocate ptr extraInfo =>
    obtain ⟨b, hb, rfl⟩ := hl
    obtain ⟨⟨m, h⟩, hd, hx⟩ := bind_ok hx
    cases hx
    have hhead : b.header w ≠ 0 := header_ne_of_deallocate hd
    have hidle := filter_backed (s := s) (w := w) (q := fun c => c.ptr = b.ptr ∧ c.pool.isSome) fun c hc =>
      header_ne_of_ptr hhead (of_decide_eq_true hc).1
    have hnext := hi.deallocate (mem_backed.2 ⟨hb, hhead⟩) hd
    rw [hidle] at hnext
    simp only [State.backed, List.filter_filter, Bool.and_comm] at hnext ⊢
    exact hnext

theorem inv_run {info : Nat → MemAllocInfo} {as : List Action} (hr : run (State.step w) (State.init info) as = some s) :
    Inv w (s.backed w) :=
  inv_of_run (I := fun s => Inv w (s.backed w)) (fun _ _ _ hi hs => inv_step hi hs) (inv_init w info) hr

/-! ## The counts -/

/-- Every pointer a caller holds is counted at its pool, as far as a `long` counts. -/
def Counted (s : State) : Prop :=
  ∀ (i : Nat) (p : SmallSizeMemoryPool), s.pool.pools[i]? = some p → p.mAllocCount = Int32.ofNat (s.liveOf i)

theorem counted_init (info : Nat → MemAllocInfo) : Counted (State.init info) := by
  intro i p hp
  rw [filled_new.empty p (List.mem_of_getElem? hp)]
  rfl

/-- One pool's count follows what it has out. -/
theorem counted_setPool {q : SmallSizeMemoryPool} (hc : Counted s) (hp : s.pool.pools[i]? = some p)
    (hm : s'.pool = s.pool.setPool i q)
    (hq : p.mAllocCount = Int32.ofNat (s.liveOf i) → q.mAllocCount = Int32.ofNat (s'.liveOf i))
    (hl : ∀ j, j ≠ i → s'.liveOf j = s.liveOf j) : Counted s' := by
  intro j r hr
  rw [hm, getElem?_setPool hp] at hr
  split at hr
  next hij =>
    subst hij
    cases hr
    exact hq (hc i p hp)
  next hij =>
    rw [hl j (Ne.symm hij)]
    exact hc j r hr

theorem counted_of_pool (hc : Counted s) (hm : s'.pool = s.pool) (hl : ∀ j, s'.liveOf j = s.liveOf j) : Counted s' := by
  intro j r hr
  rw [hm] at hr
  rw [hl]
  exact hc j r hr

theorem liveOf_cons (hl : s'.live = b :: s.live) (j : Nat) :
    s'.liveOf j = s.liveOf j + if b.pool = some j then 1 else 0 := by
  simp [State.liveOf, hl, List.countP_cons]

theorem ofNat_succ (n : Nat) : Int32.ofNat (n + 1) = Int32.ofNat n + 1 := Int32.ofNat_add n 1

/-- What `Allocate` makes of the pools. -/
theorem allocate_pool (ha : m.allocate w h size answer = .ok (ptr, m', h')) :
    (m' = m ∧ m.smallPool w size = none) ∨ ∃ i p q, m.smallPool w size = some i ∧ m.pools[i]? = some p ∧
      m' = m.setPool i q ∧ q.mAllocCount = p.mAllocCount + 1 := by
  have hlarge (hr : (maxAllocSize : Int) < realAllocSize w size) : m.smallPool w size = none := if_pos hr
  have hsmall (hr : realAllocSize w size ≤ maxAllocSize) : m.smallPool w size = m.poolOf (realAllocSize w size) :=
    if_neg (Int.not_lt.2 hr)
  rcases allocate_ok ha with ⟨header, h₁, -, -, hob, -⟩ | ⟨-, -, hm, -⟩
  · cases hob with
    | large hr ht hm => exact .inl ⟨hm, hlarge hr⟩
    | fresh i p hr hi hp ht hm => exact .inr ⟨i, p, _, (hsmall hr).trans hi, hp, hm, rfl⟩
    | reuse i p hr hi hp hf hz hh hm => exact .inr ⟨i, p, _, (hsmall hr).trans hi, hp, hm, rfl⟩
  · cases hm with
    | large hr hm => exact .inl ⟨hm, hlarge hr⟩
    | small i p hr hi hp hf hm => exact .inr ⟨i, p, _, (hsmall hr).trans hi, hp, hm, rfl⟩

/-- What `Deallocate` makes of the pools. -/
theorem deallocate_pool (hi : Inv w s) (hb : b ∈ s.live) {extraInfo : Int}
    (hd : s.pool.deallocate w s.heap b.ptr extraInfo = .ok (m', h')) :
    (m' = s.pool ∧ b.pool = none) ∨ ∃ i p q, b.pool = some i ∧ s.pool.pools[i]? = some p ∧
      m' = s.pool.setPool i q ∧ q.mAllocCount = p.mAllocCount - 1 := by
  obtain ⟨h1, hptr⟩ := hi.size b hb
  rw [hptr] at hd
  cases hi.holds b hb with
  | large hr hbp hm =>
    rw [deallocate_large (hi.header_ne hb) (hi.header b hb) hr] at hd
    cases hd
    exact .inl ⟨rfl, hbp⟩
  | small i p hr hbp hpo hp =>
    rw [deallocate_small (hi.header_ne hb) (hi.header b hb) (by omega) hr hpo hp] at hd
    cases hd
    exact .inr ⟨i, p, _, hbp, hp, rfl, rfl⟩

/-- A block that is given back was held once. -/
theorem liveOf_giveBack (hi : Inv w (s.backed w)) (hb : b ∈ (s.backed w).live) (j : Nat) :
    s.liveOf j = (s.live.filter (·.ptr ≠ b.ptr)).countP (·.pool = some j) + if b.pool = some j then 1 else 0 := by
  have hne := (mem_backed.1 hb).2
  have hone : s.live.filter (fun c => decide (c.ptr = b.ptr)) = [b] := by
    rw [← filter_backed fun c hc => header_ne_of_ptr hne (of_decide_eq_true hc)]
    refine List.perm_singleton.1 (((hi.perm_filter hb).filter _).trans (.of_eq ?_))
    simp [List.filter_filter]
  rw [State.liveOf, List.countP_eq_countP_filter_add s.live _ fun c => decide (c.ptr = b.ptr), hone,
    List.countP_singleton, Nat.add_comm]
  simp only [decide_eq_true_eq]
  congr 2
  exact List.filter_congr fun c _ => by simp

theorem counted_step {a : Action} (hi : Inv w (s.backed w)) (hc : Counted s) (hs : s.step w a = some s') : Counted s' := by
  obtain ⟨hl, hx⟩ := step_ok hs
  cases a with
  | allocate size answer =>
    obtain ⟨⟨ptr, m, h⟩, ha, hx⟩ := bind_ok hx
    cases hx
    rcases allocate_pool ha with ⟨hm, hp⟩ | ⟨i, p, q, hp, hpi, hm, hq⟩
    · exact counted_of_pool hc hm fun j => by rw [liveOf_cons (s := s) rfl, hp]; rfl
    · refine counted_setPool hc hpi hm (fun h => ?_) fun j hj => ?_
      · rw [hq, h, ← ofNat_succ]
        exact congrArg Int32.ofNat ((liveOf_cons rfl i).trans (by rw [if_pos hp])).symm
      · rw [liveOf_cons (s := s) rfl, hp, if_neg (by simpa using Ne.symm hj)]
        rfl
  | deallocate ptr extraInfo =>
    obtain ⟨b, hb, rfl⟩ := hl
    obtain ⟨⟨m, h⟩, hd, hx⟩ := bind_ok hx
    cases hx
    have hb := mem_backed.2 ⟨hb, header_ne_of_deallocate hd⟩
    have hlive := liveOf_giveBack hi hb
    rcases deallocate_pool hi hb hd with ⟨hm, hp⟩ | ⟨i, p, q, hp, hpi, hm, hq⟩
    · exact counted_of_pool hc hm fun j => by rw [hlive j, hp]; rfl
    · refine counted_setPool hc hpi hm (fun h => ?_) fun j hj => ?_
      · rw [hq, h, hlive i, if_pos hp, ofNat_succ]
        simp [State.liveOf]
      · rw [hlive j, hp, if_neg (by simpa using Ne.symm hj)]
        rfl

/-! ## What callers rely on -/

theorem bind_error {ε α β : Type} {x : Except ε α} {f : α → Except ε β} {e : ε} (hx : x >>= f = .error e) :
    x = .error e ∨ ∃ a, x = .ok a ∧ f a = .error e := by
  cases x with
  | error e' =>
    cases hx
    exact .inl rfl
  | ok a => exact .inr ⟨a, rfl, hx⟩

/-- The heap has no room where the answer says. -/
def Heap.Refuses (h : Heap) (answer : Answer) : Prop :=
  ∃ a left n, answer = some (a, left) ∧ ¬ (a ≠ 0 ∧ ∀ b ∈ h.blocks, Apart (a, n) b)

theorem alignedMalloc_error {e : Stop} (hm : h.alignedMalloc n answer = .error e) :
    e = .noSuchAnswer ∧ h.Refuses answer := by
  unfold Heap.alignedMalloc at hm
  split at hm
  · cases hm
  next a left =>
    split at hm
    · cases hm
    next hfits =>
      cases hm
      exact ⟨rfl, a, left, n, rfl, hfits⟩

/-- `Pop` fails as the heap does, or at its assert. -/
theorem pop_error {e : Stop} (hp : p.pop h answer = .error e) :
    (e = .noSuchAnswer ∧ h.Refuses answer) ∨ (p.mFreeList ≠ 0 ∧ (h.info p.mFreeList).mAllocSize ≠ 0) := by
  unfold SmallSizeMemoryPool.pop at hp
  dsimp only at hp
  split at hp
  · rcases bind_error hp with hm | ⟨_, _, hp⟩
    · exact .inl (alignedMalloc_error hm)
    · cases hp
  next h0 =>
    split at hp
    · cases hp
    next hs => exact .inr ⟨h0, hs⟩

/-- `Allocate` only fails where the heap does. -/
theorem Inv.allocate_error (hi : Inv w s) (h1 : 1 ≤ size) (hlt : size + w < 2 ^ 31) {e : Stop}
    (ha : s.pool.allocate w s.heap size answer = .error e) : e = .noSuchAnswer ∧ s.heap.Refuses answer := by
  unfold MemoryPool.allocate at ha
  rw [realAllocSize_eq h1 hlt] at ha
  dsimp only at ha
  split at ha
  · rcases bind_error ha with hm | ⟨⟨header, h₁⟩, hm, ha⟩
    · exact alignedMalloc_error hm
    · cases ha
  next hr =>
    obtain ⟨i, p, hpo, hp, -⟩ := hi.built.poolOf (r := size + w) (by omega) (by omega)
    rw [hpo, deref_eq hp] at ha
    rcases bind_error ha with hd | ⟨⟨i', p'⟩, hd, ha⟩
    · cases hd
    cases hd
    rcases bind_error ha with hpop | ⟨⟨header, p', h₁⟩, hpop, ha⟩
    · rcases pop_error hpop with he | ⟨h0, hs⟩
      · exact he
      · -- the head of a free list has 0 in its header
        obtain ⟨l, hl⟩ := hi.free p (List.mem_of_getElem? hp)
        obtain ⟨t, rfl, -⟩ := hl.chain.pop h0
        exact absurd (hl.zero _ List.mem_cons_self) hs
    · cases ha

theorem Inv.deallocate_ok (hi : Inv w s) (hb : b ∈ s.live) (extraInfo : Int) :
    ∃ m h, s.pool.deallocate w s.heap b.ptr extraInfo = .ok (m, h) := by
  obtain ⟨h1, hptr⟩ := hi.size b hb
  rw [hptr]
  cases hi.holds b hb with
  | large hr => exact ⟨_, _, deallocate_large (hi.header_ne hb) (hi.header b hb) hr extraInfo⟩
  | small i p hr hbp hpo hp =>
    exact ⟨_, _, deallocate_small (hi.header_ne hb) (hi.header b hb) (by omega) hr hpo hp extraInfo⟩

/-- A small block is pushed to the pool it was popped from. -/
theorem Inv.deallocate_pool (hi : Inv w s) (hb : b ∈ s.live) (hs : b.size + w ≤ maxAllocSize) (extraInfo : Int) :
    ∃ i p p' h', b.pool = some i ∧ s.pool.pools[i]? = some p ∧ (b.header w, p.mAllocSize) ∈ s.heap.blocks ∧
      s.pool.deallocate w s.heap b.ptr extraInfo = .ok (s.pool.setPool i p', h') ∧ p'.mFreeList = b.header w := by
  obtain ⟨h1, hptr⟩ := hi.size b hb
  cases hi.holds b hb with
  | large hr => omega
  | small i p hr hbp hpo hp hle hm =>
    have hd := deallocate_small (w := w) (hi.header_ne hb) (hi.header b hb) (by omega) hr hpo hp extraInfo
    rw [← hptr] at hd
    exact ⟨i, p, _, _, hbp, hp, hm, hd, rfl⟩

theorem exec_allocate (ha : s.pool.allocate w s.heap size answer = .ok (ptr, m', h')) :
    s.exec w (.allocate size answer) =
      .ok ⟨m', h', ⟨ptr, size, s.pool.smallPool w size⟩ :: s.live, s.idle.filter (· ≠ ptr)⟩ := by
  simp only [State.exec, ha]
  rfl

theorem exec_deallocate {extraInfo : Int} (hd : s.pool.deallocate w s.heap ptr extraInfo = .ok (m', h')) :
    s.exec w (.deallocate ptr extraInfo) = .ok ⟨m', h', s.live.filter (·.ptr ≠ ptr),
      (s.live.filter fun b => b.ptr = ptr ∧ b.pool.isSome).map Live.ptr ++ s.idle⟩ := by
  simp only [State.exec, hd]
  rfl

/-- What a caller may rely on: what it holds are blocks apart and big enough, the next
call meets no assert, a small block goes back where it came from, the counts are
right, and giving a small block back a second time is caught. -/
structure NeverWrong (w : Nat) (s : State) : Prop where
  block : ∀ b ∈ s.live, b.ptr = b.header w + w ∧ ∃ n, (b.header w, n) ∈ s.heap.blocks ∧ b.size + w ≤ n
  nodup : (s.live.map (Live.header w)).Nodup
  apart : s.heap.blocks.Pairwise Apart
  back : ∀ b ∈ s.live, b.size + w ≤ maxAllocSize → ∀ extraInfo, ∃ i p p' s', b.pool = some i ∧
    s.pool.pools[i]? = some p ∧ (b.header w, p.mAllocSize) ∈ s.heap.blocks ∧
    s.exec w (.deallocate b.ptr extraInfo) = .ok s' ∧ s'.pool = s.pool.setPool i p' ∧ p'.mFreeList = b.header w
  noAssert : ∀ a e, s.Legal w a → s.exec w a = .error e → e = .noSuchAnswer
  count : ∀ (i : Nat) (p : SmallSizeMemoryPool), s.pool.pools[i]? = some p → p.mAllocCount.toInt = s.liveOf i
  second : ∀ ptr ∈ s.idle, ∀ extraInfo, s.exec w (.deallocate ptr extraInfo) = .error .deallocateAssert

/-- What holds where no call had null and no count overflowed. -/
structure Kept (w : Nat) (s : State) : Prop where
  inv : Inv w (s.backed w)
  counted : Counted s
  header : ∀ b ∈ s.live, b.header w ≠ 0
  lt : ∀ i, s.liveOf i < 2 ^ 31

theorem kept_init (w : Nat) (info : Nat → MemAllocInfo) : Kept w (State.init info) where
  inv := inv_init w info
  counted := counted_init info
  header := by simp [State.init]
  lt i := by simp [State.init, State.liveOf]

theorem toInt_ofNat {n : Nat} (hn : n < 2 ^ 31) : (Int32.ofNat n).toInt = n := by
  rw [Int32.toInt_ofNat_of_lt hn]

theorem Kept.neverWrong (hk : Kept w s) : NeverWrong w s := by
  have hi : Inv w s := backed_eq hk.header ▸ hk.inv
  refine ⟨fun b hb => ⟨(hi.size b hb).2, (hi.holds b hb).exists_block⟩, ?_, hi.apart, fun b hb hs extraInfo => ?_,
    fun a e hl hx => ?_, fun i p hp => ?_, fun ptr hp extraInfo => ?_⟩
  · exact hi.ptrs.of_map.map_on fun b hb c hc he => hi.header_inj hb hc he
  · obtain ⟨i, p, p', h', hbp, hp, hm, hd, hf⟩ := hi.deallocate_pool hb hs extraInfo
    exact ⟨i, p, p', _, hbp, hp, hm, exec_deallocate hd, rfl, hf⟩
  · cases a with
    | allocate size answer =>
      rcases bind_error hx with ha | ⟨_, _, hx⟩
      · exact (hi.allocate_error hl.1 hl.2 ha).1
      · cases hx
    | deallocate ptr extraInfo =>
      obtain ⟨b, hb, rfl⟩ := hl
      obtain ⟨m, h, hd⟩ := hi.deallocate_ok hb extraInfo
      rw [exec_deallocate hd] at hx
      cases hx
  · rw [hk.counted i p hp, toInt_ofNat (hk.lt i)]
  · obtain ⟨h0, hlt⟩ := hi.idle ptr hp
    have hne : detachMemAllocInfo w ptr ≠ 0 := by
      unfold detachMemAllocInfo
      omega
    simp only [State.exec, deallocate_second hne (Int.le_of_eq h0) extraInfo]
    rfl

/-- A call that had null asked the heap. -/
theorem asksHeap_of_missed {m m' : MemoryPool} (hm : Missed m (realAllocSize w size) m') : m.asksHeap w size := by
  cases hm with
  | large hr => exact .inl hr
  | small i p hr hi hp hf => exact .inr ⟨i, p, hi, hp, hf⟩

theorem kept_step {a : Action} (hk : Kept w s) (ha : s.Fits w a) (hs : s.step w a = some s') : Kept w s' := by
  have hinv := inv_step hk.inv hs
  have hcount := counted_step hk.inv hk.counted hs
  obtain ⟨hl, hx⟩ := step_ok hs
  cases a with
  | allocate size answer =>
    obtain ⟨⟨ptr, m, h⟩, hall, hx⟩ := bind_ok hx
    cases hx
    refine ⟨hinv, hcount, fun b hb => ?_, fun i => ?_⟩
    · rcases List.mem_cons.1 hb with rfl | hb
      · rcases allocate_ok hall with ⟨header, h₁, h0, hptr, -, -⟩ | ⟨-, hn, hm, -⟩
        · rw [Live.header, detachMemAllocInfo, hptr, Nat.add_sub_cancel]
          exact h0
        · exact absurd hn (ha.1 (asksHeap_of_missed hm))
      · exact hk.header b hb
    · rw [liveOf_cons (s := s) rfl]
      split
      next hp => exact ha.2 i hp
      · exact hk.lt i
  | deallocate ptr extraInfo =>
    obtain ⟨⟨m, h⟩, hd, hx⟩ := bind_ok hx
    cases hx
    refine ⟨hinv, hcount, fun b hb => hk.header b (List.mem_of_mem_filter hb), fun i => ?_⟩
    exact lt_of_le_of_lt (List.filter_sublist.countP_le) (hk.lt i)

/-- Null comes back as a pointer behind null. -/
theorem ptr_of_null {m m' : MemoryPool} (ha : m.allocate w h size none = .ok (ptr, m', h')) (hask : m.asksHeap w size) :
    ptr = w := by
  unfold MemoryPool.allocate at ha
  dsimp only at ha
  split at ha
  · cases ha
    exact Nat.zero_add w
  next hr =>
    rcases hask with hlarge | ⟨i, p, hi, hp, hf⟩
    · exact absurd hlarge hr
    · rw [hi, deref_eq hp] at ha
      simp only [bind, Except.bind, SmallSizeMemoryPool.pop, hf, if_true, Heap.alignedMalloc] at ha
      cases ha
      exact Nat.zero_add w

/-- Null handed to a caller is a wrong block. -/
theorem not_neverWrong_of_null (hi : Inv w (s.backed w)) (hb : b ∈ s.live) (hptr : b.ptr = w) : ¬ NeverWrong w s := by
  intro hn
  obtain ⟨-, n, hmem, -⟩ := hn.block b hb
  have hhead : b.header w = 0 := by
    rw [Live.header, hptr]
    exact Nat.sub_self w
  exact (hi.pos _ hmem).1 hhead

/-- In every state of a run what a caller holds is right if and only if, at each
allocation, the heap did not answer null and no count overflowed. -/
theorem never_wrong_block_iff (w : Nat) {info : Nat → MemAllocInfo} {as : List Action} {s : State}
    (hr : run (State.step w) (State.init info) as = some s) :
    (∀ as' s', as' <+: as → run (State.step w) (State.init info) as' = some s' → NeverWrong w s') ↔
      Meets (State.step w) (State.Fits w) (State.init info) as := by
  constructor
  · intro hall
    refine meets_of_split fun as₁ a as₂ s₁ he hr₁ => ?_
    obtain ⟨s₁', hr₁', hr₂⟩ := run_append.1 (he ▸ hr)
    cases hr₁.symm.trans hr₁'
    obtain ⟨s₂, hs, -⟩ := run_cons.1 hr₂
    have hrun : run (State.step w) (State.init info) (as₁ ++ [a]) = some s₂ :=
      run_append.2 ⟨s₁, hr₁, run_cons.2 ⟨s₂, hs, run_nil s₂⟩⟩
    have hn := hall _ s₂ ⟨as₂, by rw [he, List.append_assoc, List.singleton_append]⟩ hrun
    cases a with
    | deallocate ptr extraInfo => trivial
    | allocate size answer =>
      obtain ⟨hl, hx⟩ := step_ok hs
      obtain ⟨⟨ptr, m, h⟩, ha, hx⟩ := bind_ok hx
      cases hx
      refine ⟨fun hask hnone => ?_, fun i hi => ?_⟩
      · rw [hnone] at ha
        exact not_neverWrong_of_null (inv_run hrun) List.mem_cons_self (ptr_of_null ha hask) hn
      · rcases allocate_pool ha with ⟨-, hp⟩ | ⟨j, p, q, hp, hpj, hm, -⟩
        · cases hp.symm.trans hi
        · cases hp.symm.trans hi
          have hq : m.pools[i]? = some q := by rw [hm, getElem?_setPool hpj, if_pos rfl]
          have hcount := hn.count i q hq
          rw [liveOf_cons (s := s₁) rfl, if_pos hp] at hcount
          have hlt := q.mAllocCount.toInt_lt
          omega
  · intro hm as' s' ⟨bs, he⟩ hr'
    exact (inv_of_meets (fun _ _ _ => kept_step) (kept_init w info) (meets_append (he ▸ hm) hr').1 hr').neverWrong

/-- Before the first call `Allocate` fails only where the heap does. -/
theorem exists_allocate_init (w : Nat) (info : Nat → MemAllocInfo) (size : Int) (answer : Answer) (h1 : 1 ≤ size)
    (hlt : size + w < 2 ^ 31) (ha : ∀ a left, answer = some (a, left) → a ≠ 0) :
    ∃ ptr m h, (State.init info).pool.allocate w (State.init info).heap size answer = .ok (ptr, m, h) := by
  cases hx : (State.init info).pool.allocate w (State.init info).heap size answer with
  | error e =>
    obtain ⟨-, a, left, n, he, hf⟩ := (inv_init w info).allocate_error h1 hlt hx
    exact absurd ⟨ha a left he, by simp [State.init]⟩ hf
  | ok r => exact ⟨r.1, r.2.1, r.2.2, rfl⟩

theorem asksHeap_init (w : Nat) (info : Nat → MemAllocInfo) (h1 : 1 ≤ size) (hlt : size + w < 2 ^ 31) :
    (State.init info).pool.asksHeap w size := by
  rw [asksHeap, realAllocSize_eq h1 hlt]
  by_cases hr : (maxAllocSize : Int) < size + w
  · exact .inl hr
  · obtain ⟨i, p, hi, hp, -⟩ := built_new.poolOf (r := size + w) (by omega) (Int.not_lt.1 hr)
    exact .inr ⟨i, p, hi, hp, by rw [filled_new.empty p (List.mem_of_getElem? hp)]; rfl⟩

theorem caught_twice : ∃ s ptr, run (State.step 16) (State.init fun _ => ⟨0, 0, 0⟩)
    [.allocate 20 (some (4096, ⟨0, 0, 0⟩)), .deallocate ptr 1] = some s ∧ NeverWrong 16 s ∧ ptr ∈ s.idle := by
  obtain ⟨ptr, m, h, ha⟩ := exists_allocate_init 16 (fun _ => ⟨0, 0, 0⟩) 20 (some (4096, ⟨0, 0, 0⟩))
    (by decide) (by decide) (by simp)
  have h₁ := step_of_exec (a := .allocate 20 (some (4096, ⟨0, 0, 0⟩))) (s := State.init fun _ => ⟨0, 0, 0⟩)
    ⟨by decide, by decide⟩ (exec_allocate ha)
  have hfits : (State.init fun _ => ⟨0, 0, 0⟩).Fits 16 (.allocate 20 (some (4096, ⟨0, 0, 0⟩))) :=
    ⟨fun _ => by simp, fun i _ => by simp [State.liveOf, State.init]⟩
  have hk := kept_step (kept_init 16 _) hfits h₁
  have hi₁ := backed_eq hk.header ▸ hk.inv
  obtain ⟨i, p, p', h', hb, -, -, hd, -⟩ := hi₁.deallocate_pool List.mem_cons_self (show (20 : Int) + 16 ≤ 4096 by decide) 1
  have h₂ := step_of_exec (a := .deallocate ptr 1) ⟨_, List.mem_cons_self, rfl⟩ (exec_deallocate hd)
  have hr := run_cons.2 ⟨_, h₁, run_cons.2 ⟨_, h₂, run_nil _⟩⟩
  refine ⟨_, ptr, hr, (never_wrong_block_iff 16 hr).2 ⟨hfits, fun s' hs' => ⟨trivial, fun _ _ => trivial⟩⟩
    _ _ (List.prefix_refl _) hr, ?_⟩
  exact List.mem_append_left _ (List.mem_map.2
    ⟨_, List.mem_filter.2 ⟨List.mem_cons_self, decide_eq_true ⟨rfl, by rw [hb]; rfl⟩⟩, rfl⟩)

/-- There is no memory for 20 bytes. -/
theorem wrong_block : ∃ s, run (State.step 16) (State.init fun _ => ⟨0, 0, 0⟩) [.allocate 20 none] = some s ∧
    ¬ NeverWrong 16 s := by
  obtain ⟨ptr, m, h, ha⟩ := exists_allocate_init 16 (fun _ => ⟨0, 0, 0⟩) 20 none (by decide) (by decide) (by simp)
  have h₁ := step_of_exec (a := .allocate 20 none) (s := State.init fun _ => ⟨0, 0, 0⟩) ⟨by decide, by decide⟩
    (exec_allocate ha)
  have hr := run_cons.2 ⟨_, h₁, run_nil _⟩
  exact ⟨_, hr, not_neverWrong_of_null (inv_run hr) List.mem_cons_self
    (ptr_of_null ha (asksHeap_init _ _ (by decide) (by decide)))⟩

end GameServer.MemoryPool
