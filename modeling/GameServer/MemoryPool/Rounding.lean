import GameServer.MemoryPool.Table
/-!
# How big the blocks are

An entry of the table leads to the smallest pool that is big enough, and the pools
are 32 bytes apart up to 1024, 128 up to 2048 and 256 up to `maxAllocSize`. From
there on a block has the size it was asked for with.
-/

namespace GameServer.MemoryPool

open Lib

def roundUp (n a : Nat) : Nat := (n + a - 1) / a * a

/-- The bytes of a block that has room for `real`. -/
def blockSize (real : Nat) : Nat :=
  if real ≤ 1024 then roundUp real 32
  else if real ≤ 2048 then roundUp real 128
  else if real ≤ maxAllocSize then roundUp real 256
  else real

theorem le_blockSize (real : Nat) : real ≤ blockSize real := by
  unfold blockSize roundUp
  split
  · omega
  · split
    · omega
    · split <;> omega

/-! ## The smallest pool -/

def allocSizes (m : MemoryPool) : List Nat := m.pools.map SmallSizeMemoryPool.mAllocSize

/-- The entries lead to the smallest pool that is big enough. -/
def Least (m : MemoryPool) (recent : Nat) : Prop :=
  ∀ (r i : Nat) (p : SmallSizeMemoryPool), 1 ≤ r → r ≤ recent → m.mSmallSizeMemoryPoolTable[r]? = some (some i) →
    m.pools[i]? = some p → ∀ size ∈ m.allocSizes, r ≤ size → p.mAllocSize ≤ size

variable {m : MemoryPool} {recent i r : Nat} {p : SmallSizeMemoryPool}

theorem allocSizes_addPool : (addPool (m, recent) i).1.allocSizes = m.allocSizes ++ [i] := by
  unfold allocSizes addPool
  rw [List.map_append]
  rfl

theorem allocSizes_foldl (is : List Nat) : (is.foldl addPool (m, recent)).1.allocSizes = m.allocSizes ++ is := by
  induction is generalizing m recent with
  | nil => simp
  | cons i is ih =>
    have hadd : addPool (m, recent) i = ((addPool (m, recent) i).1, i) := rfl
    rw [List.foldl_cons, hadd, ih, allocSizes_addPool, List.append_assoc]
    rfl

theorem Filled.allocSizes_le (hf : Filled m recent) {size : Nat} (hs : size ∈ m.allocSizes) : size ≤ recent := by
  obtain ⟨p, hp, rfl⟩ := List.mem_map.1 hs
  exact (hf.bound p hp).2

theorem Least.addPool (h : Least m recent) (hf : Filled m recent) (hi : recent < i) (hm : i ≤ maxAllocSize) :
    Least (addPool (m, recent) i).1 i := by
  intro r j p h1 hr ht hp size hsize hle
  rw [allocSizes_addPool] at hsize
  simp only [MemoryPool.addPool, getElem?_foldl_set] at ht hp
  by_cases hrec : r ≤ recent
  · have hout : ¬ (r ∈ steps (recent + 1) (i + 1) 1 ∧ r < m.mSmallSizeMemoryPoolTable.length) := by
      rw [mem_steps_one (by omega)]
      omega
    rw [if_neg hout] at ht
    obtain ⟨j', q, ht', hq, hqle⟩ := hf.entry r h1 hrec
    cases ht.symm.trans ht'
    rw [List.getElem?_append_left (List.getElem?_eq_some_iff.1 hq).1] at hp
    rcases List.mem_append.1 hsize with hsize | hsize
    · exact h r j p h1 hrec ht hp size hsize hle
    · have hpr := (hf.bound p (List.mem_of_getElem? hp)).2
      rw [List.mem_singleton.1 hsize]
      omega
  · have hin : r ∈ steps (recent + 1) (i + 1) 1 ∧ r < m.mSmallSizeMemoryPoolTable.length := by
      rw [mem_steps_one (by omega), hf.length]
      omega
    rw [if_pos hin] at ht
    cases ht
    rw [List.getElem?_concat_length] at hp
    cases hp
    rcases List.mem_append.1 hsize with hsize | hsize
    · have := hf.allocSizes_le hsize
      omega
    · rw [List.mem_singleton.1 hsize]
      exact Nat.le_refl i

theorem Least.foldl {is : List Nat} (h : Least m recent) (hf : Filled m recent)
    (hc : List.IsChain (· < ·) (recent :: is)) (hm : ∀ i ∈ is, i ≤ maxAllocSize) :
    Least (is.foldl MemoryPool.addPool (m, recent)).1 (is.getLastD recent) := by
  induction is generalizing m recent with
  | nil => exact h
  | cons i is ih =>
    rw [List.isChain_cons_cons] at hc
    rw [List.foldl_cons, List.getLastD_cons]
    have him := hm i List.mem_cons_self
    exact ih (h.addPool hf hc.1 him) (hf.addPool hc.1 him) hc.2 fun j hj => hm j (List.mem_cons_of_mem i hj)

theorem least_new : Least new maxAllocSize := by
  have start : Least ⟨[], List.replicate (maxAllocSize + 1) none⟩ 0 := by
    intro r i p h1 h0
    omega
  rw [new_eq_foldl]
  exact start.foldl filled_empty isChain_poolSizes le_of_mem_poolSizes

theorem allocSizes_new : new.allocSizes = poolSizes := by
  rw [new_eq_foldl, allocSizes_foldl]
  rfl

theorem mem_steps {first bound stride : Nat} :
    i ∈ steps first bound stride ↔ ∃ k < (bound - first + stride - 1) / stride, i = first + stride * k := by
  unfold steps
  exact List.mem_range'

theorem mem_poolSizes : i ∈ poolSizes ↔ 0 < i ∧ i ≤ maxAllocSize ∧
    (i ≤ 1024 ∧ i % 32 = 0 ∨ 1024 < i ∧ i ≤ 2048 ∧ i % 128 = 0 ∨ 2048 < i ∧ i % 256 = 0) := by
  unfold poolSizes maxAllocSize
  simp only [List.mem_append, mem_steps]
  constructor
  · rintro ((⟨k, hk, rfl⟩ | ⟨k, hk, rfl⟩) | ⟨k, hk, rfl⟩) <;> omega
  · rintro ⟨h0, h1, ⟨h2, h3⟩ | ⟨h2, h3, h4⟩ | ⟨h2, h3⟩⟩
    · by_cases he : i = 1024
      · exact .inl (.inr ⟨0, by omega, by omega⟩)
      · exact .inl (.inl ⟨i / 32 - 1, by omega, by omega⟩)
    · by_cases he : i = 2048
      · exact .inr ⟨0, by omega, by omega⟩
      · exact .inl (.inr ⟨(i - 1024) / 128, by omega, by omega⟩)
    · exact .inr ⟨(i - 2048) / 256, by omega, by omega⟩

/-- The smallest size of a pool with room for `r`. -/
theorem blockSize_spec (h1 : 1 ≤ r) (hr : r ≤ maxAllocSize) :
    blockSize r ∈ poolSizes ∧ ∀ size ∈ poolSizes, r ≤ size → blockSize r ≤ size := by
  simp only [mem_poolSizes]
  unfold blockSize roundUp
  unfold maxAllocSize at hr ⊢
  constructor
  · split
    · omega
    · split <;> omega
  · intro size hs hle
    split
    · omega
    · split <;> omega

/-- The loops leave the first entry null. -/
theorem entry_zero_foldl (is : List Nat) (c : MemoryPool × Nat) :
    (is.foldl addPool c).1.mSmallSizeMemoryPoolTable[0]? = c.1.mSmallSizeMemoryPoolTable[0]? := by
  induction is generalizing c with
  | nil => rfl
  | cons i is ih =>
    rw [List.foldl_cons, ih, MemoryPool.addPool, getElem?_foldl_set, if_neg]
    rintro ⟨hmem, -⟩
    obtain ⟨k, -, hk⟩ := mem_steps.1 hmem
    omega

/-- No pool has blocks for no bytes. -/
theorem poolOf_new {r : Int} (hr : r ≤ 0) : new.poolOf r = none := by
  unfold poolOf
  split
  · have h0 : r.toNat = 0 := by omega
    rw [h0, new_eq_foldl, entry_zero_foldl, List.getElem?_replicate]
    rfl
  · rfl

/-! ## What no call changes -/

/-- The table and the sizes of the pools are the constructor's. -/
structure AsBuilt (m : MemoryPool) : Prop where
  table : m.mSmallSizeMemoryPoolTable = new.mSmallSizeMemoryPoolTable
  sizes : m.allocSizes = poolSizes

theorem asBuilt_new : AsBuilt new := ⟨rfl, allocSizes_new⟩

theorem AsBuilt.setPool {q : SmallSizeMemoryPool} (h : AsBuilt m) (hp : m.pools[i]? = some p)
    (hs : q.mAllocSize = p.mAllocSize) : AsBuilt (m.setPool i q) where
  table := h.table
  sizes := (map_setPool hp hs).trans h.sizes

/-- The pool that a size leads to has blocks of the size rounded up. -/
theorem AsBuilt.mAllocSize_eq (h : AsBuilt m) (h1 : 1 ≤ r) (hr : r ≤ maxAllocSize) (hi : m.poolOf r = some i)
    (hp : m.pools[i]? = some p) : p.mAllocSize = blockSize r := by
  obtain ⟨hmem, hleast⟩ := blockSize_spec h1 hr
  obtain ⟨j, q, ht, hq, hle⟩ := filled_new.entry r h1 hr
  have hij : i = j := by
    unfold poolOf at hi
    rw [if_pos (by omega), Int.toNat_natCast, h.table, ht] at hi
    exact (Option.some.inj hi).symm
  subst hij
  have hsize : p.mAllocSize = q.mAllocSize := by
    have hs : m.allocSizes[i]? = new.allocSizes[i]? := by rw [h.sizes, allocSizes_new]
    unfold allocSizes at hs
    rw [List.getElem?_map, List.getElem?_map, hp, hq] at hs
    exact Option.some.inj hs
  rw [hsize]
  have hin : q.mAllocSize ∈ poolSizes := by
    rw [← allocSizes_new]
    exact List.mem_map_of_mem (List.mem_of_getElem? hq)
  apply Nat.le_antisymm
  · exact least_new r i q h1 hr ht hq _ (allocSizes_new ▸ hmem) (le_blockSize r)
  · exact hleast _ hin hle

theorem blockSize_of_lt (hr : maxAllocSize < r) : blockSize r = r := by
  unfold blockSize
  unfold maxAllocSize at hr ⊢
  rw [if_neg (by omega), if_neg (by omega), if_neg (by omega)]

end GameServer.MemoryPool
