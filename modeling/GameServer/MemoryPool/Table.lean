import GameServer.MemoryPool
import Mathlib.Data.List.Chain
/-!
# The table of small pools

The constructor's three loops leave an entry for every size from 1 to
`maxAllocSize`, and it leads to a pool with blocks at least that big
(`built_new`). No two pools have blocks of one size.
-/

namespace GameServer.MemoryPool

open Lib

/-- A table that is filled from 1 to `recent`. -/
structure Filled (m : MemoryPool) (recent : Nat) : Prop where
  length : m.mSmallSizeMemoryPoolTable.length = maxAllocSize + 1
  entry : ∀ r, 1 ≤ r → r ≤ recent → ∃ i p, m.mSmallSizeMemoryPoolTable[r]? = some (some i) ∧
    m.pools[i]? = some p ∧ r ≤ p.mAllocSize
  sizes : (m.pools.map SmallSizeMemoryPool.mAllocSize).Nodup
  bound : ∀ p ∈ m.pools, 0 < p.mAllocSize ∧ p.mAllocSize ≤ recent
  empty : ∀ p ∈ m.pools, p = .new p.mAllocSize

theorem getElem?_foldl_set {α : Type*} (v : α) (is : List Nat) (table : List α) (r : Nat) :
    (is.foldl (fun table j => table.set j v) table)[r]? =
      if r ∈ is ∧ r < table.length then some v else table[r]? := by
  induction is generalizing table with
  | nil => simp
  | cons i is ih =>
    rw [List.foldl_cons, ih, List.length_set, List.getElem?_set]
    grind

theorem length_foldl_set {α : Type*} (v : α) (is : List Nat) (table : List α) :
    (is.foldl (fun table j => table.set j v) table).length = table.length := by
  induction is generalizing table with
  | nil => rfl
  | cons i is ih => rw [List.foldl_cons, ih, List.length_set]

theorem mem_steps_one {first bound r : Nat} (h : first ≤ bound) : r ∈ steps first bound 1 ↔ first ≤ r ∧ r < bound := by
  rw [steps, Nat.add_sub_cancel, Nat.div_one, List.mem_range'_1, Nat.add_sub_cancel' h]

theorem Filled.addPool {m : MemoryPool} {recent i : Nat} (h : Filled m recent) (hi : recent < i) (hm : i ≤ maxAllocSize) :
    Filled (addPool (m, recent) i).1 i where
  length := by rw [MemoryPool.addPool, length_foldl_set, h.length]
  entry r h1 hr := by
    simp only [MemoryPool.addPool, getElem?_foldl_set]
    by_cases hrec : r ≤ recent
    · have hout : ¬ (r ∈ steps (recent + 1) (i + 1) 1 ∧ r < m.mSmallSizeMemoryPoolTable.length) := by
        rw [mem_steps_one (by omega)]
        omega
      obtain ⟨j, p, ht, hp, hsize⟩ := h.entry r h1 hrec
      rw [if_neg hout]
      exact ⟨j, p, ht, by rw [List.getElem?_append_left (List.getElem?_eq_some_iff.1 hp).1, hp], hsize⟩
    · have hin : r ∈ steps (recent + 1) (i + 1) 1 ∧ r < m.mSmallSizeMemoryPoolTable.length := by
        rw [mem_steps_one (by omega), h.length]
        omega
      rw [if_pos hin]
      exact ⟨_, .new i, rfl, by simp, hr⟩
  sizes := by
    simp only [MemoryPool.addPool, List.map_append, List.map_cons, List.map_nil]
    refine List.nodup_append.2 ⟨h.sizes, by simp, ?_⟩
    rintro n hn n' hn' rfl
    obtain ⟨p, hp, rfl⟩ := List.mem_map.1 hn
    have hb := (h.bound p hp).2
    have he := List.mem_singleton.1 hn'
    simp only [SmallSizeMemoryPool.new] at he
    omega
  bound p hp := by
    rcases List.mem_append.1 hp with hp | hp
    · have := h.bound p hp
      omega
    · rw [List.mem_singleton.1 hp]
      exact ⟨Nat.lt_of_le_of_lt (Nat.zero_le recent) hi, Nat.le_refl i⟩
  empty p hp := by
    rcases List.mem_append.1 hp with hp | hp
    · exact h.empty p hp
    · rw [List.mem_singleton.1 hp]
      rfl

/-- The loops, on rising values of `i`, end with the table filled to the last. -/
theorem Filled.foldl {m : MemoryPool} {recent : Nat} {is : List Nat} (h : Filled m recent)
    (hc : List.IsChain (· < ·) (recent :: is)) (hm : ∀ i ∈ is, i ≤ maxAllocSize) :
    Filled (is.foldl MemoryPool.addPool (m, recent)).1 (is.getLastD recent) := by
  induction is generalizing m recent with
  | nil => exact h
  | cons i is ih =>
    rw [List.isChain_cons_cons] at hc
    rw [List.foldl_cons, List.getLastD_cons]
    exact ih (h.addPool hc.1 (hm i (by simp))) hc.2 fun j hj => hm j (by simp [hj])

theorem filled_empty : Filled ⟨[], List.replicate (maxAllocSize + 1) none⟩ 0 :=
  ⟨List.length_replicate, fun r h1 h0 => absurd h1 (by omega), List.nodup_nil, by simp, by simp⟩

/-- The values of `i` in all three loops. -/
def poolSizes : List Nat := steps 32 1024 32 ++ steps 1024 2048 128 ++ steps 2048 (4096 + 1) 256

theorem new_eq_foldl : new = (poolSizes.foldl addPool (⟨[], List.replicate (maxAllocSize + 1) none⟩, 0)).1 := by
  unfold poolSizes
  rw [List.foldl_append, List.foldl_append]
  rfl

theorem isChain_poolSizes : List.IsChain (· < ·) (0 :: poolSizes) := by decide +kernel

theorem le_of_mem_poolSizes : ∀ i ∈ poolSizes, i ≤ maxAllocSize := by decide +kernel

theorem filled_new : Filled new maxAllocSize := by
  rw [new_eq_foldl]
  exact filled_empty.foldl isChain_poolSizes le_of_mem_poolSizes

/-- What the calls rely on: the table and the block sizes, which none changes. -/
structure Built (m : MemoryPool) : Prop where
  entry : ∀ r, 1 ≤ r → r ≤ maxAllocSize → ∃ i p, m.mSmallSizeMemoryPoolTable[r]? = some (some i) ∧
    m.pools[i]? = some p ∧ r ≤ p.mAllocSize
  sizes : (m.pools.map SmallSizeMemoryPool.mAllocSize).Nodup
  pos : ∀ p ∈ m.pools, 0 < p.mAllocSize

theorem built_new : Built new := ⟨filled_new.entry, filled_new.sizes, fun p hp => (filled_new.bound p hp).1⟩

variable {m : MemoryPool} {i j : Nat} {p q : SmallSizeMemoryPool}

/-- The size of its blocks tells a pool. -/
theorem Built.size_inj (h : Built m) (hp : m.pools[i]? = some p) (hq : m.pools[j]? = some q)
    (hs : p.mAllocSize = q.mAllocSize) : i = j := by
  have hi := (List.getElem?_eq_some_iff.1 hp).1
  have hmap : (m.pools.map SmallSizeMemoryPool.mAllocSize)[i]? = (m.pools.map SmallSizeMemoryPool.mAllocSize)[j]? := by
    rw [List.getElem?_map, List.getElem?_map, hp, hq, Option.map_some, Option.map_some, hs]
  exact (List.getElem?_inj (by simpa using hi) h.sizes).1 hmap

theorem map_setPool (hp : m.pools[i]? = some p) (hs : q.mAllocSize = p.mAllocSize) :
    (m.setPool i q).pools.map SmallSizeMemoryPool.mAllocSize = m.pools.map SmallSizeMemoryPool.mAllocSize := by
  obtain ⟨hi, rfl⟩ := List.getElem?_eq_some_iff.1 hp
  rw [setPool, List.map_set, hs, ← List.map_set, List.set_getElem_self]

theorem getElem?_setPool (hp : m.pools[i]? = some p) :
    (m.setPool i q).pools[j]? = if i = j then some q else m.pools[j]? := by
  rw [setPool, List.getElem?_set]
  have := (List.getElem?_eq_some_iff.1 hp).1
  grind

theorem sizes_setPool (hp : m.pools[i]? = some p) (hs : q.mAllocSize = p.mAllocSize) (j : Nat) (r : SmallSizeMemoryPool)
    (hr : m.pools[j]? = some r) : ∃ r', (m.setPool i q).pools[j]? = some r' ∧ r'.mAllocSize = r.mAllocSize := by
  rw [getElem?_setPool hp]
  split
  next hij =>
    subst hij
    rw [hp] at hr
    cases hr
    exact ⟨q, rfl, hs⟩
  · exact ⟨r, hr, rfl⟩

theorem Built.setPool (h : Built m) (hp : m.pools[i]? = some p) (hs : q.mAllocSize = p.mAllocSize) :
    Built (m.setPool i q) where
  entry r h1 hr := by
    obtain ⟨j, q', ht, hq, hsize⟩ := h.entry r h1 hr
    by_cases hij : i = j
    · subst hij
      rw [hp] at hq
      cases hq
      exact ⟨i, q, ht, by rw [getElem?_setPool hp, if_pos rfl], hs ▸ hsize⟩
    · exact ⟨j, q', ht, by rw [getElem?_setPool hp, if_neg hij, hq], hsize⟩
  sizes := by rw [map_setPool hp hs]; exact h.sizes
  pos r hr := by
    have hmem := List.mem_map_of_mem (f := SmallSizeMemoryPool.mAllocSize) hr
    rw [map_setPool hp hs] at hmem
    obtain ⟨q', hq, he⟩ := List.mem_map.1 hmem
    exact he ▸ h.pos q' hq

end GameServer.MemoryPool
