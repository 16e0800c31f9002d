import GameServer.MemoryPool.Blocks
/-!
# The containers' allocator

`STLAllocator` in `XTL.h` of Homework4. The count of elements goes through an `int`,
a product in `size_t` and another `int` on its way to `Allocate`, so the pool is
asked for the number of bytes modulo 2^32. `size_t` has 32 or 64 bits.
-/

namespace GameServer.MemoryPool

open Lib

/-- `(int)n*sizeof(T)` as the parameter of `Allocate`. -/
def byteCount (bits sizeofT n : Nat) : Int :=
  Int.bmod (Int.bmod n (2 ^ 32) % 2 ^ bits * sizeofT % 2 ^ bits) (2 ^ 32)

section
variable (bits sizeofMemAllocInfo sizeofT : Nat)

/-- `STLAllocator<T>::allocate(n)`. -/
def stlAllocate (m : MemoryPool) (h : Heap) (n : Nat) (answer : Answer) : Except Stop (Nat × MemoryPool × Heap) :=
  m.allocate sizeofMemAllocInfo h (byteCount bits sizeofT n) answer

/-- Whatever was called before: the index is in the table where it is used, and a
pointer, unless it is the one behind null, is behind the header of a block that has
room for `n` elements. -/
def Serves (n : Nat) : Prop :=
  let index := realAllocSize sizeofMemAllocInfo (byteCount bits sizeofT n)
  (maxAllocSize < index ∨ (1 ≤ index ∧ index ≤ maxAllocSize)) ∧
  ∀ info as s answer ptr m h, run (State.step sizeofMemAllocInfo) (State.init info) as = some s →
    stlAllocate bits sizeofMemAllocInfo sizeofT s.pool s.heap n answer = .ok (ptr, m, h) → ptr ≠ sizeofMemAllocInfo →
    ∃ header size, ptr = header + sizeofMemAllocInfo ∧ (header, size) ∈ h.blocks ∧
      n * sizeofT + sizeofMemAllocInfo ≤ size

end

variable {bits w sizeofT n : Nat}

theorem bmod_emod (hb : 32 ≤ bits) (x : Int) : Int.bmod (x % 2 ^ bits) (2 ^ 32) = Int.bmod x (2 ^ 32) := by
  have hd : ((2 : Int) ^ 32) ∣ 2 ^ bits := ⟨2 ^ (bits - 32), by rw [← Int.pow_add, Nat.add_sub_cancel' hb]⟩
  have he : x % 2 ^ bits % ((2 ^ 32 : Nat) : Int) = x % ((2 ^ 32 : Nat) : Int) := Int.emod_emod_of_dvd x hd
  rw [Int.bmod_def, Int.bmod_def, he]

/-- All the conversions only leave the bytes modulo 2^32. -/
theorem realAllocSize_byteCount (hb : 32 ≤ bits) :
    realAllocSize w (byteCount bits sizeofT n) = Int.bmod (n * sizeofT + w : Nat) (2 ^ 32) := by
  unfold realAllocSize byteCount
  rw [Int.bmod_add_bmod, ← Int.bmod_add_bmod, bmod_emod hb, Int.bmod_add_bmod, ← Int.bmod_add_bmod, ← Int.bmod_mul_bmod,
    bmod_emod hb, Int.bmod_mul_bmod, Int.bmod_mul_bmod, Int.bmod_add_bmod]
  congr 1

theorem realAllocSize_of_lt (hb : 32 ≤ bits) (hlt : n * sizeofT + w < 2 ^ 31) :
    realAllocSize w (byteCount bits sizeofT n) = (n * sizeofT + w : Nat) := by
  rw [realAllocSize_byteCount hb]
  apply Int.bmod_eq_of_le <;> omega

/-- A block is as big as the size it was chosen by. -/
theorem Obtained.exists_block {m m' : MemoryPool} {h h₁ : Heap} {r : Int} {header : Nat} (ho : Obtained m h r header m' h₁)
    (hb : Built m) (hf : ∀ p ∈ m.pools, ∃ l, FreeList h p l) (h0 : header ≠ 0) (h1 : 1 ≤ r) :
    ∃ size : Nat, (header, size) ∈ h₁.blocks ∧ r ≤ size := by
  cases ho with
  | large hr ht hm => exact ⟨r.toNat, ht.blocks ▸ List.mem_cons_self, Int.self_le_toNat r⟩
  | fresh i p hr hi hp ht hm => exact ⟨p.mAllocSize, ht.blocks ▸ List.mem_cons_self, hb.le_of_poolOf h1 hr hi hp⟩
  | reuse i p hr hi hp hf' hz hh hm =>
    subst hh
    obtain ⟨l, hl⟩ := hf p (List.mem_of_getElem? hp)
    obtain ⟨t, rfl, -⟩ := hl.chain.pop (by rw [hf']; exact h0)
    exact ⟨p.mAllocSize, hf' ▸ hl.block _ List.mem_cons_self, hb.le_of_poolOf h1 hr hi hp⟩

/-- From a fresh pool and heap comes the block the wrapped size leads to. -/
theorem allocate_new {r : Int} (hr : r < 2 ^ 31) (h1 : 1 ≤ r) {size : Int} (hs : realAllocSize w size = r) :
    ∃ m h, new.allocate w ⟨fun _ => ⟨0, 0, 0⟩, []⟩ size (some (64, ⟨0, 0, 0⟩)) = .ok (64 + w, m, h) ∧
      ∀ b ∈ h.blocks, b.2 < 2 ^ 31 := by
  unfold MemoryPool.allocate
  rw [hs]
  by_cases hl : (maxAllocSize : Int) < r
  · refine ⟨_, _, by rw [if_pos hl]; rfl, ?_⟩
    simp [Heap.write]
    omega
  · obtain ⟨i, p, hi, hp, -⟩ := built_new.poolOf h1 (by omega)
    have hnew := filled_new.empty p (List.mem_of_getElem? hp)
    have hb := (filled_new.bound p (List.mem_of_getElem? hp)).2
    have hpop : p.pop ⟨fun _ => ⟨0, 0, 0⟩, []⟩ (some (64, ⟨0, 0, 0⟩)) =
        .ok (64, { p with mAllocCount := p.mAllocCount + 1 },
          ⟨Function.update (fun _ => ⟨0, 0, 0⟩) 64 ⟨0, 0, 0⟩, [(64, p.mAllocSize)]⟩) := by
      rw [hnew]
      rfl
    refine ⟨_, _, by rw [if_neg hl, hi, deref_eq hp]; simp only [bind, Except.bind]; rw [hpop]; rfl, ?_⟩
    unfold maxAllocSize at hb
    simp [attachMemAllocInfo, Heap.write]
    omega

/-- A request is served as it should be if it fits with its header below 2^31. From
there on the size wraps: the index leaves the table or the block is too small. -/
theorem serves_iff (hb : 32 ≤ bits) (hw : 1 ≤ w) : Serves bits w sizeofT n ↔ n * sizeofT + w < 2 ^ 31 := by
  constructor
  · rintro ⟨hindex, hserve⟩
    by_contra hge
    generalize hr : realAllocSize w (byteCount bits sizeofT n) = r at hindex
    have hr31 : r < 2 ^ 31 := by
      rw [← hr, realAllocSize_byteCount hb, Int.bmod_def]
      split <;> omega
    have h1 : 1 ≤ r := by
      unfold maxAllocSize at hindex
      omega
    obtain ⟨m, h, ha, hsmall⟩ := allocate_new hr31 h1 hr
    obtain ⟨header, size, -, hblock, hle⟩ := hserve (fun _ => ⟨0, 0, 0⟩) [] _ _ _ m h rfl ha (by omega)
    have hlt : size < 2 ^ 31 := hsmall _ hblock
    omega
  · intro hlt
    have hr := realAllocSize_of_lt hb hlt
    refine ⟨?_, fun info as s answer ptr m h hrun ha hne => ?_⟩
    · rw [hr]
      unfold maxAllocSize
      omega
    · have hi := inv_run hrun
      obtain ⟨header, h₁, h0, rfl, hob, rfl⟩ := obtained_of_ne ha hne
      rw [hr] at hob
      obtain ⟨size, hblock, hle⟩ := hob.exists_block hi.built hi.free h0 (by omega)
      exact ⟨header, size, rfl, hblock, by omega⟩

/-- 2^32 + 1 bytes are asked for, and the pool's smallest block is the answer. -/
theorem short_block : ¬ Serves 64 32 1 (2 ^ 32 + 1) := by
  intro h
  have hreal : realAllocSize 32 (byteCount 64 1 (2 ^ 32 + 1)) = 33 := by decide
  obtain ⟨m, heap, ha, hsmall⟩ := allocate_new (by decide) (by decide) hreal
  obtain ⟨header, size, -, hblock, hle⟩ := h.2 (fun _ => ⟨0, 0, 0⟩) [] _ _ _ m heap rfl ha (by decide)
  have hlt : size < 2 ^ 31 := hsmall _ hblock
  omega

theorem serves_iff_ten : Serves 64 32 8 10 ↔ 10 * 8 + 32 < 2 ^ 31 := serves_iff (by decide) (by decide)

end GameServer.MemoryPool
