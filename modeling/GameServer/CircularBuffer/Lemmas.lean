import GameServer.CircularBuffer
/-!
# What each buffer operation does

One lemma per operation of `CircularBuffer`: it keeps `Inv`, and it does to
`contents` what a queue operation does. Nothing later unfolds an operation.
-/

namespace GameServer

open Lib

theorem addSize_eq {a b : Nat} (h : a + b < sizeMod) : addSize a b = a + b := Nat.mod_eq_of_lt h

theorem subSize_eq {a b : Nat} (h : b ≤ a) (ha : a < sizeMod) : subSize a b = a - b := by
  have e : a + sizeMod - b = (a - b) + sizeMod := by omega
  rw [subSize, e, Nat.add_mod_right, Nat.mod_eq_of_lt (by omega)]

namespace CircularBuffer

variable {b : CircularBuffer}

/-! ## Sizes -/

theorem Inv.bLe (h : b.Inv) : b.mBRegionSize ≤ b.mARegionPointer := by
  cases hb : b.mBRegionPointer with
  | none => rw [h.closed hb]; exact Nat.zero_le _
  | some p => exact (h.opened p hb).2.1

/-- When A is empty so is B, which is then closed. -/
theorem Inv.aEmpty (h : b.Inv) (ha : b.mARegionSize = 0) : b.mBRegionPointer = none ∧ b.mBRegionSize = 0 := by
  cases hb : b.mBRegionPointer with
  | none => exact ⟨rfl, h.closed hb⟩
  | some p => have := (h.opened p hb).2.2; omega

theorem getAFreeSpace_eq (h : b.Inv) : b.getAFreeSpace = b.mCapacity - b.mARegionPointer - b.mARegionSize := by
  have hc := h.cap
  have hi := h.inside
  rw [getAFreeSpace, h.fin, subSize_eq (by omega) hc, subSize_eq (by omega) (by omega)]

theorem getBFreeSpace_eq (h : b.Inv) {p : Nat} (hb : b.mBRegionPointer = some p) :
    b.getBFreeSpace = b.mARegionPointer - b.mBRegionSize := by
  have hc := h.cap
  have hi := h.inside
  obtain ⟨rfl, hle, -⟩ := h.opened p hb
  simp only [getBFreeSpace, hb]
  rw [subSize_eq (Nat.zero_le _) (by omega), subSize_eq (by omega) (by omega), Nat.sub_zero]

theorem length_regionA (h : b.Inv) : b.regionA.length = b.mARegionSize := by
  apply length_slice
  rw [h.alloc]
  exact h.inside

theorem length_regionB (h : b.Inv) : b.regionB.length = b.mBRegionSize := by
  have hi := h.inside
  cases hb : b.mBRegionPointer with
  | none => simp [regionB, hb, h.closed hb]
  | some p =>
    obtain ⟨rfl, hle, -⟩ := h.opened p hb
    simp only [regionB, hb]
    apply length_slice
    rw [h.alloc]
    omega

theorem length_contents (h : b.Inv) : b.contents.length = b.mARegionSize + b.mBRegionSize := by
  rw [contents, List.length_append, length_regionA h, length_regionB h]

theorem getStoredSize_eq (h : b.Inv) : b.getStoredSize = b.contents.length := by
  have hc := h.cap
  have hi := h.inside
  have hb := h.bLe
  rw [getStoredSize, addSize_eq (by omega), length_contents h]

/-- The in-place span is region A. -/
theorem contiguous_eq (h : b.Inv) : b.contiguous = b.regionA := by
  by_cases ha : 0 < b.mARegionSize
  · simp [contiguous, getBufferStart, getContiguiousBytes, ha, regionA]
  · have ha' : b.mARegionSize = 0 := by omega
    simp [contiguous, getBufferStart, regionA, ha', (h.aEmpty ha').1]

theorem getContiguiousBytes_eq (h : b.Inv) : b.getContiguiousBytes = b.mARegionSize := by
  by_cases ha : 0 < b.mARegionSize
  · simp [getContiguiousBytes, ha]
  · have ha' : b.mARegionSize = 0 := by omega
    simp [getContiguiousBytes, ha', (h.aEmpty ha').2]

theorem contents_nil (h : b.Inv) : b.contents = [] ↔ b.mARegionSize = 0 := by
  rw [← List.length_eq_zero_iff, length_contents h]
  constructor
  · intro h0; omega
  · intro ha; rw [ha, (h.aEmpty ha).2]

theorem contents_of_closed (hb : b.mBRegionPointer = none) : b.contents = b.regionA := by
  simp [contents, regionB, hb]

/-! ## Construction and reset -/

theorem inv_new {capacity : Nat} (h : capacity < sizeMod) : (new capacity).Inv where
  cap := h
  alloc := by simp [new]
  fin := rfl
  inside := by simp [new]
  closed _ := rfl
  opened p hp := by simp [new] at hp
  empty _ := rfl

@[simp] theorem contents_new (capacity : Nat) : (new capacity).contents = [] := by
  simp [new, contents, regionA, regionB]

theorem inv_bufferReset (h : b.Inv) : b.bufferReset.Inv := inv_new h.cap

@[simp] theorem contents_bufferReset (b : CircularBuffer) : b.bufferReset.contents = [] :=
  contents_new b.mCapacity

/-! ## The space query -/

/-- The space at `GetBuffer()` in the buffer's present layout. -/
def room (b : CircularBuffer) : Nat :=
  if b.mBRegionPointer.isSome then b.mARegionPointer - b.mBRegionSize
  else b.mCapacity - b.mARegionPointer - b.mARegionSize

theorem inv_allocateB (h : b.Inv) (hb : b.mBRegionPointer = none) (ha : 0 < b.mARegionPointer) :
    b.allocateB.Inv where
  cap := h.cap
  alloc := h.alloc
  fin := h.fin
  inside := h.inside
  closed hn := by simp [allocateB] at hn
  opened p hp := by
    cases hp
    refine ⟨rfl, by simp [allocateB, h.closed hb], ?_⟩
    by_contra h0
    have := h.empty (by simpa [allocateB] using h0)
    omega
  empty := h.empty

theorem contents_allocateB (h : b.Inv) (hb : b.mBRegionPointer = none) : b.allocateB.contents = b.contents := by
  simp [contents, regionA, regionB, allocateB, hb, h.closed hb]

theorem getFreeSpaceSize_some {p : Nat} (hb : b.mBRegionPointer = some p) :
    b.getFreeSpaceSize = (b.getBFreeSpace, b) := by simp [getFreeSpaceSize, hb]

theorem getFreeSpaceSize_split (hb : b.mBRegionPointer = none) (hlt : b.getAFreeSpace < b.getSpaceBeforeA) :
    b.getFreeSpaceSize = (b.allocateB.getBFreeSpace, b.allocateB) := by simp [getFreeSpaceSize, hb, hlt]

theorem getFreeSpaceSize_keep (hb : b.mBRegionPointer = none) (hle : b.getSpaceBeforeA ≤ b.getAFreeSpace) :
    b.getFreeSpaceSize = (b.getAFreeSpace, b) := by simp [getFreeSpaceSize, hb, Nat.not_lt.2 hle]

/-- The query in its two cases: nothing changes, or B opens. -/
theorem getFreeSpaceSize_cases (h : b.Inv) :
    (b.getFreeSpaceSize = (b.room, b) ∧ (b.mBRegionPointer = none → b.getSpaceBeforeA ≤ b.getAFreeSpace)) ∨
    (b.getFreeSpaceSize = (b.allocateB.room, b.allocateB) ∧ b.mBRegionPointer = none ∧
      b.getAFreeSpace < b.getSpaceBeforeA) := by
  cases hb : b.mBRegionPointer with
  | some p => exact .inl ⟨by rw [getFreeSpaceSize_some hb, getBFreeSpace_eq h hb]; simp [room, hb], nofun⟩
  | none =>
    rcases Nat.lt_or_ge b.getAFreeSpace b.getSpaceBeforeA with hlt | hle
    · have hB := inv_allocateB h hb (Nat.zero_lt_of_lt hlt)
      exact .inr ⟨by rw [getFreeSpaceSize_split hb hlt, getBFreeSpace_eq hB rfl]; simp [room, allocateB], rfl, hlt⟩
    · refine .inl ⟨?_, fun _ => hle⟩
      rw [getFreeSpaceSize_keep hb hle, getAFreeSpace_eq h]
      simp [room, hb]

theorem inv_getFreeSpaceSize (h : b.Inv) : b.getFreeSpaceSize.2.Inv := by
  rcases getFreeSpaceSize_cases h with ⟨e, -⟩ | ⟨e, hb, hlt⟩
  · rw [e]; exact h
  · rw [e]; exact inv_allocateB h hb (Nat.zero_lt_of_lt hlt)

theorem contents_getFreeSpaceSize (h : b.Inv) : b.getFreeSpaceSize.2.contents = b.contents := by
  rcases getFreeSpaceSize_cases h with ⟨e, -⟩ | ⟨e, hb, -⟩
  · rw [e]
  · rw [e]; exact contents_allocateB h hb

theorem getFreeSpaceSize_room (h : b.Inv) : b.getFreeSpaceSize.1 = b.getFreeSpaceSize.2.room := by
  rcases getFreeSpaceSize_cases h with ⟨e, -⟩ | ⟨e, -⟩ <;> rw [e]

theorem mCapacity_getFreeSpaceSize (h : b.Inv) : b.getFreeSpaceSize.2.mCapacity = b.mCapacity := by
  rcases getFreeSpaceSize_cases h with ⟨e, -⟩ | ⟨e, -⟩ <;> simp [e, allocateB]

/-- Asking again changes nothing. -/
theorem getFreeSpaceSize_again (h : b.Inv) : b.getFreeSpaceSize.2.getFreeSpaceSize = b.getFreeSpaceSize := by
  rcases getFreeSpaceSize_cases h with ⟨e, -⟩ | ⟨e, hb, hlt⟩
  · rw [e]; exact e
  · rw [getFreeSpaceSize_split hb hlt]
    exact getFreeSpaceSize_some rfl

/-- The query's answer depends on the layout only, which a write leaves alone. -/
theorem getFreeSpaceSize_write {n : Nat} (h : b.getFreeSpaceSize = (n, b)) (bs : List Byte) :
    (b.write bs).getFreeSpaceSize = (n, b.write bs) := by
  cases hb : b.mBRegionPointer with
  | some p =>
    rw [getFreeSpaceSize_some hb, Prod.mk.injEq] at h
    have e := getFreeSpaceSize_some (b := b.write bs) hb
    rw [e, ← h.1]
    rfl
  | none =>
    rcases Nat.lt_or_ge b.getAFreeSpace b.getSpaceBeforeA with hlt | hle
    · rw [getFreeSpaceSize_split hb hlt, Prod.mk.injEq] at h
      have hB : b.allocateB.mBRegionPointer = some 0 := rfl
      rw [h.2, hb] at hB
      cases hB
    · rw [getFreeSpaceSize_keep hb hle, Prod.mk.injEq] at h
      have e := getFreeSpaceSize_keep (b := b.write bs) hb hle
      rw [e, ← h.1]
      rfl

/-- The offered span lies inside the allocation, clear of both regions. -/
theorem room_span (h : b.Inv) : b.getBuffer + b.room ≤ b.mCapacity ∧
    (b.mARegionPointer + b.mARegionSize ≤ b.getBuffer ∨ b.getBuffer + b.room ≤ b.mARegionPointer) ∧
    ∀ p, b.mBRegionPointer = some p → p + b.mBRegionSize ≤ b.getBuffer := by
  have hi := h.inside
  cases hb : b.mBRegionPointer with
  | none => simp only [getBuffer, room, hb]; simp; omega
  | some p =>
    obtain ⟨rfl, hle, -⟩ := h.opened p hb
    simp only [getBuffer, room, hb]
    simp
    omega

theorem getFreeSpaceSize_le (h : b.Inv) : b.getFreeSpaceSize.1 ≤ b.mCapacity := by
  have hs := (room_span (inv_getFreeSpaceSize h)).1
  rw [← getFreeSpaceSize_room h, mCapacity_getFreeSpaceSize h] at hs
  omega

/-! ## Writing and committing -/

theorem getBuffer_le (h : b.Inv) : b.getBuffer ≤ b.mBuffer.length := by
  have := (room_span h).1
  rw [h.alloc]
  omega

theorem inv_write (h : b.Inv) {bs : List Byte} (hl : bs.length ≤ b.room) : (b.write bs).Inv := by
  have hs := (room_span h).1
  refine ⟨h.cap, ?_, h.fin, h.inside, h.closed, h.opened, h.empty⟩
  rw [write, length_overwrite (by rw [h.alloc]; omega), h.alloc]

theorem regionA_write (h : b.Inv) {bs : List Byte} (hl : bs.length ≤ b.room) : (b.write bs).regionA = b.regionA := by
  have hoff := getBuffer_le h
  rcases (room_span h).2.1 with hA | hA
  · exact slice_overwrite_before hA hoff
  · exact slice_overwrite_after (p := b.mARegionPointer) (by omega) hoff

theorem contents_write (h : b.Inv) {bs : List Byte} (hl : bs.length ≤ b.room) :
    (b.write bs).contents = b.contents := by
  have eB : (b.write bs).regionB = b.regionB := by
    cases hb : b.mBRegionPointer with
    | none => simp [regionB, write, hb]
    | some p =>
      have e : slice (b.write bs).mBuffer p b.mBRegionSize = _ :=
        slice_overwrite_before ((room_span h).2.2 p hb) (getBuffer_le h)
      simpa [regionB, write, hb] using e
  rw [contents, contents, regionA_write h hl, eB]

/-- What `write` left at `GetBuffer()`. -/
theorem slice_write (h : b.Inv) {bs : List Byte} {n : Nat} (hn : n ≤ bs.length) :
    slice (b.write bs).mBuffer (b.write bs).getBuffer n = bs.take n :=
  slice_overwrite_prefix (getBuffer_le h) hn

theorem inv_commit (h : b.Inv) {n : Nat} (hn : n ≤ b.room) : (b.commit n).Inv := by
  have hc := h.cap
  have hi := h.inside
  cases hb : b.mBRegionPointer with
  | none =>
    simp only [room, hb, Option.isSome_none, Bool.false_eq_true, if_false] at hn
    have e : b.commit n = { b with mARegionSize := b.mARegionSize + n } := by
      simp [commit, hb, addSize_eq (show b.mARegionSize + n < sizeMod by omega)]
    rw [e]
    refine ⟨hc, h.alloc, h.fin, ?_, fun _ => h.closed hb, fun p hp => ?_, fun h0 => h.empty ?_⟩
    · simp only; omega
    · simp [hb] at hp
    · simp only at h0; omega
  | some p =>
    obtain ⟨rfl, hle, ha⟩ := h.opened p hb
    simp only [room, hb, Option.isSome_some, if_true] at hn
    have e : b.commit n = { b with mBRegionSize := b.mBRegionSize + n } := by
      simp [commit, hb, addSize_eq (show b.mBRegionSize + n < sizeMod by omega)]
    rw [e]
    refine ⟨hc, h.alloc, h.fin, hi, fun hn' => ?_, fun q hq => ?_, h.empty⟩
    · simp [hb] at hn'
    · simp only [hb, Option.some.injEq] at hq
      exact ⟨hq.symm, by simp only; omega, ha⟩

@[simp] theorem mCapacity_commit (b : CircularBuffer) (n : Nat) : (b.commit n).mCapacity = b.mCapacity := by
  unfold commit
  split <;> rfl

/-- A commit appends what lies at `GetBuffer()`. -/
theorem contents_commit (h : b.Inv) {n : Nat} (hn : n ≤ b.room) :
    (b.commit n).contents = b.contents ++ slice b.mBuffer b.getBuffer n := by
  have hc := h.cap
  have hi := h.inside
  cases hb : b.mBRegionPointer with
  | none =>
    simp only [room, hb, Option.isSome_none, Bool.false_eq_true, if_false] at hn
    have e : b.commit n = { b with mARegionSize := b.mARegionSize + n } := by
      simp [commit, hb, addSize_eq (show b.mARegionSize + n < sizeMod by omega)]
    rw [e]
    simp [contents, regionA, regionB, getBuffer, hb, slice_add]
  | some p =>
    obtain ⟨rfl, hle, -⟩ := h.opened p hb
    simp only [room, hb, Option.isSome_some, if_true] at hn
    have e : b.commit n = { b with mBRegionSize := b.mBRegionSize + n } := by
      simp [commit, hb, addSize_eq (show b.mBRegionSize + n < sizeMod by omega)]
    rw [e]
    simp [contents, regionA, regionB, getBuffer, hb, slice_add]

/-! `bs` written and committed whole. -/

theorem inv_store (h : b.Inv) {bs : List Byte} (hl : bs.length ≤ b.room) : ((b.write bs).commit bs.length).Inv :=
  inv_commit (inv_write h hl) hl

theorem contents_store (h : b.Inv) {bs : List Byte} (hl : bs.length ≤ b.room) :
    ((b.write bs).commit bs.length).contents = b.contents ++ bs := by
  rw [contents_commit (inv_write h hl) hl, contents_write h hl, slice_write h (Nat.le_refl _), List.take_length]

@[simp] theorem mBRegionPointer_store (b : CircularBuffer) (bs : List Byte) :
    ((b.write bs).commit bs.length).mBRegionPointer = b.mBRegionPointer := by
  unfold commit
  split <;> rfl

/-- While B is open, A stays as it is. -/
theorem regionA_store (h : b.Inv) {bs : List Byte} (hl : bs.length ≤ b.room) (hb : b.mBRegionPointer.isSome) :
    ((b.write bs).commit bs.length).regionA = b.regionA := by
  have e : (b.write bs).mBRegionPointer.isSome = true := hb
  rw [← regionA_write h hl, commit, if_pos e]
  rfl

theorem getFreeSpaceSize_empty (h : b.Inv) (he : b.mARegionSize = 0) :
    b.getFreeSpaceSize.1 = b.mCapacity := by
  have hp := h.empty he
  rcases getFreeSpaceSize_cases h with ⟨e, -⟩ | ⟨-, -, hlt⟩
  · rw [e]; simp [room, (h.aEmpty he).1, he, hp]
  · simp [getSpaceBeforeA, hp] at hlt

/-! ## Removing -/

/-- Fewer bytes than A holds: A shrinks from the front. -/
theorem remove_inside (h : b.Inv) {len : Nat} (hl : len < b.mARegionSize) :
    b.remove len = { b with mARegionSize := b.mARegionSize - len, mARegionPointer := b.mARegionPointer + len } := by
  have hc := h.cap
  have hi := h.inside
  have e : b.aRemove len = len := if_neg (by omega)
  have e0 : subSize len len = 0 := by rw [subSize_eq (Nat.le_refl _) (by omega), Nat.sub_self]
  have hne : b.mARegionSize - len ≠ 0 := by omega
  simp only [remove, removeFromA, if_pos (show 0 < b.mARegionSize by omega), e, e0,
    subSize_eq (show len ≤ b.mARegionSize by omega) (by omega)]
  simp [removeFromB, reseat, hne]

/-- All of A or more: the first block empties A. -/
theorem removeFromA_all (h : b.Inv) {len : Nat} (hl : b.mARegionSize ≤ len) (hs : len < sizeMod) :
    b.removeFromA len = ({ b with mARegionSize := 0, mARegionPointer := b.mARegionPointer + b.mARegionSize },
      len - b.mARegionSize) := by
  have hc := h.cap
  have hi := h.inside
  have e : b.aRemove len = b.mARegionSize := by unfold aRemove; split <;> omega
  by_cases ha : 0 < b.mARegionSize
  · simp only [removeFromA, if_pos ha, e, subSize_eq hl hs]
    rw [subSize_eq (Nat.le_refl _) (by omega), Nat.sub_self]
  · have ha' : b.mARegionSize = 0 := by omega
    cases b
    simp_all [removeFromA]

/-- The second block drops up to `k` bytes off B. -/
theorem removeFromB_eq {c : CircularBuffer} {k : Nat} (hc : c.mBRegionSize < sizeMod) :
    c.removeFromB k = { c with mBRegionSize := c.mBRegionSize - k
                               mBRegionPointer := c.mBRegionPointer.map (· + min k c.mBRegionSize) } := by
  by_cases hk : 0 < k ∧ 0 < c.mBRegionSize
  · have e : c.bRemove k = min k c.mBRegionSize := by unfold bRemove; split <;> omega
    have es : c.mBRegionSize - min k c.mBRegionSize = c.mBRegionSize - k := by omega
    simp only [removeFromB, if_pos hk, e, subSize_eq (Nat.min_le_right _ _) hc, es]
  · have e : min k c.mBRegionSize = 0 := by omega
    have es : c.mBRegionSize - k = c.mBRegionSize := by omega
    simp [removeFromB, if_neg hk, e, es]

/-- The third block, when A is empty: what B keeps becomes A. -/
theorem reseat_of_aEmpty {c : CircularBuffer} (ha : c.mARegionSize = 0)
    (hn : c.mBRegionPointer = none → c.mBRegionSize = 0) :
    c.reseat = { c with mBuffer := if c.mBRegionSize = 0 then c.mBuffer else
                          move c.mBuffer 0 (c.mBRegionPointer.getD 0) c.mBRegionSize
                        mARegionPointer := 0, mARegionSize := c.mBRegionSize
                        mBRegionPointer := none, mBRegionSize := 0 } := by
  by_cases hb : c.mBRegionSize = 0
  · simp [reseat, ha, hb]
  · cases hp : c.mBRegionPointer with
    | none => exact absurd (hn hp) hb
    | some p =>
      by_cases h0 : p = 0
      · simp [reseat, ha, hb, hp, h0, Nat.pos_of_ne_zero hb]
      · simp [reseat, ha, hb, hp, h0, Nat.pos_of_ne_zero hb]

/-- All of A or more: what B keeps moves to the start of the allocation and
becomes A; B is closed. -/
theorem remove_beyond (h : b.Inv) {len : Nat} (hl : b.mARegionSize ≤ len) (hs : len < sizeMod) :
    ∃ m, m.length = b.mBuffer.length ∧ slice m 0 (b.mBRegionSize - (len - b.mARegionSize)) =
        b.regionB.drop (len - b.mARegionSize) ∧
      b.remove len = { b with mBuffer := m, mARegionPointer := 0, mBRegionPointer := none, mBRegionSize := 0
                              mARegionSize := b.mBRegionSize - (len - b.mARegionSize) } := by
  have hc := h.cap
  have hi := h.inside
  have hle := h.bLe
  have hal := h.alloc
  generalize hk : len - b.mARegionSize = k
  have eA := removeFromA_all h hl hs
  simp only [remove, eA, hk]
  generalize ha : ({ b with mARegionSize := 0, mARegionPointer := b.mARegionPointer + b.mARegionSize } : CircularBuffer) = a
  rw [removeFromB_eq (show a.mBRegionSize < sizeMod by subst ha; simp only; omega)]
  subst ha
  rw [reseat_of_aEmpty rfl (fun hp => by simp only [Option.map_eq_none_iff] at hp; simp [h.closed hp])]
  cases hb : b.mBRegionPointer with
  | none => exact ⟨_, by simp [h.closed hb], by simp [h.closed hb, regionB, hb], rfl⟩
  | some p =>
    obtain ⟨rfl, -, -⟩ := h.opened p hb
    simp only [Option.map_some, Option.getD_some, Nat.zero_add, regionB, hb]
    by_cases h0 : b.mBRegionSize - k = 0
    · refine ⟨_, by rw [if_pos h0], ?_, rfl⟩
      rw [h0, slice_zero, drop_slice, h0, slice_zero]
    · have e : min k b.mBRegionSize = k := by omega
      simp only [if_neg h0, e]
      refine ⟨_, length_move (by omega) (by omega), ?_, rfl⟩
      rw [slice_move (Nat.zero_le _) (by omega), drop_slice, Nat.zero_add]

theorem inv_remove (h : b.Inv) {len : Nat} (hs : len < sizeMod) : (b.remove len).Inv := by
  have hc := h.cap
  have hi := h.inside
  by_cases hl : len < b.mARegionSize
  · rw [remove_inside h hl]
    refine ⟨hc, h.alloc, h.fin, by simp only; omega, h.closed, fun p hp => ?_, fun h0 => by simp only at h0; omega⟩
    obtain ⟨hp0, hle, -⟩ := h.opened p hp
    exact ⟨hp0, by simp only; omega, by simp only; omega⟩
  · obtain ⟨m, hm, -, e⟩ := remove_beyond h (by omega : b.mARegionSize ≤ len) hs
    have hb := h.bLe
    rw [e]
    exact ⟨hc, hm.trans h.alloc, h.fin, by simp only; omega, fun _ => rfl, fun p hp => (by cases hp), fun _ => rfl⟩

theorem mCapacity_remove (h : b.Inv) {len : Nat} (hs : len < sizeMod) : (b.remove len).mCapacity = b.mCapacity := by
  by_cases hl : len < b.mARegionSize
  · rw [remove_inside h hl]
  · obtain ⟨m, -, -, e⟩ := remove_beyond h (by omega : b.mARegionSize ≤ len) hs
    rw [e]

/-- `Remove` drops the first `len` bytes, or everything if it holds fewer. -/
theorem contents_remove (h : b.Inv) {len : Nat} (hs : len < sizeMod) :
    (b.remove len).contents = b.contents.drop len := by
  by_cases hl : len < b.mARegionSize
  · have hA : b.regionA.length = b.mARegionSize := length_regionA h
    rw [remove_inside h hl]
    simp only [contents]
    rw [List.drop_append_of_le_length (by omega)]
    congr 1
    exact (drop_slice _ _ _ _).symm
  · have hA : b.regionA.length = b.mARegionSize := length_regionA h
    obtain ⟨m, -, hm, e⟩ := remove_beyond h (by omega : b.mARegionSize ≤ len) hs
    rw [e, contents_of_closed rfl, contents, List.drop_append, List.drop_eq_nil_of_le (by omega), List.nil_append, hA]
    exact hm

theorem remove_closed (h : b.Inv) {len : Nat} (hs : len < sizeMod) (hb : b.mBRegionPointer = none) :
    (b.remove len).mBRegionPointer = none := by
  by_cases hl : len < b.mARegionSize
  · rw [remove_inside h hl]; exact hb
  · obtain ⟨m, -, -, e⟩ := remove_beyond h (by omega : b.mARegionSize ≤ len) hs
    rw [e]

/-- `b'` is `b` less its first `k` bytes. -/
structure Shrunk (b b' : CircularBuffer) (k : Nat) : Prop where
  inv : b'.Inv
  contents : b'.contents = b.contents.drop k
  capacity : b'.mCapacity = b.mCapacity
  closed : b.mBRegionPointer = none → b'.mBRegionPointer = none

theorem shrunk_refl (h : b.Inv) : Shrunk b b 0 := ⟨h, rfl, rfl, id⟩

theorem shrunk_remove (h : b.Inv) {len : Nat} (hs : len < sizeMod) : Shrunk b (b.remove len) len :=
  ⟨inv_remove h hs, contents_remove h hs, mCapacity_remove h hs, remove_closed h hs⟩

theorem Shrunk.trans {b₁ b₂ : CircularBuffer} {k₁ k₂ : Nat} (h₁ : Shrunk b b₁ k₁) (h₂ : Shrunk b₁ b₂ k₂) :
    Shrunk b b₂ (k₁ + k₂) :=
  ⟨h₂.inv, by rw [h₂.contents, h₁.contents, List.drop_drop], h₂.capacity.trans h₁.capacity, h₂.closed ∘ h₁.closed⟩

end CircularBuffer

end GameServer
