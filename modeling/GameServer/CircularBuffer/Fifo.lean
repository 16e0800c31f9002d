import GameServer.CircularBuffer.Lemmas
import GameServer.Lib.Run
/-!
# The bip buffer is a FIFO byte queue

Runs of buffer operations under the callers' protocol: bytes are committed only
after a space query that offered them and a write at `GetBuffer()`. `Use` keeps,
beside the buffer, what the caller has committed and removed so far.
-/

namespace GameServer

open Lib

namespace Fifo

inductive Op where
  | getFreeSpaceSize
  | write (bytes : List Byte)
  | commit (len : UInt64)
  | remove (len : UInt64)
  | bufferReset

/-- A buffer in use. `offered` is the answer of the space query since the last
commit or removal, `written` the bytes stored at `GetBuffer()` since then. -/
structure Use where
  buffer : CircularBuffer
  offered : Option Nat
  written : List Byte
  committed : List Byte
  removed : Nat

def start (capacity : UInt64) : Use where
  buffer := .new capacity.toNat
  offered := none
  written := []
  committed := []
  removed := 0

/-- One call; `none` where the caller's protocol forbids it. -/
def step (u : Use) : Op → Option Use
  | .getFreeSpaceSize =>
    some { u with buffer := u.buffer.getFreeSpaceSize.2, offered := some u.buffer.getFreeSpaceSize.1 }
  | .write bytes =>
    match u.offered with
    | some n => if bytes.length ≤ n then
        some { u with buffer := u.buffer.write bytes, written := bytes ++ u.written.drop bytes.length } else none
    | none => none
  | .commit len =>
    match u.offered with
    | some n => if len.toNat ≤ n ∧ len.toNat ≤ u.written.length then
        some { u with buffer := u.buffer.commit len.toNat, offered := none, written := []
                      committed := u.committed ++ u.written.take len.toNat } else none
    | none => none
  | .remove len =>
    some { u with buffer := u.buffer.remove len.toNat, offered := none, written := []
                  removed := u.removed + min len.toNat (u.committed.length - u.removed) }
  | .bufferReset =>
    some { u with buffer := u.buffer.bufferReset, offered := none, written := [], removed := u.committed.length }

/-- No `size_t` or pointer subtraction of any operation goes below zero. -/
structure NoUnderflow (b : CircularBuffer) : Prop where
  aEnd : b.mARegionPointer ≤ b.mBufferEnd
  aFree : b.mARegionSize ≤ b.mBufferEnd - b.mARegionPointer
  bFree : ∀ p, b.mBRegionPointer = some p → p ≤ b.mARegionPointer ∧ b.mBRegionSize ≤ b.mARegionPointer - p
  aRemove : ∀ len, b.aRemove len ≤ b.mARegionSize ∧ b.aRemove len ≤ len
  bRemove : ∀ len, (b.removeFromA len).1.bRemove (b.removeFromA len).2 ≤ (b.removeFromA len).1.mBRegionSize ∧
    (b.removeFromA len).1.bRemove (b.removeFromA len).2 ≤ (b.removeFromA len).2

/-- The bytes `[p, p + n)` lie in the allocation and hold nothing stored. -/
structure FreeSpan (b : CircularBuffer) (p n : Nat) : Prop where
  inside : p + n ≤ b.mBuffer.length
  clearOfA : p + n ≤ b.mARegionPointer ∨ b.mARegionPointer + b.mARegionSize ≤ p
  clearOfB : ∀ q, b.mBRegionPointer = some q → p + n ≤ q ∨ q + b.mBRegionSize ≤ p

/-- What makes the buffer a byte queue of `capacity` holding `committed` less
the first `removed` bytes. -/
structure Queue (capacity : Nat) (u : Use) : Prop where
  holds : u.buffer.regionA ++ u.buffer.regionB = u.committed.drop u.removed
  stored : u.buffer.getStoredSize = u.committed.length - u.removed
  front : u.buffer.contiguous <+: u.committed.drop u.removed
  contiguous : u.buffer.contiguous.length = u.buffer.getContiguiousBytes
  nonempty : u.committed.drop u.removed ≠ [] → 0 < u.buffer.getContiguiousBytes ∧ u.buffer.getBufferStart.isSome
  allocation : u.buffer.mBuffer.length = capacity
  offer : FreeSpan u.buffer.getFreeSpaceSize.2 u.buffer.getFreeSpaceSize.2.getBuffer u.buffer.getFreeSpaceSize.1
  query : NoUnderflow u.buffer.getFreeSpaceSize.2
  removal : NoUnderflow u.buffer
  empty : u.buffer.getStoredSize = 0 → u.buffer.getFreeSpaceSize.1 = capacity

/-! ## The invariant of a run -/

structure Inv (capacity : Nat) (u : Use) : Prop where
  buffer : u.buffer.Inv
  capacity : u.buffer.mCapacity = capacity
  holds : u.buffer.contents = u.committed.drop u.removed
  kept : u.removed ≤ u.committed.length
  settled : ∀ n, u.offered = some n → u.buffer.getFreeSpaceSize = (n, u.buffer)
  fits : ∀ n, u.offered = some n → u.written.length ≤ n
  stored : slice u.buffer.mBuffer u.buffer.getBuffer u.written.length = u.written
  fresh : u.offered = none → u.written = []

theorem inv_start (capacity : UInt64) : Inv capacity.toNat (start capacity) where
  buffer := CircularBuffer.inv_new capacity.toNat_lt
  capacity := rfl
  holds := CircularBuffer.contents_new _
  kept := Nat.le_refl _
  settled n hn := by cases hn
  fits n hn := by cases hn
  stored := slice_zero _ _
  fresh _ := rfl

variable {capacity : Nat} {u u' : Use}

theorem Inv.room (h : Inv capacity u) {n : Nat} (hn : u.offered = some n) : u.buffer.room = n := by
  have := CircularBuffer.getFreeSpaceSize_room h.buffer
  rw [h.settled n hn] at this
  exact this.symm

/-- The query settles the layout; a repeated one changes nothing. -/
theorem inv_query (h : Inv capacity u) (hs : step u .getFreeSpaceSize = some u') : Inv capacity u' := by
  cases hs
  have hb := CircularBuffer.inv_getFreeSpaceSize h.buffer
  refine ⟨hb, (CircularBuffer.mCapacity_getFreeSpaceSize h.buffer).trans h.capacity,
    (CircularBuffer.contents_getFreeSpaceSize h.buffer).trans h.holds, h.kept, ?_, ?_, ?_, ?_⟩
  · intro n hn
    cases hn
    exact CircularBuffer.getFreeSpaceSize_again h.buffer
  · intro n hn
    cases hn
    cases ho : u.offered with
    | none => simp [h.fresh ho]
    | some m => rw [h.settled m ho]; exact h.fits m ho
  · cases ho : u.offered with
    | none => simp [h.fresh ho]
    | some m => rw [h.settled m ho]; exact h.stored
  · intro hn; cases hn

theorem inv_write {bytes : List Byte} (h : Inv capacity u) (hs : step u (.write bytes) = some u') :
    Inv capacity u' := by
  simp only [step] at hs
  cases ho : u.offered with
  | none => simp [ho] at hs
  | some n =>
    simp only [ho, Option.ite_none_right_eq_some, Option.some.injEq] at hs
    obtain ⟨hle, rfl⟩ := hs
    have hr := h.room ho
    have hw := h.fits n ho
    refine ⟨CircularBuffer.inv_write h.buffer (by omega), h.capacity,
      (CircularBuffer.contents_write h.buffer (by omega)).trans h.holds, h.kept, ?_, ?_, ?_, ?_⟩
    · intro m hm
      cases hm
      exact CircularBuffer.getFreeSpaceSize_write (h.settled n ho) bytes
    · intro m hm
      cases hm
      simp only [List.length_append, List.length_drop]
      omega
    · exact slice_overwrite_over (CircularBuffer.getBuffer_le h.buffer) h.stored
    · intro hn; cases hn

theorem inv_commit {len : UInt64} (h : Inv capacity u) (hs : step u (.commit len) = some u') :
    Inv capacity u' := by
  simp only [step] at hs
  cases ho : u.offered with
  | none => simp [ho] at hs
  | some n =>
    simp only [ho, Option.ite_none_right_eq_some, Option.some.injEq] at hs
    obtain ⟨⟨hle, hlw⟩, rfl⟩ := hs
    have hr : len.toNat ≤ u.buffer.room := by rw [h.room ho]; exact hle
    have hk : u.removed ≤ u.committed.length := h.kept
    refine ⟨CircularBuffer.inv_commit h.buffer hr, ?_, ?_, ?_, ?_, ?_, slice_zero _ _, fun _ => rfl⟩
    · exact (CircularBuffer.mCapacity_commit _ _).trans h.capacity
    · simp only
      rw [CircularBuffer.contents_commit h.buffer hr, h.holds, List.drop_append_of_le_length hk,
        ← take_slice _ _ _ _ hlw, h.stored]
    · simp only [List.length_append]; omega
    · intro m hm; cases hm
    · intro m hm; cases hm

theorem inv_remove {len : UInt64} (h : Inv capacity u) (hs : step u (.remove len) = some u') :
    Inv capacity u' := by
  cases hs
  have hlt : len.toNat < sizeMod := len.toNat_lt
  have hk : u.removed ≤ u.committed.length := h.kept
  refine ⟨CircularBuffer.inv_remove h.buffer hlt, ?_, ?_, ?_, ?_, ?_, slice_zero _ _, fun _ => rfl⟩
  · rw [← h.capacity, CircularBuffer.mCapacity_remove h.buffer hlt]
  · simp only
    rw [CircularBuffer.contents_remove h.buffer hlt, h.holds, List.drop_drop]
    rcases Nat.le_total len.toNat (u.committed.length - u.removed) with hm | hm
    · rw [Nat.min_eq_left hm]
    · rw [Nat.min_eq_right hm, List.drop_eq_nil_of_le (by omega), List.drop_eq_nil_of_le (by omega)]
  · simp only; omega
  · intro m hm; cases hm
  · intro m hm; cases hm

theorem inv_step {op : Op} (h : Inv capacity u) (hs : step u op = some u') : Inv capacity u' := by
  cases op with
  | getFreeSpaceSize => exact inv_query h hs
  | write bytes => exact inv_write h hs
  | commit len => exact inv_commit h hs
  | remove len => exact inv_remove h hs
  | bufferReset =>
    cases hs
    refine ⟨CircularBuffer.inv_bufferReset h.buffer, h.capacity, ?_, Nat.le_refl _, ?_, ?_, slice_zero _ _, fun _ => rfl⟩
    · simp
    · intro m hm; cases hm
    · intro m hm; cases hm

/-! ## What the invariant gives -/

theorem noUnderflow {b : CircularBuffer} (h : b.Inv) : NoUnderflow b where
  aEnd := by have := h.inside; rw [h.fin]; omega
  aFree := by have := h.inside; rw [h.fin]; omega
  bFree p hp := by obtain ⟨rfl, hle, -⟩ := h.opened p hp; omega
  aRemove len := by unfold CircularBuffer.aRemove; split <;> omega
  bRemove len := by unfold CircularBuffer.bRemove; split <;> omega

theorem freeSpan {b : CircularBuffer} (h : b.Inv) : FreeSpan b b.getBuffer b.room := by
  obtain ⟨hin, hA, hB⟩ := CircularBuffer.room_span h
  exact ⟨by rw [h.alloc]; exact hin, hA.symm, fun q hq => .inr (hB q hq)⟩

theorem queue_of_inv (h : Inv capacity u) : Queue capacity u := by
  have hb := h.buffer
  have hlen : u.buffer.contents.length = u.committed.length - u.removed := by rw [h.holds, List.length_drop]
  have hq := CircularBuffer.inv_getFreeSpaceSize hb
  refine ⟨h.holds, ?_, ?_, ?_, ?_, hb.alloc.trans h.capacity, ?_, noUnderflow hq, noUnderflow hb, ?_⟩
  · rw [CircularBuffer.getStoredSize_eq hb, hlen]
  · rw [← h.holds, CircularBuffer.contiguous_eq hb]
    exact List.prefix_append _ _
  · rw [CircularBuffer.contiguous_eq hb, CircularBuffer.length_regionA hb, CircularBuffer.getContiguiousBytes_eq hb]
  · intro hne
    rw [← h.holds, ne_eq, CircularBuffer.contents_nil hb] at hne
    have hpos := Nat.pos_of_ne_zero hne
    rw [CircularBuffer.getContiguiousBytes_eq hb]
    exact ⟨hpos, by simp [CircularBuffer.getBufferStart, hpos]⟩
  · rw [CircularBuffer.getFreeSpaceSize_room hb]
    exact freeSpan hq
  · intro h0
    rw [CircularBuffer.getStoredSize_eq hb, List.length_eq_zero_iff, CircularBuffer.contents_nil hb] at h0
    rw [CircularBuffer.getFreeSpaceSize_empty hb h0, h.capacity]

/-- Whatever is called in whatever order, the buffer is a FIFO queue of bytes. -/
theorem fifo_queue (capacity : UInt64) (ops : List Op) (u : Use) (h : run step (start capacity) ops = some u) :
    Queue capacity.toNat u :=
  queue_of_inv (inv_of_run (fun _ _ _ => inv_step) (inv_start capacity) h)

/-- A run that opens B, then removes all of A and part of B. -/
def wrapAround : List Op :=
  [.getFreeSpaceSize, .write [1, 2, 3, 4, 5, 6], .commit 6, .remove 4, .getFreeSpaceSize, .write [7, 8, 9],
    .commit 3, .remove 3]

theorem fifo_queue_wrapAround : ∃ u, run step (start 8) wrapAround = some u ∧ u.buffer.contents = [8, 9] ∧ Queue 8 u :=
  ⟨_, rfl, by decide, fifo_queue 8 wrapAround _ rfl⟩

end Fifo

end GameServer
