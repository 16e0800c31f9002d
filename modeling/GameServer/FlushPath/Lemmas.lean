import GameServer.FlushPath
/-!
# What each call of the aggregated send path does

At most one `WSASend` is outstanding, and its span stays the front of region A:
appending goes behind A, or to B, and nothing else touches the buffer.
-/

namespace GameServer

open Lib

namespace CircularBuffer

variable {b : CircularBuffer} {n : Nat}

/-- A commit leaves A where it starts, and appends to it at most. -/
theorem regionA_commit (h : b.Inv) (hn : n ≤ b.room) :
    (b.commit n).mARegionPointer = b.mARegionPointer ∧ b.mARegionSize ≤ (b.commit n).mARegionSize ∧
      ∀ k ≤ b.mARegionSize, (b.commit n).regionA.take k = b.regionA.take k := by
  have hc := h.cap
  have hi := h.inside
  cases hb : b.mBRegionPointer with
  | none =>
    simp only [room, hb, Option.isSome_none, Bool.false_eq_true, if_false] at hn
    have e : b.commit n = { b with mARegionSize := b.mARegionSize + n } := by
      simp [commit, hb, addSize_eq (show b.mARegionSize + n < sizeMod by omega)]
    rw [e]
    refine ⟨rfl, Nat.le_add_right _ _, fun k hk => ?_⟩
    simp only [regionA]
    rw [take_slice _ _ _ _ (by omega), take_slice _ _ _ _ hk]
  | some p =>
    have e : b.commit n = { b with mBRegionSize := addSize b.mBRegionSize n } := by simp [commit, hb]
    rw [e]
    exact ⟨rfl, Nat.le_refl _, fun k _ => rfl⟩

/-- The space query leaves A alone. -/
theorem regionA_getFreeSpaceSize (b : CircularBuffer) :
    b.getFreeSpaceSize.2.mARegionPointer = b.mARegionPointer ∧
      b.getFreeSpaceSize.2.mARegionSize = b.mARegionSize ∧ b.getFreeSpaceSize.2.regionA = b.regionA := by
  unfold getFreeSpaceSize
  split
  · exact ⟨rfl, rfl, rfl⟩
  · split <;> exact ⟨rfl, rfl, rfl⟩

end CircularBuffer

namespace Flusher

variable {s : Flusher} {i : Nat} {connected accepted : Bool} {bytes : List Byte} {c : PostedSend}

/-- At most one `WSASend` is outstanding and counted, and its span is the front of A. -/
structure Inv (s : Flusher) : Prop where
  buffer : s.mSendBuffer.Inv
  pending : s.mSendPendingCount = (s.inFlight.length : Int)
  single : s.inFlight.length ≤ 1
  span : ∀ c ∈ s.inFlight, c.buf = s.mSendBuffer.mARegionPointer ∧ 0 < s.mSendBuffer.mARegionSize ∧
    c.len ≤ s.mSendBuffer.mARegionSize ∧ c.posted = s.mSendBuffer.regionA.take c.len

theorem inv_start {sendBufSize n : Nat} (h : sendBufSize < sizeMod) : (start sendBufSize n).Inv where
  buffer := CircularBuffer.inv_new h
  pending := rfl
  single := Nat.zero_le _
  span := by simp [start]

/-- The span of an outstanding `WSASend` still holds what it was posted with, and
it is the front of what is stored. -/
theorem Inv.intact (h : s.Inv) (hc : c ∈ s.inFlight) :
    slice s.mSendBuffer.mBuffer c.buf c.len = c.posted ∧ s.mSendBuffer.getBufferStart = some c.buf ∧
      c.posted = s.mSendBuffer.contents.take c.len := by
  obtain ⟨hbuf, hpos, hlen, hposted⟩ := h.span c hc
  refine ⟨?_, ?_, ?_⟩
  · rw [hposted, hbuf, CircularBuffer.regionA, take_slice _ _ _ _ hlen]
  · rw [CircularBuffer.getBufferStart, if_pos hpos, hbuf]
  · have hA := CircularBuffer.length_regionA h.buffer
    rw [hposted, CircularBuffer.contents, List.take_append_of_le_length (by omega)]

/-! ## Appending -/

/-- A call that appends: it finds room and stores its bytes, or it is refused. -/
theorem append_cases (s : Flusher) (i : Nat) (connected : Bool) (bytes : List Byte) :
    (bytes.length ≤ s.mSendBuffer.getFreeSpaceSize.1 ∧
      s.append i connected bytes bytes.length = (true, { s.pushBack i with
        mSendBuffer := (s.mSendBuffer.getFreeSpaceSize.2.write bytes).commit bytes.length })) ∨
    s.append i connected bytes bytes.length = (false, s) ∨
    s.append i connected bytes bytes.length = (false, { s with mSendBuffer := s.mSendBuffer.getFreeSpaceSize.2 }) := by
  unfold append
  by_cases hc : connected = false
  · exact .inr (.inl (if_pos hc))
  · rw [if_neg hc]
    by_cases hlt : s.mSendBuffer.getFreeSpaceSize.1 < bytes.length
    · exact .inr (.inr (if_pos hlt))
    · exact .inl ⟨Nat.le_of_not_lt hlt, if_neg hlt⟩

/-- `SendRequest` appends its packet whole, as `PostSend` does. -/
theorem sendRequest_eq (h : s.mSendBuffer.Inv) (hc : s.mSendBuffer.mCapacity = clientBufSize)
    (packetType : Int16) (payload : Payload) :
    s.sendRequest i connected packetType payload = s.append i connected (packetBytes packetType payload.bytes)
      (packetBytes packetType payload.bytes).length := by
  have hle := CircularBuffer.getFreeSpaceSize_le h
  have hb := payload.byteSize
  rw [hc] at hle
  simp only [sendRequest, length_packetBytes]
  rcases Nat.lt_or_ge clientBufSize (toSize (toInt (payload.bytes.length + headerSize))) with hbig | hfit
  · -- refused: a size that overflows `int` belongs to a payload no buffer has room for
    have hbig' : clientBufSize < payload.bytes.length + headerSize := by
      by_contra hsmall
      have hc : clientBufSize = 65536 := rfl
      rw [toInt_eq (by omega), toSize_natCast (by unfold sizeMod; omega)] at hbig
      omega
    unfold append
    rw [if_pos (show s.mSendBuffer.getFreeSpaceSize.1 < _ by omega),
      if_pos (show s.mSendBuffer.getFreeSpaceSize.1 < payload.bytes.length + headerSize by omega)]
  · rw [totalSize_eq hb hfit]

/-- The invariant speaks of region A and the outstanding sends only. -/
theorem Inv.of_regionA {s' : Flusher} (h : s.Inv) (hb : s'.mSendBuffer.Inv)
    (hp : s'.mSendPendingCount = s.mSendPendingCount) (hf : s'.inFlight = s.inFlight)
    (hA : s'.mSendBuffer.mARegionPointer = s.mSendBuffer.mARegionPointer ∧
      s.mSendBuffer.mARegionSize ≤ s'.mSendBuffer.mARegionSize ∧
      ∀ k ≤ s.mSendBuffer.mARegionSize, s'.mSendBuffer.regionA.take k = s.mSendBuffer.regionA.take k) : s'.Inv := by
  obtain ⟨hptr, hsize, htake⟩ := hA
  refine ⟨hb, by rw [hp, hf]; exact h.pending, by rw [hf]; exact h.single, fun c hc => ?_⟩
  obtain ⟨hbuf, hpos, hlen, hposted⟩ := h.span c (hf ▸ hc)
  exact ⟨hbuf.trans hptr.symm, by omega, by omega, by rw [htake _ hlen, hposted]⟩

theorem regionA_store (h : s.mSendBuffer.Inv) (hr : bytes.length ≤ s.mSendBuffer.getFreeSpaceSize.1) :
    let b := (s.mSendBuffer.getFreeSpaceSize.2.write bytes).commit bytes.length
    b.Inv ∧ b.contents = s.mSendBuffer.contents ++ bytes ∧ b.mARegionPointer = s.mSendBuffer.mARegionPointer ∧
      s.mSendBuffer.mARegionSize ≤ b.mARegionSize ∧
      ∀ k ≤ s.mSendBuffer.mARegionSize, b.regionA.take k = s.mSendBuffer.regionA.take k := by
  have hq := CircularBuffer.inv_getFreeSpaceSize h
  have hroom : bytes.length ≤ s.mSendBuffer.getFreeSpaceSize.2.room := by
    rw [← CircularBuffer.getFreeSpaceSize_room h]
    exact hr
  obtain ⟨hptr, hsize, htake⟩ := CircularBuffer.regionA_commit (CircularBuffer.inv_write hq hroom) hroom
  obtain ⟨hptr', hsize', hA'⟩ := CircularBuffer.regionA_getFreeSpaceSize s.mSendBuffer
  refine ⟨CircularBuffer.inv_store hq hroom, ?_, hptr.trans hptr', hsize' ▸ hsize, fun k hk => ?_⟩
  · rw [CircularBuffer.contents_store hq hroom, CircularBuffer.contents_getFreeSpaceSize h]
  · rw [htake k (hsize' ▸ hk), CircularBuffer.regionA_write hq hroom, hA']

theorem inv_append (h : s.Inv) (i : Nat) (connected : Bool) (bytes : List Byte) :
    (s.append i connected bytes bytes.length).2.Inv := by
  rcases append_cases s i connected bytes with ⟨hr, e⟩ | e | e <;> rw [e]
  · obtain ⟨hb, -, hA⟩ := regionA_store h.buffer hr
    exact h.of_regionA hb rfl rfl hA
  · exact h
  · obtain ⟨hptr, hsize, hA⟩ := CircularBuffer.regionA_getFreeSpaceSize s.mSendBuffer
    exact h.of_regionA (CircularBuffer.inv_getFreeSpaceSize h.buffer) rfl rfl
      ⟨hptr, Nat.le_of_eq hsize.symm, fun k _ => by simp only [hA]⟩

theorem contents_append (h : s.Inv) (i : Nat) (connected : Bool) (bytes : List Byte) :
    (s.append i connected bytes bytes.length).2.mSendBuffer.contents = s.mSendBuffer.contents ++
      if (s.append i connected bytes bytes.length).1 then bytes else [] := by
  rcases append_cases s i connected bytes with ⟨hr, e⟩ | e | e <;> rw [e]
  · exact (regionA_store h.buffer hr).2.1
  · simp
  · simp [CircularBuffer.contents_getFreeSpaceSize h.buffer]

theorem sent_append (s : Flusher) (i : Nat) (connected : Bool) (bytes : List Byte) (len : Nat) :
    (s.append i connected bytes len).2.sent = s.sent := by
  unfold append
  split
  · rfl
  · simp only
    split <;> rfl

/-! ## Flushing -/

/-- What `FlushSend` comes to: it gives up on the connection, leaves the session
as it is, or posts the whole of A with nothing else outstanding. -/
theorem flushSend_cases (h : s.Inv) (connected accepted : Bool) :
    s.flushSend connected accepted = (true, s.disconnectRequest) ∨
    (s.mSendBuffer.mARegionSize = 0 ∧ s.flushSend connected accepted = (decide (s.inFlight = []), s)) ∨
    s.flushSend connected accepted = (false, s) ∨
    (connected = true ∧ 0 < s.mSendBuffer.mARegionSize ∧ s.inFlight = [] ∧
      s.flushSend connected accepted = (true, { s with
        mSendPendingCount := s.mSendPendingCount + 1
        inFlight := [⟨s.mSendBuffer.mARegionPointer, s.mSendBuffer.mARegionSize % 2 ^ 32,
          slice s.mSendBuffer.mBuffer s.mSendBuffer.mARegionPointer (s.mSendBuffer.mARegionSize % 2 ^ 32)⟩] })) := by
  have hp := h.pending
  unfold flushSend
  by_cases hc : connected = false
  · exact .inl (if_pos hc)
  rw [if_neg hc, CircularBuffer.getContiguiousBytes_eq h.buffer]
  by_cases h0 : 0 = s.mSendBuffer.mARegionSize
  · refine .inr (.inl ⟨h0.symm, ?_⟩)
    rw [if_pos h0, hp]
    simp [eq_comm]
  rw [if_neg h0]
  by_cases hpend : s.mSendPendingCount > 0
  · exact .inr (.inr (.inl (if_pos hpend)))
  rw [if_neg hpend]
  by_cases ha : accepted = false
  · exact .inl (if_pos ha)
  have hnil : s.inFlight = [] := List.eq_nil_of_length_eq_zero (by omega)
  have hpos : 0 < s.mSendBuffer.mARegionSize := by omega
  refine .inr (.inr (.inr ⟨by simpa using hc, hpos, hnil, ?_⟩))
  simp [ha, hp, hnil, CircularBuffer.getBufferStart, hpos]

theorem inv_flushSend (h : s.Inv) (connected accepted : Bool) : (s.flushSend connected accepted).2.Inv := by
  rcases flushSend_cases h connected accepted with e | ⟨-, e⟩ | e | ⟨-, hpos, hnil, e⟩ <;> rw [e]
  · exact ⟨h.buffer, h.pending, h.single, h.span⟩
  · exact h
  · exact h
  · have hp := h.pending
    rw [hnil] at hp
    refine ⟨h.buffer, by simp [hp], Nat.le_refl _, fun c hc => ?_⟩
    rw [List.mem_singleton.1 hc]
    have hmod := Nat.mod_le s.mSendBuffer.mARegionSize (2 ^ 32)
    exact ⟨rfl, hpos, hmod, (take_slice _ _ _ _ hmod).symm⟩

theorem flushSend_data (h : s.Inv) (connected accepted : Bool) :
    (s.flushSend connected accepted).2.mSendBuffer = s.mSendBuffer ∧
      (s.flushSend connected accepted).2.sent = s.sent := by
  rcases flushSend_cases h connected accepted with e | ⟨-, e⟩ | e | ⟨-, -, -, e⟩ <;> rw [e] <;> exact ⟨rfl, rfl⟩

/-! ## Completions -/

/-- The only `WSASend` outstanding, completed by `transferred` bytes. -/
theorem sendCompletion_spec (h : s.Inv) (hc : c ∈ s.inFlight) {transferred : Nat} (ht : transferred ≤ c.len) :
    (sendCompletion { s with inFlight := [] } c transferred).Inv ∧
      (sendCompletion { s with inFlight := [] } c transferred).sent ++
        (sendCompletion { s with inFlight := [] } c transferred).mSendBuffer.contents =
      s.sent ++ s.mSendBuffer.contents := by
  have hone : s.inFlight.length = 1 := Nat.le_antisymm h.single (List.length_pos_of_mem hc)
  obtain ⟨-, -, hlen, -⟩ := h.span c hc
  have hcap := h.buffer.cap
  have hin := h.buffer.inside
  have hlt : transferred < sizeMod := by omega
  have hp := h.pending
  refine ⟨⟨CircularBuffer.inv_remove h.buffer hlt, ?_, Nat.zero_le _, by simp [sendCompletion]⟩, ?_⟩
  · simp only [sendCompletion, List.length_nil]
    omega
  · simp only [sendCompletion]
    rw [CircularBuffer.contents_remove h.buffer hlt, (h.intact hc).2.2, List.take_take, Nat.min_eq_left ht,
      List.append_assoc, List.take_append_drop]

theorem inv_popFront (h : s.Inv) : (s.popFront i).Inv := ⟨h.buffer, h.pending, h.single, h.span⟩

end Flusher

end GameServer
