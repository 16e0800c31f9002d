import GameServer.SendPath.Lemmas
/-!
# What reaches the socket

A call that finds an empty send buffer posts its own bytes and no others. If
every accepted call does, the socket sends each committed byte once and in
order. A call that finds bytes of an earlier one posts them a second time:
unlike `FlushSend`, it does not look at what is in flight.
-/

namespace GameServer

open Lib

namespace Sender

/-- The bytes posted and not sent yet, in posting order. -/
def pending (s : Sender) : List Byte := (s.inFlight.filter fun c => !c.transmitted).flatMap SendContext.posted

/-- The socket has sent, and has left to send, exactly the data of the accepted
calls in their order, and no span in flight has been overwritten. -/
structure Exact (s : Sender) : Prop where
  delivered : s.wire ++ s.pending = s.accepted.flatMap Call.bytes
  intact : ∀ c ∈ s.inFlight, slice s.mSendBuffer.mBuffer c.buf c.len = c.posted

/-- An accepted call finds nothing of an earlier call in the buffer. -/
def Alone (s : Sender) : Action → Prop
  | .call c => s.Fits c.bytes → s.mSendBuffer.getStoredSize = 0
  | _ => True

instance (s : Sender) : (a : Action) → Decidable (s.Alone a)
  | .call _ => inferInstanceAs (Decidable (_ → _))
  | .transmit => inferInstanceAs (Decidable True)
  | .complete _ => inferInstanceAs (Decidable True)

/-- Beside `Exact`: the stored bytes start at offset 0, and the one non-empty
span in flight covers them. -/
structure Single (s : Sender) : Prop extends Inv s, Exact s where
  base : s.mSendBuffer.mARegionPointer = 0
  closed : s.mSendBuffer.mBRegionPointer = none
  spans : (s.inFlight.filter fun c => 0 < c.len).map (fun c => (c.buf, c.len)) =
    if s.mSendBuffer.mARegionSize = 0 then [] else [(0, s.mSendBuffer.mARegionSize)]

variable {s s' : Sender} {bytes : List Byte}

theorem single_start : Single (start clientBufSize) where
  toInv := inv_start
  delivered := rfl
  intact := by simp [start]
  base := rfl
  closed := rfl
  spans := rfl

/-- With A at offset 0 the space query changes nothing. -/
theorem query_of_base (h : s.mSendBuffer.Inv) (hb : s.mSendBuffer.mARegionPointer = 0) :
    s.mSendBuffer.getFreeSpaceSize.2 = s.mSendBuffer := by
  rcases CircularBuffer.getFreeSpaceSize_cases h with ⟨e, -⟩ | ⟨-, -, hlt⟩
  · rw [e]
  · simp [CircularBuffer.getSpaceBeforeA, hb] at hlt

/-- An empty send buffer has room for whatever it can hold. -/
theorem fits_of_empty (h : s.Inv) (hc : s.mConnected = true) (h0 : s.mSendBuffer.mARegionSize = 0)
    (hl : bytes.length ≤ clientBufSize) : s.Fits bytes := by
  have hp := h.buffer.empty h0
  obtain ⟨hB, -⟩ := h.buffer.aEmpty h0
  refine ⟨hc, ?_⟩
  rw [CircularBuffer.getFreeSpaceSize_room h.buffer, query_of_base h.buffer hp]
  simp only [CircularBuffer.room, hB, Option.isSome_none, Bool.false_eq_true, if_false, hp, h0, h.capacity, Nat.sub_zero]
  exact hl

/-- `bytes` are all the buffer holds, as region A at offset 0. -/
structure Holds (b : CircularBuffer) (bytes : List Byte) : Prop where
  base : b.mARegionPointer = 0
  size : b.mARegionSize = bytes.length
  closed : b.mBRegionPointer = none
  start : b.getBufferStart.getD 0 = 0
  contiguous : b.getContiguiousBytes % 2 ^ 32 = bytes.length
  bytes : slice b.mBuffer 0 bytes.length = bytes

theorem holds_store {b : CircularBuffer} (h : b.Inv) (h0 : b.mARegionSize = 0) (hn : bytes.length ≤ b.mCapacity)
    (hc : b.mCapacity = clientBufSize) : Holds ((b.write bytes).commit bytes.length) bytes := by
  have hcb : clientBufSize = 65536 := rfl
  have hp := h.empty h0
  obtain ⟨hB, hBs⟩ := h.aEmpty h0
  have e : (b.write bytes).commit bytes.length =
      { b with mBuffer := overwrite b.mBuffer 0 bytes, mARegionSize := bytes.length } := by
    simp [CircularBuffer.write, CircularBuffer.commit, CircularBuffer.getBuffer, hB, hp, h0,
      addSize_eq (show 0 + bytes.length < sizeMod by unfold sizeMod; omega)]
  rw [e]
  refine ⟨hp, rfl, hB, ?_, ?_, slice_overwrite_self (Nat.zero_le _)⟩
  · simp only [CircularBuffer.getBufferStart, hp, hB]
    split <;> rfl
  · simp only [CircularBuffer.getContiguiousBytes, hBs]
    split <;> omega

/-- A call that is accepted with an empty buffer posts its own bytes, the whole content
of the buffer. -/
theorem call_alone (h : s.Inv) {c : Call} (hf : s.Fits c.bytes) (h0 : s.mSendBuffer.mARegionSize = 0)
    (hs : step s (.call c) = some s') :
    Holds s'.mSendBuffer c.bytes ∧ s'.inFlight = s.inFlight ++ [⟨0, c.bytes.length, c.bytes, false⟩] ∧
      s'.accepted = s.accepted ++ [c] ∧ s'.wire = s.wire := by
  have hle := CircularBuffer.getFreeSpaceSize_le h.buffer
  have hfit := hf.2
  simp only [step, call, Option.some.injEq] at hs
  rw [perform_eq h.buffer h.capacity, send_fits hf, query_of_base h.buffer (h.buffer.empty h0)] at hs
  have hh := holds_store h.buffer h0 (show c.bytes.length ≤ _ by omega) h.capacity
  simp only [store, wsaSend, if_true, hh.start, hh.contiguous, hh.bytes] at hs
  subst hs
  exact ⟨hh, rfl, rfl, rfl⟩

/-- With nothing else in flight, the socket sends these bytes next. -/
theorem transmit_alone (h : s.Inv) {c : Call} (hf : s.Fits c.bytes) (h0 : s.mSendBuffer.mARegionSize = 0)
    (hi : s.inFlight = []) (hs : step s (.call c) = some s') :
    ∃ t, step s' .transmit = some t ∧ t.wire = s.wire ++ c.bytes := by
  obtain ⟨hh, hflight, -, hwire⟩ := call_alone h hf h0 hs
  rw [hi, List.nil_append] at hflight
  refine ⟨_, by rw [step, hflight]; rfl, ?_⟩
  simp only [hwire, hh.bytes]

theorem single_call (h : s.Single) {c : Call} (hf : s.Fits c.bytes) (h0 : s.mSendBuffer.mARegionSize = 0)
    (hs : step s (.call c) = some s') : s'.Single := by
  have hinv := inv_step h.toInv hs
  obtain ⟨hh, hflight, haccepted, hwire⟩ := call_alone h.toInv hf h0 hs
  -- nothing else in flight has bytes
  have hnil := h.spans
  rw [if_pos h0, List.map_eq_nil_iff, List.filter_eq_nil_iff] at hnil
  have hz : ∀ x ∈ s.inFlight, x.len = 0 ∧ x.posted = [] := fun x hx => by
    have hl : x.len = 0 := by simpa using hnil x hx
    have := h.intact x hx
    rw [hl, slice_zero] at this
    exact ⟨hl, this.symm⟩
  refine ⟨hinv, ⟨?_, ?_⟩, hh.base, hh.closed, ?_⟩
  · simp only [pending, hflight, haccepted, hwire, List.filter_append, List.flatMap_append]
    rw [← List.append_assoc]
    have := h.delivered
    simp only [pending] at this
    rw [this]
    simp
  · intro x hx
    rw [hflight] at hx
    rcases List.mem_append.1 hx with hx | hx
    · rw [(hz x hx).1, (hz x hx).2, slice_zero]
    · rw [List.mem_singleton.1 hx]
      exact hh.bytes
  · simp only [hflight, List.filter_append, List.map_append, hh.size]
    rw [List.filter_eq_nil_iff.2 hnil]
    by_cases hb : c.bytes.length = 0
    · simp [hb]
    · simp [hb, Nat.pos_of_ne_zero hb]

/-- A refused call leaves everything as it was. -/
theorem single_refused (h : s.Single) {c : Call} (hf : ¬ s.Fits c.bytes) (hs : step s (.call c) = some s') :
    s'.Single := by
  simp only [step, call, Option.some.injEq] at hs
  rw [perform_eq h.buffer h.capacity] at hs
  rcases send_refused hf with e | e <;> rw [e] at hs <;> subst hs
  · exact h
  · simp only [query_of_base h.buffer h.base]
    exact h

theorem single_transmit (h : s.Single) (hs : step s .transmit = some s') : s'.Single := by
  have hinv := inv_step h.toInv hs
  obtain ⟨sent, c, later, e, hsent, hc, rfl⟩ := step_transmit hs
  have hmem : ∀ x, x ∈ sent ∨ x = c ∨ x ∈ later → slice s.mSendBuffer.mBuffer x.buf x.len = x.posted := by
    intro x hx
    apply h.intact
    simpa [e] using hx
  refine ⟨hinv, ⟨?_, ?_⟩, h.base, h.closed, ?_⟩
  · have hd := h.delivered
    have hnil : sent.filter (fun x => !x.transmitted) = [] := List.filter_eq_nil_iff.2 fun x hx => by simp [hsent x hx]
    simp only [pending, e, List.filter_append, List.flatMap_append, hnil, List.filter_cons, hc] at hd ⊢
    rw [hmem c (.inr (.inl rfl)), ← hd]
    simp
  · intro x hx
    rcases List.mem_append.1 hx with hx | hx
    · exact hmem x (.inl hx)
    · rcases List.mem_cons.1 hx with rfl | hx
      · exact hmem c (.inr (.inl rfl))
      · exact hmem x (.inr (.inr hx))
  · have hsp := h.spans
    simp only [e, List.filter_append, List.map_append, List.filter_cons] at hsp ⊢
    rw [← hsp]
    split <;> rfl

theorem single_complete (h : s.Single) {i : Nat} (hs : step s (.complete i) = some s') : s'.Single := by
  have hinv := inv_step h.toInv hs
  obtain ⟨before, c, later, e, hc, rfl⟩ := step_complete hs
  have hsp := h.spans
  have hd := h.delivered
  have hmem : ∀ x ∈ before ++ later, slice s.mSendBuffer.mBuffer x.buf x.len = x.posted := by
    intro x hx
    apply h.intact
    rw [e]
    simp only [List.mem_append, List.mem_cons] at hx ⊢
    exact hx.imp_right .inr
  simp only [pending, e, List.filter_append, List.flatMap_append, List.filter_cons, List.map_append, hc] at hd hsp
  by_cases h0 : c.len = 0
  · -- nothing transferred: the session disconnects, the buffer stays
    rw [h0] at hinv ⊢
    refine ⟨hinv, ⟨?_, hmem⟩, h.base, h.closed, ?_⟩
    · simpa [sendCompletion, pending] using hd
    · simpa [sendCompletion, h0] using hsp
  · -- the one span with bytes: the buffer is empty again
    have hA : s.mSendBuffer.mARegionSize ≠ 0 := by
      intro hA
      simp [hA, Nat.pos_of_ne_zero h0] at hsp
    simp only [Nat.pos_of_ne_zero h0, decide_true, if_true, if_neg hA, List.map_cons] at hsp
    obtain ⟨hb, hcl⟩ := List.append_eq_cons_iff.1 hsp |>.resolve_right fun ⟨_, _, hx⟩ => by simp at hx
    obtain ⟨hcl, hl⟩ := List.cons.inj hcl
    have hlen : c.len = s.mSendBuffer.mARegionSize := congrArg Prod.snd hcl
    have hz : ∀ x ∈ before ++ later, x.len = 0 := by
      intro x hx
      rw [List.map_eq_nil_iff, List.filter_eq_nil_iff] at hb hl
      rcases List.mem_append.1 hx with hx | hx
      · simpa using hb x hx
      · simpa using hl x hx
    have hlt : s.mSendBuffer.mARegionSize < sizeMod := by
      have := h.buffer.inside
      have := h.buffer.cap
      omega
    obtain ⟨m, -, -, er⟩ := CircularBuffer.remove_beyond h.buffer (Nat.le_refl _) hlt
    rw [h.buffer.closed h.closed, Nat.zero_sub] at er
    simp only [sendCompletion, hlen, if_neg hA, er] at hinv ⊢
    refine ⟨hinv, ⟨?_, fun x hx => ?_⟩, rfl, rfl, ?_⟩
    · simpa [pending] using hd
    · have hp := hmem x hx
      rw [hz x hx, slice_zero] at hp ⊢
      exact hp
    · have hnil : (before ++ later).filter (fun x => decide (0 < x.len)) = [] :=
        List.filter_eq_nil_iff.2 fun x hx => by simp [hz x hx]
      simp only [if_true, hnil, List.map_nil]

theorem single_step {a : Action} (h : s.Single) (ha : s.Alone a) (hs : step s a = some s') : s'.Single := by
  cases a with
  | call c =>
    by_cases hf : s.Fits c.bytes
    · have h0 := ha hf
      rw [CircularBuffer.getStoredSize_eq h.buffer, List.length_eq_zero_iff, CircularBuffer.contents_nil h.buffer] at h0
      exact single_call h hf h0 hs
    · exact single_refused h hf hs
  | transmit => exact single_transmit h hs
  | complete i => exact single_complete h hs

theorem single_run {actions : List Action} (hr : run step (start clientBufSize) actions = some s)
    (ha : Meets step Alone (start clientBufSize) actions) : s.Single :=
  inv_of_meets (fun _ _ _ => single_step) single_start ha hr

/-- While every accepted call finds an empty buffer, the socket sends each byte
once, in commit order, from spans nobody overwrites. -/
theorem sent_once (actions : List Action) (s : Sender) (hr : run step (start clientBufSize) actions = some s)
    (ha : Meets step Alone (start clientBufSize) actions) : Exact s := (single_run hr ha).toExact

/-- Two calls, each completed before the next. -/
def inTurn : List Action := [.call (.postSend [1, 2]), .transmit, .complete 0, .call (.postSend [3]), .transmit]

theorem sent_once_inTurn : ∃ s, run step (start clientBufSize) inTurn = some s ∧ s.wire = [1, 2, 3] ∧ Exact s :=
  ⟨_, rfl, by decide, sent_once inTurn _ rfl (by decide)⟩

/-- Two calls before the first completion: the second span starts with the
bytes of the first. -/
def twoCalls : List Action :=
  [.call (.postSend [1]), .call (.postSend [2]), .transmit, .transmit, .complete 0, .complete 0]

theorem not_exact_twoCalls : ¬ ∀ actions s, run step (start clientBufSize) actions = some s → Exact s := by
  intro h
  have hd := (h twoCalls _ rfl).delivered
  revert hd
  decide

end Sender

end GameServer
