import GameServer.Session
import GameServer.SendPath.Lemmas
/-!
# Receiving a stream of frames

While every chunk is committed to region A, the buffer holds the beginning of
the frame that is arriving and each earlier frame has been dispatched. A chunk
that opens region B leaves the beginning of its frame alone in A, where the
packet loop never gets past it.
-/

namespace GameServer

open Lib

namespace Session

variable {s s' : Session} {gs hs : List Frame} {chunk todo : List Byte}

theorem length_begins {p : List Byte} (h : frameCode.Begins hs p) : p.length < clientBufSize := by
  have hc : clientBufSize = 65536 := rfl
  cases hs with
  | nil => cases h; decide
  | cons f fs =>
    have hle := h.1.length_le
    have hf : (frameCode.encode f).length = headerSize + f.payload.length := f.length_encode
    have hs := f.short
    have h4 : headerSize = 4 := rfl
    omega

/-! ## One receive -/

/-- The receive buffer once `PostRecv` has asked for its space. -/
def offering (s : Session) : CircularBuffer := s.mRecvBuffer.getFreeSpaceSize.2

/-- The buffer `OnReceive` finds after `chunk` has arrived. -/
def incoming (s : Session) (chunk : List Byte) : CircularBuffer := (s.offering.write chunk).commit chunk.length

/-- The receive buffer as the session keeps it. -/
structure Ready (b : CircularBuffer) : Prop where
  inv : b.Inv
  capacity : b.mCapacity = clientBufSize

theorem Ready.intSized {b : CircularBuffer} (h : Ready b) : b.mCapacity < 2 ^ 31 := by
  rw [h.capacity]
  decide

theorem ready_start : Ready start.mRecvBuffer := ⟨CircularBuffer.inv_new (by decide), rfl⟩

theorem offerInA_start : start.OfferInA := by
  unfold OfferInA
  decide

theorem Ready.shrunk {b b' : CircularBuffer} {k : Nat} (h : Ready b) (hs : CircularBuffer.Shrunk b b' k) : Ready b' :=
  ⟨hs.inv, hs.capacity.trans h.capacity⟩

theorem ready_offering (h : Ready s.mRecvBuffer) : Ready s.offering :=
  ⟨CircularBuffer.inv_getFreeSpaceSize h.inv, (CircularBuffer.mCapacity_getFreeSpaceSize h.inv).trans h.capacity⟩

theorem ready_incoming (h : Ready s.mRecvBuffer) (hl : chunk.length ≤ s.offering.room) : Ready (s.incoming chunk) :=
  ⟨CircularBuffer.inv_store (ready_offering h).inv hl,
    (CircularBuffer.mCapacity_commit _ _).trans (ready_offering h).capacity⟩

theorem contents_incoming (h : Ready s.mRecvBuffer) (hl : chunk.length ≤ s.offering.room) :
    (s.incoming chunk).contents = s.mRecvBuffer.contents ++ chunk := by
  rw [incoming, CircularBuffer.contents_store (ready_offering h).inv hl, offering,
    CircularBuffer.contents_getFreeSpaceSize h.inv]

theorem ready_onReceive {b : CircularBuffer} (h : Ready b) : Ready (onReceive b).mRecvBuffer :=
  (loop_removes Ready (fun _ _ h hk => h.shrunk (CircularBuffer.shrunk_remove h.inv hk)) h).1

/-- The session after `RecvCompletion`, in terms of what `OnReceive` did. -/
def handled (s : Session) (chunk : List Byte) (r : Received) : Session where
  mRecvBuffer := r.mRecvBuffer
  sender := if r.disconnect then { s.sender with mConnected := false } else s.sender
  received := s.received ++ chunk
  taken := s.taken ++ r.dispatched.map .dispatch

theorem recvCompletion_eq (s : Session) (b : CircularBuffer) (chunk : List Byte) :
    recvCompletion { s with mRecvBuffer := b } chunk = s.handled chunk (onReceive ((b.write chunk).commit chunk.length)) := by
  by_cases hd : (onReceive ((b.write chunk).commit chunk.length)).disconnect = true
  · simp [recvCompletion, handled, disconnectRequest, hd]
  · simp [recvCompletion, handled, hd]

theorem dummyRecv_some (h : Ready s.mRecvBuffer) (hc : s.sender.mConnected = true) (hne : chunk ≠ [])
    (hl : chunk.length ≤ s.offering.room) :
    s.dummyRecv chunk = some (s.handled chunk (onReceive (s.incoming chunk))) := by
  have hroom := CircularBuffer.getFreeSpaceSize_room h.inv
  have hle := CircularBuffer.getFreeSpaceSize_le h.inv
  have hcb : clientBufSize = 65536 := rfl
  have hpos := List.length_pos_iff.2 hne
  rw [h.capacity] at hle
  rw [offering, ← hroom] at hl
  have h0 : s.mRecvBuffer.getFreeSpaceSize.1 ≠ 0 := by omega
  have e32 : s.mRecvBuffer.getFreeSpaceSize.1 % 2 ^ 32 = s.mRecvBuffer.getFreeSpaceSize.1 :=
    Nat.mod_eq_of_lt (by omega)
  simp only [dummyRecv, hc, Bool.true_eq_false, if_false, postRecv, if_neg h0, CircularBuffer.getFreeSpaceSize_again h.inv,
    e32, hne, false_or, if_neg (Nat.not_lt.2 hl), recvCompletion_eq]
  rfl

/-- The three courses a receive can take. -/
theorem dummyRecv_cases (h : Ready s.mRecvBuffer) (hs : s.dummyRecv chunk = some s') :
    (s.sender.mConnected = false ∧ s' = s) ∨
    (s.sender.mConnected = true ∧ s.offering.room = 0 ∧ s' = disconnectRequest { s with mRecvBuffer := s.offering }) ∨
    (s.sender.mConnected = true ∧ chunk ≠ [] ∧ chunk.length ≤ s.offering.room ∧
      s' = s.handled chunk (onReceive (s.incoming chunk))) := by
  have hroom := CircularBuffer.getFreeSpaceSize_room h.inv
  have hle := CircularBuffer.getFreeSpaceSize_le h.inv
  have hagain := CircularBuffer.getFreeSpaceSize_again h.inv
  have hc : clientBufSize = 65536 := rfl
  rw [h.capacity] at hle
  by_cases hconn : s.sender.mConnected = false
  · simp only [dummyRecv, if_pos hconn, Option.some.injEq] at hs
    exact .inl ⟨hconn, hs.symm⟩
  · rw [Bool.not_eq_false] at hconn
    by_cases h0 : s.mRecvBuffer.getFreeSpaceSize.1 = 0
    · simp only [dummyRecv, hconn, Bool.true_eq_false, if_false, postRecv, if_pos h0, Option.some.injEq] at hs
      exact .inr (.inl ⟨hconn, hroom.symm.trans h0, hs.symm⟩)
    · have e32 : s.mRecvBuffer.getFreeSpaceSize.1 % 2 ^ 32 = s.mRecvBuffer.getFreeSpaceSize.1 :=
        Nat.mod_eq_of_lt (by omega)
      have hfit : chunk ≠ [] ∧ chunk.length ≤ s.offering.room := by
        by_contra hfit
        have hfit' : chunk = [] ∨ s.mRecvBuffer.getFreeSpaceSize.1 < chunk.length := by
          rw [hroom]
          exact (Decidable.not_and_iff_not_or_not.1 hfit).imp not_not.1 Nat.not_le.1
        simp only [dummyRecv, hconn, Bool.true_eq_false, if_false, postRecv, if_neg h0, hagain, e32, if_pos hfit'] at hs
        cases hs
      rw [dummyRecv_some h hconn hfit.1 hfit.2] at hs
      exact .inr (.inr ⟨hconn, hfit.1, hfit.2, (Option.some.inj hs).symm⟩)

theorem dispatched_handled (s : Session) (chunk : List Byte) (r : Received) :
    (s.handled chunk r).dispatched = s.dispatched ++ r.dispatched := by
  simp only [dispatched, handled, List.filterMap_append, List.filterMap_map]
  congr 1
  exact List.filterMap_some

/-- `EchoBack` finds nothing, is refused by `PostSend`, or takes region A. -/
theorem echoBack_cases (h : Ready s.mRecvBuffer) :
    (s.mRecvBuffer.mARegionSize = 0 ∧ s.echoBack = s) ∨
    (0 < s.mRecvBuffer.mARegionSize ∧ ¬ s.sender.Fits s.mRecvBuffer.regionA ∧
      ∃ sender : Sender, sender.mConnected = s.sender.mConnected ∧ s.echoBack = { s with sender }) ∨
    (0 < s.mRecvBuffer.mARegionSize ∧ s.sender.Fits s.mRecvBuffer.regionA ∧
      ∃ sender : Sender, sender.mConnected = s.sender.mConnected ∧
        s.echoBack = { s with sender, mRecvBuffer := s.mRecvBuffer.remove s.mRecvBuffer.mARegionSize
                              taken := s.taken ++ [.echo s.mRecvBuffer.regionA] }) := by
  have hlen := CircularBuffer.getContiguiousBytes_eq h.inv
  by_cases h0 : s.mRecvBuffer.mARegionSize = 0
  · exact .inl ⟨h0, by simp [echoBack, hlen, h0]⟩
  · have hpos := Nat.pos_of_ne_zero h0
    have hbytes : slice s.mRecvBuffer.mBuffer (s.mRecvBuffer.getBufferStart.getD 0) s.mRecvBuffer.mARegionSize =
        s.mRecvBuffer.regionA := by simp [CircularBuffer.getBufferStart, hpos, CircularBuffer.regionA]
    obtain ⟨t, ht, hcall⟩ := s.sender.postSend_answer s.mRecvBuffer.regionA
    by_cases hf : s.sender.Fits s.mRecvBuffer.regionA
    · exact .inr (.inr ⟨hpos, hf, t, ht, by simp [echoBack, hlen, h0, hbytes, hcall, hf]⟩)
    · exact .inr (.inl ⟨hpos, hf, t, ht, by simp [echoBack, hlen, h0, hbytes, hcall, hf]⟩)

/-! ## The stream flows through region A -/

/-- The frames `gs` have been dispatched, the buffer holds the beginning of the
frames `hs` in region A, and `todo` is the rest of their bytes. -/
structure Flowing (gs hs : List Frame) (todo : List Byte) (s : Session) : Prop where
  ready : Ready s.mRecvBuffer
  connected : s.sender.mConnected = true
  closed : s.mRecvBuffer.mBRegionPointer = none
  begun : frameCode.Begins hs s.mRecvBuffer.contents
  stream : frameCode.stream hs = s.mRecvBuffer.contents ++ todo
  dispatched : s.dispatched = gs.map .ofFrame
  received : s.received.length = (frameCode.stream gs).length + s.mRecvBuffer.contents.length

theorem flowing_start (fs : List Frame) : Flowing [] fs (frameCode.stream fs) start where
  ready := ready_start
  connected := rfl
  closed := rfl
  begun := by
    rw [show start.mRecvBuffer.contents = [] from CircularBuffer.contents_new _]
    exact frameCode.begins_nil fs
  stream := by rw [show start.mRecvBuffer.contents = [] from CircularBuffer.contents_new _, List.nil_append]
  dispatched := rfl
  received := by rw [show start.mRecvBuffer.contents = [] from CircularBuffer.contents_new _]; rfl

/-- Without B, the space in A is offered. -/
theorem Flowing.offer (h : Flowing gs hs todo s) (ha : s.OfferInA) : s.offering = s.mRecvBuffer := by
  rw [offering, CircularBuffer.getFreeSpaceSize_keep h.closed ha]

/-- There always is some: the beginning of a frame does not fill the buffer. -/
theorem Flowing.room_pos (h : Flowing gs hs todo s) : 0 < s.offering.room := by
  have hlen := length_begins h.begun
  have hb := h.ready.inv
  rw [CircularBuffer.contents_of_closed h.closed, CircularBuffer.length_regionA hb] at hlen
  have hcap := h.ready.capacity
  rcases CircularBuffer.getFreeSpaceSize_cases hb with ⟨e, hle⟩ | ⟨e, hB, hlt⟩
  · have hle := hle h.closed
    rw [CircularBuffer.getAFreeSpace_eq hb, CircularBuffer.getSpaceBeforeA] at hle
    rw [offering, e]
    simp only [CircularBuffer.room, h.closed, Option.isSome_none, Bool.false_eq_true, if_false]
    omega
  · rw [offering, e]
    simp only [CircularBuffer.room, CircularBuffer.allocateB, Option.isSome_some, if_true, hb.closed hB]
    exact Nat.lt_of_le_of_lt (Nat.zero_le _) hlt

/-- A chunk received in A: the frames it completes are dispatched. -/
theorem Flowing.next (h : Flowing gs hs (chunk ++ todo) s) (ha : s.OfferInA) (hl : chunk.length ≤ s.offering.room) :
    ∃ ks js, hs = ks ++ js ∧ Flowing (gs ++ ks) js todo (s.handled chunk (onReceive (s.incoming chunk))) ∧
      s.mRecvBuffer.contents ++ chunk =
        frameCode.stream ks ++ (s.handled chunk (onReceive (s.incoming chunk))).mRecvBuffer.contents := by
  have hin := ready_incoming h.ready hl
  have hcont := contents_incoming h.ready hl
  have hclosed : (s.incoming chunk).mBRegionPointer = none := by
    rw [incoming, CircularBuffer.mBRegionPointer_store, h.offer ha, h.closed]
  have hst := h.stream
  rw [← List.append_assoc] at hst
  obtain ⟨ks, js, p, rfl, hp, hbeg, hrest⟩ := PrefixCode.split_stream hst
  rw [← hcont] at hp
  have hA := hp
  rw [CircularBuffer.contents_of_closed hclosed] at hA
  obtain ⟨b', e, hsh⟩ := onReceive_begins hin.inv hin.intSized hA hbeg
  have hb' : b'.contents = p := by rw [hsh.contents, hp, List.drop_left]
  refine ⟨ks, js, rfl, ?_, ?_⟩
  · rw [e]
    refine ⟨hin.shrunk hsh, h.connected, hsh.closed hclosed, ?_, ?_, ?_, ?_⟩
    · simpa only [handled, hb'] using hbeg
    · simpa only [handled, hb'] using hrest
    · rw [dispatched_handled, h.dispatched, List.map_append]
    · have hlen := congrArg List.length hp
      rw [hcont] at hlen
      simp only [handled, hb', List.length_append, PrefixCode.stream_append, h.received] at hlen ⊢
      omega
  · rw [e]
    simp only [handled, hb', ← hp, hcont]

/-! ## A chunk in region B -/

/-- Region A holds the beginning of a frame, and the space offered is in B. -/
structure Blocked (hs : List Frame) (b : CircularBuffer) : Prop extends Ready b where
  opened : b.mBRegionPointer.isSome
  begun : frameCode.Begins hs b.regionA

theorem Blocked.size_pos {b : CircularBuffer} (h : Blocked hs b) : 0 < b.mARegionSize := by
  obtain ⟨p, hp⟩ := Option.isSome_iff_exists.1 h.opened
  exact (h.inv.opened p hp).2.2

/-- The first frame of `hs` is the one that has begun. -/
theorem Blocked.ne_nil {b : CircularBuffer} (h : Blocked hs b) : hs ≠ [] := by
  rintro rfl
  have hA : b.regionA = [] := h.begun
  have hpos := h.size_pos
  rw [← CircularBuffer.length_regionA h.inv, hA] at hpos
  exact Nat.lt_irrefl 0 hpos

/-- Where B is opened, A is not empty. -/
theorem Flowing.blocked (h : Flowing gs hs todo s) (ha : ¬ s.OfferInA) : Blocked hs s.offering := by
  have e : s.offering = s.mRecvBuffer.allocateB := by
    rw [offering, CircularBuffer.getFreeSpaceSize_split h.closed (Nat.not_le.1 ha)]
  refine ⟨ready_offering h.ready, by rw [e]; rfl, ?_⟩
  have hbeg := h.begun
  rw [CircularBuffer.contents_of_closed h.closed] at hbeg
  rw [e]
  exact hbeg

/-- `OnReceive` gets nowhere. -/
theorem Blocked.onReceive {b : CircularBuffer} (h : Blocked hs b) (hl : chunk.length ≤ b.room) :
    onReceive ((b.write chunk).commit chunk.length) = ⟨(b.write chunk).commit chunk.length, [], false⟩ ∧
      Blocked hs ((b.write chunk).commit chunk.length) := by
  have hA := CircularBuffer.regionA_store h.inv hl h.opened
  have hblocked : Blocked hs ((b.write chunk).commit chunk.length) := by
    refine ⟨⟨CircularBuffer.inv_store h.inv hl, (CircularBuffer.mCapacity_commit _ _).trans h.capacity⟩, ?_, ?_⟩
    · rw [CircularBuffer.mBRegionPointer_store]
      exact h.opened
    · rw [hA]
      exact h.begun
  exact ⟨onReceive_begun hblocked.inv hblocked.intSized hblocked.begun, hblocked⟩

/-- The frames `gs` have been dispatched and no more will be. -/
structure Stalled (gs hs : List Frame) (s : Session) : Prop where
  rest : hs ≠ []
  dispatched : s.dispatched = gs.map .ofFrame
  stuck : s.sender.mConnected = false ∨ Blocked hs s.mRecvBuffer

/-- A blocked session handles a chunk by storing it. -/
theorem Blocked.next (h : Blocked hs s.offering) (hd : s.dispatched = gs.map .ofFrame) (hl : chunk.length ≤ s.offering.room) :
    Stalled gs hs (s.handled chunk (GameServer.onReceive (s.incoming chunk))) := by
  obtain ⟨e, hb⟩ := h.onReceive hl
  rw [incoming, e]
  exact ⟨h.ne_nil, by rw [dispatched_handled, hd, List.append_nil], .inr hb⟩

theorem Blocked.offering (h : Blocked hs s.mRecvBuffer) : s.offering = s.mRecvBuffer := by
  obtain ⟨p, hp⟩ := Option.isSome_iff_exists.1 h.opened
  rw [Session.offering, CircularBuffer.getFreeSpaceSize_some hp]

end Session

end GameServer
