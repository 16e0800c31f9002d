import GameServer.CircularBuffer.Lemmas
import GameServer.PacketHandling
/-!
# What the packet loop does

A turn on a whole frame dispatches it and takes it off the stream and off the
buffer alike; anything else at the front stops the loop, except a header whose
negative size passes every check.
-/

namespace GameServer

open Lib

theorem toInt_eq {n : Nat} (h : n < 2 ^ 31) : toInt n = n := by
  unfold toInt
  apply Int.bmod_eq_of_le
  · simp
  · simp only [Nat.reducePow] at *; omega

theorem toInt_wrap {n : Nat} (h : 2147483648 ≤ n) (h' : n < 4294967296) : toInt n = n - 4294967296 := by
  unfold toInt
  simp only [Int.bmod_def, Nat.reducePow]
  omega

theorem toSize_natCast {n : Nat} (h : n < sizeMod) : toSize n = n := by
  rw [toSize, Int.emod_eq_of_lt (by omega) (by omega), Int.toNat_natCast]

/-- A negative count becomes a huge `size_t`. -/
theorem toSize_neg {x : Int} (h0 : x < 0) (h : -sizeMod ≤ x) : toSize x = (sizeMod + x).toNat := by
  have e : x % sizeMod = sizeMod + x := by
    rw [← Int.add_emod_left]
    exact Int.emod_eq_of_lt (by omega) (by omega)
  rw [toSize, e]

/-! ## One turn -/

/-- The stream reads region A from its start, or has been read to its end. -/
def Tracks (b : CircularBuffer) (s : CodedInputStream) : Prop :=
  s.bufferSize = 0 ∨ s.buffer = b.mARegionPointer ∧ s.bufferSize = b.mARegionSize

/-- The bytes the stream has yet to read. -/
def unread (b : CircularBuffer) (s : CodedInputStream) : List Byte := slice b.mBuffer s.buffer s.bufferSize

variable {b : CircularBuffer} {s : CodedInputStream}

theorem unread_of_end (h : s.bufferSize = 0) : unread b s = [] := by rw [unread, h, slice_zero]

theorem Tracks.unread_prefix (ht : Tracks b s) : unread b s <+: b.regionA := by
  rcases ht with h0 | ⟨hb, hs⟩
  · rw [unread_of_end h0]; exact List.nil_prefix
  · rw [unread, hb, hs]; exact List.prefix_refl _

theorem length_unread (h : b.Inv) (ht : Tracks b s) : (unread b s).length = s.bufferSize := by
  rcases ht with h0 | ⟨hb, hs⟩
  · rw [unread_of_end h0, h0]; rfl
  · rw [unread, hb, hs]; exact CircularBuffer.length_regionA h

theorem tracks_ofArray (h : b.Inv) (hc : b.mCapacity < 2 ^ 31) :
    Tracks b (.ofArray b.getBufferStart (toInt b.getContiguiousBytes)) ∧
      unread b (.ofArray b.getBufferStart (toInt b.getContiguiousBytes)) = b.regionA := by
  have hi := h.inside
  have hint : toInt b.getContiguiousBytes = b.mARegionSize := by
    rw [CircularBuffer.getContiguiousBytes_eq h, toInt_eq (by omega)]
  rw [hint]
  by_cases ha : 0 < b.mARegionSize
  · have e : CodedInputStream.ofArray b.getBufferStart b.mARegionSize =
        ⟨b.mARegionPointer, b.mARegionPointer + b.mARegionSize⟩ := by
      simp [CircularBuffer.getBufferStart, CodedInputStream.ofArray, ha]
    rw [e]
    exact ⟨.inr ⟨rfl, by simp [CodedInputStream.bufferSize]⟩, by simp [unread, CodedInputStream.bufferSize, CircularBuffer.regionA]⟩
  · have ha' : b.mARegionSize = 0 := by omega
    have e : CodedInputStream.ofArray b.getBufferStart b.mARegionSize = .null := by
      simp [CircularBuffer.getBufferStart, CodedInputStream.ofArray, ha', (h.aEmpty ha').1]
    rw [e]
    exact ⟨.inl rfl, by simp [unread, CodedInputStream.null, CodedInputStream.bufferSize, CircularBuffer.regionA, ha']⟩

theorem turn_short (hs : s.bufferSize < headerSize) : turn b s = .stop false := by
  simp [turn, CodedInputStream.readRaw, hs]

variable {header : PacketHeader} {rest : List Byte}

/-- Reading the header leaves the stream at the rest of its bytes. -/
theorem readRaw_header (h : b.Inv) (ht : Tracks b s) (hx : unread b s = headerBytes header ++ rest) :
    s.readRaw b.mBuffer headerSize = (some (headerBytes header), s.advance headerSize) ∧
      (s.advance headerSize).bufferSize = rest.length ∧ slice b.mBuffer (s.buffer + headerSize) rest.length = rest := by
  have hlen : s.bufferSize = headerSize + rest.length := by
    rw [← length_unread h ht, hx, List.length_append, length_headerBytes]
  have hadv : (s.advance headerSize).bufferSize = rest.length := by
    rw [CodedInputStream.bufferSize_advance, hlen, Nat.add_sub_cancel_left]
  refine ⟨?_, hadv, ?_⟩
  · have e : slice b.mBuffer s.buffer headerSize = headerBytes header := by
      rw [← take_slice _ _ s.bufferSize _ (by omega), ← unread, hx]
      exact List.take_left' (length_headerBytes header)
    simp [CodedInputStream.readRaw, e, hlen]
  · have e := drop_slice b.mBuffer s.buffer s.bufferSize headerSize
    rw [← unread, hx, List.drop_left' (length_headerBytes header), hlen, Nat.add_sub_cancel_left] at e
    exact e.symm

/-- The direct pointer covers the rest of the stream. -/
theorem getDirectBufferPointer_size (s : CodedInputStream) :
    (s.getDirectBufferPointer.1.map Prod.snd).getD 0 = s.bufferSize ∧
      s.getDirectBufferPointer.2.bufferSize = s.bufferSize ∧
      (s.bufferSize ≠ 0 → s.getDirectBufferPointer.2 = s ∧ (s.getDirectBufferPointer.1.map Prod.fst).getD 0 = s.buffer) := by
  by_cases h0 : s.bufferSize = 0
  · simp [CodedInputStream.getDirectBufferPointer, h0]
  · simp [CodedInputStream.getDirectBufferPointer, h0]

theorem turn_incomplete (h : b.Inv) (ht : Tracks b s) (hx : unread b s = headerBytes header ++ rest)
    (hlt : (rest.length : Int) < header.mSize.toInt) : turn b s = .stop false := by
  obtain ⟨e, hadv, -⟩ := readRaw_header h ht hx
  simp only [turn, e, readHeader_headerBytes, (getDirectBufferPointer_size _).1, hadv, if_pos hlt]

theorem turn_badType (h : b.Inv) (ht : Tracks b s) (hx : unread b s = headerBytes header ++ rest)
    (hle : header.mSize.toInt ≤ rest.length) (hv : ¬ ValidType header.mType) : turn b s = .stop true := by
  obtain ⟨e, hadv, -⟩ := readRaw_header h ht hx
  have hbad : header.mType.toInt ≥ maxPktType ∨ header.mType.toInt ≤ 0 := by
    unfold ValidType at hv
    omega
  simp only [turn, e, readHeader_headerBytes, (getDirectBufferPointer_size _).1, hadv, if_neg (Int.not_lt.2 hle), if_pos hbad]

theorem turn_dispatch (h : b.Inv) (ht : Tracks b s) (hx : unread b s = headerBytes header ++ rest)
    (hle : header.mSize.toInt ≤ rest.length) (hv : ValidType header.mType) :
    ∃ s', turn b s = .dispatch
        { mSize := header.mSize, mType := header.mType, payload := rest.take header.mSize.toInt.toNat
          consumed := s.bufferSize - s'.bufferSize
          removed := b.getStoredSize - (b.remove (toSize (headerSize + header.mSize.toInt))).getStoredSize }
        (b.remove (toSize (headerSize + header.mSize.toInt))) s' ∧
      (0 ≤ header.mSize.toInt → s'.bufferSize = rest.length - header.mSize.toInt.toNat ∧
        (s'.bufferSize ≠ 0 → s'.buffer = s.buffer + headerSize + header.mSize.toInt.toNat)) := by
  obtain ⟨e, hadv, hrest⟩ := readRaw_header h ht hx
  obtain ⟨hsize, hbuf, hdirect⟩ := getDirectBufferPointer_size (s.advance headerSize)
  rw [hadv] at hsize hbuf hdirect
  have hgood : ¬(header.mType.toInt ≥ maxPktType ∨ header.mType.toInt ≤ 0) := by
    unfold ValidType at hv
    omega
  have hpay : slice b.mBuffer (((s.advance headerSize).getDirectBufferPointer.1.map Prod.fst).getD 0) header.mSize.toInt.toNat =
      rest.take header.mSize.toInt.toNat := by
    by_cases h0 : rest.length = 0
    · have hz : header.mSize.toInt.toNat = 0 := by omega
      rw [hz, slice_zero, List.take_zero]
    · rw [(hdirect h0).2]
      conv => rhs; rw [← hrest]
      exact (take_slice _ _ _ _ (by omega)).symm
  refine ⟨((s.advance headerSize).getDirectBufferPointer.2.skip header.mSize.toInt).2, ?_, fun h0 => ?_⟩
  · simp only [turn, e, readHeader_headerBytes, hsize, if_neg (Int.not_lt.2 hle), if_neg hgood, hpay]
  · have hskip : ((s.advance headerSize).getDirectBufferPointer.2.skip header.mSize.toInt).2 =
        (s.advance headerSize).getDirectBufferPointer.2.advance header.mSize.toInt.toNat := by
      simp only [CodedInputStream.skip, hbuf, if_neg (Int.not_lt.2 h0), if_pos hle]
    rw [hskip, CodedInputStream.bufferSize_advance, hbuf]
    refine ⟨rfl, fun hne => ?_⟩
    rw [(hdirect (by omega)).1]
    rfl

/-- Whatever is dispatched, its payload has a `short` length and the buffer
changes by a removal. -/
theorem turn_removes {d : Dispatch} {b' : CircularBuffer} {s' : CodedInputStream} (e : turn b s = .dispatch d b' s') :
    d.payload.length < 2 ^ 15 ∧ ∃ k < sizeMod, b' = b.remove k := by
  simp only [turn] at e
  split at e
  · cases e
  · next bytes hb =>
    split at e
    · cases e
    · split at e
      · cases e
      · injection e with ed eb _
        refine ⟨?_, _, ?_, eb.symm⟩
        · have hlt := (readHeader bytes).mSize.toInt_lt
          rw [← ed]
          simp only [slice, List.length_take]
          omega
        · have hpos : (0 : Int) < sizeMod := by decide
          have hlt := Int.emod_lt_of_pos (headerSize + (readHeader bytes).mSize.toInt) hpos
          have hge := Int.emod_nonneg (headerSize + (readHeader bytes).mSize.toInt) (Int.ne_of_gt hpos)
          rw [toSize]
          omega

/-! ## Turns on well-formed frames -/

/-- The handler call a frame leads to. -/
def Dispatch.ofFrame (f : Frame) : Dispatch where
  mSize := f.mSize
  mType := f.mType
  payload := f.payload
  consumed := headerSize + f.payload.length
  removed := headerSize + f.payload.length

/-- A removal and an advance of the stream by the same count stay in step. -/
theorem tracks_remove (h : b.Inv) (ht : Tracks b s) {k : Nat} {s' : CodedInputStream} (hk : k ≤ s.bufferSize)
    (hs : s'.bufferSize = s.bufferSize - k) (hp : s'.bufferSize ≠ 0 → s'.buffer = s.buffer + k) :
    Tracks (b.remove k) s' ∧ unread (b.remove k) s' = (unread b s).drop k := by
  by_cases h0 : s'.bufferSize = 0
  · refine ⟨.inl h0, ?_⟩
    rw [unread_of_end h0, List.drop_eq_nil_of_le (by rw [length_unread h ht]; omega)]
  · obtain ⟨hbuf, hsize⟩ : s.buffer = b.mARegionPointer ∧ s.bufferSize = b.mARegionSize := ht.resolve_left (by omega)
    rw [CircularBuffer.remove_inside h (show k < b.mARegionSize by omega)]
    refine ⟨.inr ⟨by rw [hp h0, hbuf], by rw [hs, hsize]⟩, ?_⟩
    rw [unread, unread, drop_slice, hp h0, hs]

/-- A whole frame is dispatched, and taken off the stream and off the buffer. -/
theorem turn_frame (h : b.Inv) (ht : Tracks b s) {f : Frame} (hx : unread b s = f.encode ++ rest) :
    ∃ s', turn b s = .dispatch (.ofFrame f) (b.remove f.encode.length) s' ∧ Tracks (b.remove f.encode.length) s' ∧
      unread (b.remove f.encode.length) s' = rest ∧ s'.bufferSize < s.bufferSize := by
  have hc := h.cap
  have hi := h.inside
  have hlen : s.bufferSize = f.encode.length + rest.length := by
    rw [← length_unread h ht, hx, List.length_append]
  have hfe := f.length_encode
  have hpos : 0 < headerSize := by decide
  have hsize : s.bufferSize = b.mARegionSize := (ht.resolve_left (by omega)).2
  have hx' : unread b s = headerBytes ⟨f.mSize, f.mType⟩ ++ (f.payload ++ rest) := by
    rw [hx, Frame.encode, List.append_assoc]
  have hms := f.mSize_toInt
  obtain ⟨s', e, hs'⟩ := turn_dispatch h ht hx' (by simp only [hms, List.length_append]; omega) f.valid
  simp only [hms, Int.toNat_natCast, List.length_append, List.take_left] at e hs'
  obtain ⟨hsz, hpt⟩ := hs' (by omega)
  have hsz' : s'.bufferSize = rest.length := by rw [hsz]; omega
  have hrem : toSize (headerSize + (f.payload.length : Int)) = f.encode.length := by
    rw [hfe, ← toSize_natCast (show headerSize + f.payload.length < sizeMod by omega)]
    rfl
  have hstored : b.getStoredSize - (b.remove f.encode.length).getStoredSize = f.encode.length := by
    have hle := CircularBuffer.length_contents h
    have hlt : f.encode.length < sizeMod := by omega
    rw [CircularBuffer.getStoredSize_eq h, CircularBuffer.getStoredSize_eq (CircularBuffer.inv_remove h hlt),
      CircularBuffer.contents_remove h hlt, List.length_drop]
    omega
  obtain ⟨ht', hu⟩ := tracks_remove h ht (by omega) (show s'.bufferSize = s.bufferSize - f.encode.length by omega)
    (fun h0 => by rw [hpt h0, hfe, Nat.add_assoc])
  refine ⟨s', ?_, ht', ?_, by omega⟩
  · rw [e, hrem, hstored, hsz', hfe, hlen, hfe, Nat.add_sub_cancel]
    rfl
  · rw [hu, hx, List.drop_left]

/-- The beginning of a frame stops the loop. -/
theorem turn_begins (h : b.Inv) (ht : Tracks b s) {fs : List Frame} (hx : frameCode.Begins fs (unread b s)) :
    turn b s = .stop false := by
  have hlen := length_unread h ht
  rcases Nat.lt_or_ge s.bufferSize headerSize with hshort | hlong
  · exact turn_short hshort
  · cases fs with
    | nil =>
      rw [show unread b s = [] from hx] at hlen
      exact turn_short (by rw [← hlen]; decide)
    | cons f fs =>
      -- the header is complete, the payload is not
      have hpre : unread b s = f.encode.take s.bufferSize := by
        rw [← hlen]
        exact List.prefix_iff_eq_take.1 hx.1
      have hlt : s.bufferSize < f.encode.length := by
        rw [← hlen]
        exact Nat.lt_of_not_le fun hle => hx.2 (hx.1.eq_of_length_le hle)
      have hfe := f.length_encode
      rw [Frame.encode, List.take_append, length_headerBytes,
        List.take_of_length_le (by rw [length_headerBytes]; exact hlong)] at hpre
      apply turn_incomplete h ht hpre
      rw [f.mSize_toInt, List.length_take]
      omega

/-! ## The loop -/

variable {n : Nat}

theorem prepend_append (ds es : List Dispatch) (r : Received) : (r.prepend es).prepend ds = r.prepend (ds ++ es) := by
  simp [Received.prepend]

theorem loop_stop {disconnect : Bool} (hn : s.bufferSize ≤ n) (e : turn b s = .stop disconnect) :
    loop n b s = ⟨b, [], disconnect⟩ := by
  cases n with
  | zero =>
    rw [turn_short (Nat.lt_of_le_of_lt hn (by decide))] at e
    cases e
    rfl
  | succ n => rw [loop, e]

theorem loop_dispatch {d : Dispatch} {b' : CircularBuffer} {s' : CodedInputStream} (hn : s.bufferSize ≤ n)
    (e : turn b s = .dispatch d b' s') : ∃ m, n = m + 1 ∧ loop n b s = (loop m b' s').prepend [d] := by
  cases n with
  | zero =>
    rw [turn_short (Nat.lt_of_le_of_lt hn (by decide))] at e
    cases e
  | succ m => exact ⟨m, rfl, by rw [loop, e]⟩

/-- The loop keeps what removals keep, and every payload has a `short` length. -/
theorem loop_removes (I : CircularBuffer → Prop) (hI : ∀ b k, I b → k < sizeMod → I (b.remove k)) (h : I b) :
    I (loop n b s).mRecvBuffer ∧ ∀ d ∈ (loop n b s).dispatched, d.payload.length < 2 ^ 15 := by
  induction n generalizing b s with
  | zero => exact ⟨h, by simp [loop]⟩
  | succ n ih =>
    cases e : turn b s with
    | stop disconnect => simp only [loop, e]; exact ⟨h, by simp⟩
    | dispatch d b' s' =>
      obtain ⟨hd, k, hk, rfl⟩ := turn_removes e
      obtain ⟨hb, hds⟩ := ih (s := s') (hI b k h hk)
      simp only [loop, e, Received.prepend, List.singleton_append, List.mem_cons, forall_eq_or_imp]
      exact ⟨hb, hd, hds⟩

/-- The loop over whole frames: it dispatches each and stands at what follows. -/
theorem loop_frames (fs : List Frame) (h : b.Inv) (ht : Tracks b s) (hn : s.bufferSize ≤ n)
    (hx : unread b s = frameCode.stream fs ++ rest) :
    ∃ m b' s', loop n b s = (loop m b' s').prepend (fs.map .ofFrame) ∧
      CircularBuffer.Shrunk b b' (frameCode.stream fs).length ∧ Tracks b' s' ∧ s'.bufferSize ≤ m ∧ unread b' s' = rest := by
  induction fs generalizing n b s with
  | nil => exact ⟨n, b, s, rfl, CircularBuffer.shrunk_refl h, ht, hn, hx⟩
  | cons f fs ih =>
    rw [PrefixCode.stream_cons, List.append_assoc] at hx
    have hlt : f.encode.length < sizeMod := by
      have hl := length_unread h ht
      have hu := (ht.unread_prefix).length_le
      have hA := CircularBuffer.length_regionA h
      have hi := h.inside
      have hc := h.cap
      rw [hx, List.length_append] at hl hu
      have : (frameCode.encode f).length = f.encode.length := rfl
      omega
    obtain ⟨s₁, e₁, ht₁, hu₁, hs₁⟩ := turn_frame h ht hx
    obtain ⟨m₁, rfl, el⟩ := loop_dispatch hn e₁
    have hsh := CircularBuffer.shrunk_remove h hlt
    obtain ⟨m, b', s', e, hsh', ht', hm, hu⟩ := ih hsh.inv ht₁ (show s₁.bufferSize ≤ m₁ by omega) hu₁
    refine ⟨m, b', s', ?_, ?_, ht', hm, hu⟩
    · rw [el, e, prepend_append]; rfl
    · rw [PrefixCode.stream_cons, List.length_append]; exact hsh.trans hsh'

/-- `OnReceive` over whole frames and the beginning of one more. -/
theorem onReceive_begins (h : b.Inv) (hc : b.mCapacity < 2 ^ 31) {fs gs : List Frame} {p : List Byte}
    (hA : b.regionA = frameCode.stream fs ++ p) (hp : frameCode.Begins gs p) :
    ∃ b', onReceive b = ⟨b', fs.map .ofFrame, false⟩ ∧ CircularBuffer.Shrunk b b' (frameCode.stream fs).length := by
  obtain ⟨ht, hu⟩ := tracks_ofArray h hc
  obtain ⟨m, b', s', e, hsh, ht', hm, hu'⟩ := loop_frames fs h ht (Nat.le_refl _) (hu.trans hA)
  refine ⟨b', ?_, hsh⟩
  rw [onReceive, e, loop_stop hm (turn_begins hsh.inv ht' (hu' ▸ hp))]
  simp [Received.prepend]

/-- `OnReceive` over the beginning of a frame alone does nothing. -/
theorem onReceive_begun (h : b.Inv) (hc : b.mCapacity < 2 ^ 31) {fs : List Frame} (hp : frameCode.Begins fs b.regionA) :
    onReceive b = ⟨b, [], false⟩ := by
  obtain ⟨ht, hu⟩ := tracks_ofArray h hc
  exact loop_stop (Nat.le_refl _) (turn_begins h ht (hu ▸ hp))

/-- One whole frame and the beginning of the next. -/
theorem onReceive_one (h : b.Inv) (hc : b.mCapacity < 2 ^ 31) {f : Frame} {fs : List Frame} {p : List Byte}
    (hA : b.regionA = f.encode ++ p) (hp : frameCode.Begins fs p) :
    onReceive b = ⟨b.remove f.encode.length, [.ofFrame f], false⟩ := by
  obtain ⟨ht, hu⟩ := tracks_ofArray h hc
  have hlen := congrArg List.length hA
  have hi := h.inside
  have hc := h.cap
  rw [CircularBuffer.length_regionA h, List.length_append] at hlen
  obtain ⟨s', e, ht', hu', hlt⟩ := turn_frame h ht (hu.trans hA)
  obtain ⟨m, hm, el⟩ := loop_dispatch (Nat.le_refl _) e
  have hinv := CircularBuffer.inv_remove h (show f.encode.length < sizeMod by omega)
  rw [onReceive, el, loop_stop (by omega) (turn_begins hinv ht' (hu' ▸ hp))]
  rfl

/-- A header `OnReceive` accepts although its size is negative. -/
structure NegativeSize (header : PacketHeader) : Prop where
  size : header.mSize.toInt < 0
  valid : ValidType header.mType

/-- Among the bytes, after whole frames, stands such a header. -/
def NegativeHeader (xs : List Byte) : Prop :=
  ∃ (fs : List Frame) (header : PacketHeader) (rest : List Byte),
    xs = frameCode.stream fs ++ (headerBytes header ++ rest) ∧ NegativeSize header

/-- A header whose payload is there in whole starts a frame, unless its size is
negative. -/
theorem turn_noFrame (h : b.Inv) (ht : Tracks b s) (hf : frameCode.NoFrame (unread b s)) :
    (∃ disconnect, turn b s = .stop disconnect) ∨
      ∃ header rest, unread b s = headerBytes header ++ rest ∧ NegativeSize header := by
  have hlen := length_unread h ht
  rcases Nat.lt_or_ge s.bufferSize headerSize with hshort | hlong
  · exact .inl ⟨false, turn_short hshort⟩
  · obtain ⟨header, rest, hx⟩ : ∃ header rest, unread b s = headerBytes header ++ rest := by
      refine ⟨readHeader ((unread b s).take headerSize), (unread b s).drop headerSize, ?_⟩
      rw [headerBytes_readHeader (by rw [List.length_take]; omega), List.take_append_drop]
    rcases Int.lt_or_le rest.length header.mSize.toInt with hlt | hle
    · exact .inl ⟨false, turn_incomplete h ht hx hlt⟩
    · by_cases hv : ValidType header.mType
      · by_cases hneg : header.mSize.toInt < 0
        · exact .inr ⟨header, rest, hx, hneg, hv⟩
        · obtain ⟨f, hpre⟩ := frame_of_header hv (Int.not_lt.1 hneg) hle
          rw [← hx] at hpre
          exact absurd hpre (hf f)
      · exact .inl ⟨true, turn_badType h ht hx hle hv⟩

theorem mem_onReceive_negative (h : b.Inv) (hc : b.mCapacity < 2 ^ 31) (hneg : NegativeHeader b.contiguous) :
    ∃ d ∈ (onReceive b).dispatched, d.mSize.toInt < 0 := by
  obtain ⟨fs, header, rest, hx, hs⟩ := hneg
  obtain ⟨ht, hu⟩ := tracks_ofArray h hc
  rw [CircularBuffer.contiguous_eq h, ← hu] at hx
  obtain ⟨m, b', s', e, hsh, ht', hm, hu'⟩ := loop_frames fs h ht (Nat.le_refl _) hx
  have hsize := hs.size
  obtain ⟨s₁, e₁, -⟩ := turn_dispatch hsh.inv ht' hu' (by omega) hs.valid
  obtain ⟨m₁, rfl, el⟩ := loop_dispatch hm e₁
  rw [onReceive, e, el]
  refine ⟨_, List.mem_append_right _ (List.mem_cons_self ..), ?_⟩
  exact hs.size

/-- Without such a header, `OnReceive` dispatches whole frames and removes their
bytes, nothing else. -/
theorem onReceive_whole (h : b.Inv) (hc : b.mCapacity < 2 ^ 31) (hneg : ¬ NegativeHeader b.contiguous) :
    ∃ fs rest, b.regionA = frameCode.stream fs ++ rest ∧ (onReceive b).dispatched = fs.map .ofFrame ∧
      CircularBuffer.Shrunk b (onReceive b).mRecvBuffer (frameCode.stream fs).length := by
  obtain ⟨ht, hu⟩ := tracks_ofArray h hc
  obtain ⟨fs, rest, hx, hf⟩ := frameCode.exists_parse b.regionA
  obtain ⟨m, b', s', e, hsh, ht', hm, hu'⟩ := loop_frames fs h ht (Nat.le_refl _) (hu.trans hx)
  rcases turn_noFrame hsh.inv ht' (hu' ▸ hf) with ⟨disconnect, e'⟩ | ⟨header, tail, hx', hs⟩
  · rw [onReceive, e, loop_stop hm e']
    exact ⟨fs, rest, hx, by simp [Received.prepend], hsh⟩
  · refine absurd ⟨fs, header, tail, ?_, hs⟩ hneg
    rw [CircularBuffer.contiguous_eq h, hx, ← hx', hu']

end GameServer
