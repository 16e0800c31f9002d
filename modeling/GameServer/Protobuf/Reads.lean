import GameServer.Protobuf.Varints
import GameServer.Protobuf.WireFormatLite
/-!
# What each read does

A read depends on the bytes of the buffer, up to the next limit, and moves nothing
but the buffer's front. While a message is read the stream is `Ready`, and between
`PushLimit` and `PopLimit` it is the stream of the inner message.
-/

namespace GameServer

namespace Protobuf

open Lib
open Lib.Wire (WireType)

@[simp] theorem ok_bind {α β : Type} (a : α) (f : α → Result β) : (Except.ok a : Result α) >>= f = f a := rfl

@[simp] theorem error_bind {α β : Type} (e : Failure) (f : α → Result β) :
    (Except.error e : Result α) >>= f = .error e := rfl

@[simp] theorem pure_eq_ok {α : Type} (a : α) : (pure a : Result α) = .ok a := rfl

/-! ## A length as an int -/

theorem toInt_toInt32 (x : UInt32) : x.toInt32.toInt = (x.toNat : Int).bmod (2 ^ 32) :=
  BitVec.toInt_eq_toNat_bmod x.toBitVec

theorem toInt_of_lt {x : UInt32} (h : x.toNat < 2 ^ 31) : x.toInt32.toInt = x.toNat := by
  rw [toInt_toInt32]
  exact Int.bmod_eq_of_le (by omega) (by omega)

theorem toInt_of_ge {x : UInt32} (h : 2 ^ 31 ≤ x.toNat) : x.toInt32.toInt < 0 := by
  have hlt := x.toNat_lt
  rw [toInt_toInt32, Int.bmod_def]
  omega

namespace CodedInputStream

/-- The stream is in the middle of a message of ordinary size. -/
structure Ready (s : CodedInputStream) : Prop where
  small : s.totalBytesRead < defaultTotalBytesLimit
  after : s.afterLimit.length = s.totalBytesRead - s.currentLimit
  inside : s.buffer.length + s.afterLimit.length ≤ s.totalBytesRead
  running : s.legitimateMessageEnd = false

theorem Ready.move {s : CodedInputStream} (hs : s.Ready) {buffer : List Byte}
    (h : buffer.length ≤ s.buffer.length) (tag : UInt32) : Ready { s with buffer, lastTag := tag } where
  small := hs.small
  after := hs.after
  inside := by have := hs.inside; dsimp only; omega
  running := hs.running

theorem Ready.length_lt {s : CodedInputStream} (hs : s.Ready) : s.buffer.length < 2 ^ 26 := by
  have := hs.small
  have := hs.inside
  simp only [defaultTotalBytesLimit] at *
  omega

theorem ready_ofArray {data : List Byte} (h : data.length < defaultTotalBytesLimit) :
    ofArray data = ⟨data, [], data.length, int32Max, 0, false, 0⟩ ∧ (ofArray data).Ready := by
  have hle : ¬ min int32Max defaultTotalBytesLimit < data.length := by
    simp only [int32Max, defaultTotalBytesLimit] at *
    omega
  have he : ofArray data = ⟨data, [], data.length, int32Max, 0, false, 0⟩ := by
    simp only [ofArray, recomputeBufferLimits, hle, if_false, memory, List.append_nil]
  rw [he]
  refine ⟨rfl, h, ?_, by simp, rfl⟩
  simp only [int32Max, defaultTotalBytesLimit, List.length_nil] at *
  omega

/-! ## Tags -/

theorem fast_nil {s : CodedInputStream} (h : s.buffer = []) : s.fast = false := by
  rw [Bool.eq_false_iff, ne_eq, fast_iff, h]
  simp

/-- On an empty buffer there is no tag. That is a legitimate end, unless only the limit of
all messages was reached. -/
theorem readTag_nil {s : CodedInputStream} (h : s.buffer = []) :
    s.readTag = .ok (0, { s with
      lastTag := 0
      legitimateMessageEnd :=
        if defaultTotalBytesLimit ≤ s.totalBytesRead - s.afterLimit.length then s.currentLimit == defaultTotalBytesLimit
        else true }) := by
  have hfall : s.readTagFallback = .ok (0, { s with
      legitimateMessageEnd :=
        if defaultTotalBytesLimit ≤ s.totalBytesRead - s.afterLimit.length then s.currentLimit == defaultTotalBytesLimit
        else true }) := by
    unfold readTagFallback
    rw [fast_nil h]
    simp only [Bool.false_eq_true, if_false]
    split
    case isTrue hc => rw [if_neg (Nat.not_le.2 hc.2.2)]
    case isFalse => simp only [readTagSlow, h, if_true]
  unfold readTag
  split
  case h_1 b buffer hb =>
    rw [h] at hb
    cases hb
  case h_2 => simp only [hfall, ok_bind, pure_eq_ok]

theorem readTag_finished {s : CodedInputStream} (hs : s.Ready) (h : s.buffer = []) :
    s.readTag = .ok (0, { s with lastTag := 0, legitimateMessageEnd := true }) := by
  have hsmall := hs.small
  have hpos : ¬ defaultTotalBytesLimit ≤ s.totalBytesRead - s.afterLimit.length := by omega
  rw [readTag_nil h, if_neg hpos]

theorem readTagFallback_some {s : CodedInputStream} {v : Nat} {rest : List Byte}
    (h : Varint.read 10 s.buffer = some (v, rest)) :
    s.readTagFallback = .ok (UInt32.ofNat v, { s with buffer := rest }) := by
  have hne : s.buffer ≠ [] := by
    intro hnil
    rw [hnil] at h
    cases h
  unfold readTagFallback
  by_cases hf : s.fast = true
  · rw [if_pos hf, readVarint32FromArray_eq hf, h]
    simp only [advance_read h, ok_bind, pure_eq_ok]
  · rw [if_neg hf, if_neg (fun hc => hne hc.1), readTagSlow, if_neg hne, readVarint64_some h]
    simp only [ok_bind, pure_eq_ok, toUInt32_ofNat]

theorem readTagFallback_none {s : CodedInputStream} (hne : s.buffer ≠ []) (h : Varint.read 10 s.buffer = none) :
    ∃ left, s.readTagFallback = .ok (0, { s with buffer := left }) := by
  unfold readTagFallback
  by_cases hf : s.fast = true
  · rw [if_pos hf, readVarint32FromArray_eq hf, h]
    exact ⟨s.buffer, rfl⟩
  · obtain ⟨left, hleft⟩ := readVarint64_none h
    rw [if_neg hf, if_neg (fun hc => hne hc.1), readTagSlow, if_neg hne, hleft]
    exact ⟨left, rfl⟩

theorem readTag_some {s : CodedInputStream} {v : Nat} {rest : List Byte}
    (h : Varint.read 10 s.buffer = some (v, rest)) :
    s.readTag = .ok (UInt32.ofNat v, { s with buffer := rest, lastTag := UInt32.ofNat v }) := by
  unfold readTag
  split
  case h_1 b buffer hb =>
    split
    case isTrue hlt =>
      rw [hb, read_oneByte hlt] at h
      simp only [Option.some.injEq, Prod.mk.injEq] at h
      rw [← h.1, ← h.2, toUInt32_eq]
      rfl
    case isFalse => simp only [readTagFallback_some h, ok_bind, pure_eq_ok]
  case h_2 => simp only [readTagFallback_some h, ok_bind, pure_eq_ok]

theorem readTag_none {s : CodedInputStream} (hne : s.buffer ≠ []) (h : Varint.read 10 s.buffer = none) :
    ∃ left, s.readTag = .ok (0, { s with buffer := left, lastTag := 0 }) := by
  obtain ⟨left, hleft⟩ := readTagFallback_none hne h
  refine ⟨left, ?_⟩
  unfold readTag
  split
  case h_1 b buffer hb =>
    split
    case isTrue hlt =>
      rw [hb, read_oneByte hlt] at h
      cases h
    case isFalse => simp only [hleft, ok_bind, pure_eq_ok]
  case h_2 => simp only [hleft, ok_bind, pure_eq_ok]

/-- All the ways of reading a varint, unrolled over an array or byte by byte, are one. -/
theorem varint_reads (s : CodedInputStream) :
    (∀ v rest, Varint.read maxVarintBytes s.buffer = some (v, rest) →
      s.readVarint64 = .ok (some (UInt64.ofNat v), { s with buffer := rest }) ∧
      s.readVarint32 = .ok (UInt32.ofNat v, { s with buffer := rest }) ∧
      s.readTag = .ok (UInt32.ofNat v, { s with buffer := rest, lastTag := UInt32.ofNat v })) ∧
    (Varint.read maxVarintBytes s.buffer = none →
      (∃ left, s.readVarint64 = .ok (none, { s with buffer := left })) ∧
      s.readVarint32 = .error .returnedFalse ∧
      (s.buffer ≠ [] → ∃ left, s.readTag = .ok (0, { s with buffer := left, lastTag := 0 }))) ∧
    (s.buffer = [] →
      s.readTag = .ok (0, { s with
        lastTag := 0
        legitimateMessageEnd :=
          if defaultTotalBytesLimit ≤ s.totalBytesRead - s.afterLimit.length then s.currentLimit == defaultTotalBytesLimit
          else true })) :=
  ⟨fun _ _ h => ⟨readVarint64_some h, readVarint32_some h, readTag_some h⟩,
    fun h => ⟨readVarint64_none h, readVarint32_none h, fun hne => readTag_none hne h⟩, readTag_nil⟩

/-- A tag that `ExpectTag` finds is the one that `ReadTag` would read. -/
theorem expectTag_some {s s' : CodedInputStream} {t : UInt32} (ht : t < 0x80) (h : s.expectTag t = some s') :
    Varint.read 10 s.buffer = some (t.toNat, s'.buffer) ∧ s' = { s with buffer := s'.buffer } := by
  unfold expectTag at h
  rw [if_pos ht] at h
  split at h
  case h_1 b buffer hb =>
    split at h
    case isTrue heq =>
      simp only [Option.some.injEq] at h
      subst h
      have hlt : b < 0x80 := by
        rw [lt_0x80_iff, ← UInt8.toNat_toUInt32, heq]
        exact ht
      rw [hb, read_oneByte hlt, ← heq, UInt8.toNat_toUInt32]
      exact ⟨rfl, rfl⟩
    case isFalse => cases h
  case h_2 => cases h

theorem expectAtEnd_some {s s' : CodedInputStream} (h : s.expectAtEnd = some s') :
    s.buffer = [] ∧ s' = { s with lastTag := 0, legitimateMessageEnd := true } := by
  unfold expectAtEnd at h
  split at h
  case isTrue hc =>
    simp only [Option.some.injEq] at h
    exact ⟨hc.1, h.symm⟩
  case isFalse => cases h

/-! ## Values -/

theorem advance_of_le {s : CodedInputStream} {n : Nat} (h : n ≤ s.buffer.length) :
    s.advance n = .ok { s with buffer := s.buffer.drop n } := if_pos h

theorem skip_length {s : CodedInputStream} (hs : s.Ready) (x : UInt32) :
    s.skip x.toInt32.toInt =
      if x.toNat ≤ s.buffer.length then .ok { s with buffer := s.buffer.drop x.toNat } else .error .returnedFalse := by
  have hlen := hs.length_lt
  unfold skip bufferSize
  rcases Nat.lt_or_ge x.toNat (2 ^ 31) with hx | hx
  · rw [toInt_of_lt hx, if_neg (by omega), Int.toNat_natCast]
    simp only [Int.ofNat_le]
    split
    case isTrue hle => exact advance_of_le hle
    case isFalse => rfl
  · rw [if_pos (toInt_of_ge hx), if_neg (by omega)]

theorem readString_length {s : CodedInputStream} (hs : s.Ready) (x : UInt32) :
    s.readString x.toInt32.toInt =
      if x.toNat ≤ s.buffer.length then .ok (s.buffer.take x.toNat, { s with buffer := s.buffer.drop x.toNat })
      else .error .returnedFalse := by
  have hlen := hs.length_lt
  unfold readString bufferSize
  rcases Nat.lt_or_ge x.toNat (2 ^ 31) with hx | hx
  · rw [toInt_of_lt hx, if_neg (by omega), Int.toNat_natCast]
    simp only [Int.ofNat_le]
    split
    case isTrue hle => rw [advance_of_le hle]; rfl
    case isFalse => rfl
  · rw [if_pos (toInt_of_ge hx), if_neg (by omega)]

theorem readLittleEndian32_eq (s : CodedInputStream) :
    s.readLittleEndian32 =
      if 4 ≤ s.buffer.length then
        .ok (UInt32.ofNat (littleEndian (s.buffer.take 4)), { s with buffer := s.buffer.drop 4 })
      else .error .returnedFalse := by
  unfold readLittleEndian32 bufferSize
  split
  case isTrue hle => rw [advance_of_le hle]; rfl
  case isFalse => rfl

theorem readLittleEndian64_eq (s : CodedInputStream) :
    s.readLittleEndian64 =
      if 8 ≤ s.buffer.length then
        .ok (UInt64.ofNat (littleEndian (s.buffer.take 8)), { s with buffer := s.buffer.drop 8 })
      else .error .returnedFalse := by
  unfold readLittleEndian64 bufferSize
  split
  case isTrue hle => rw [advance_of_le hle]; rfl
  case isFalse => rfl

/-! ## Limits -/

/-- `n` bytes are left up to the limit. -/
theorem recomputeBufferLimits_eq {s : CodedInputStream} {limit n : Nat}
    (hsmall : s.totalBytesRead < defaultTotalBytesLimit) (hlen : s.memory.length = n + (s.totalBytesRead - limit)) :
    recomputeBufferLimits { s with currentLimit := limit } =
      { s with buffer := s.memory.take n, afterLimit := s.memory.drop n, currentLimit := limit } := by
  simp only [recomputeBufferLimits, memory] at hlen ⊢
  split
  case isTrue hlt =>
    have hsize : (s.buffer ++ s.afterLimit).length - (s.totalBytesRead - min limit defaultTotalBytesLimit) = n := by
      omega
    rw [hsize]
  case isFalse hge =>
    have hn : n = (s.buffer ++ s.afterLimit).length := by omega
    rw [hn, List.take_length, List.drop_length]

/-- The stream of an inner message of `n` bytes. -/
def inner (s : CodedInputStream) (n : Nat) : CodedInputStream :=
  { s with buffer := s.buffer.take n
           afterLimit := s.buffer.drop n ++ s.afterLimit
           currentLimit := s.currentPosition + n }

theorem pushLimit_eq {s : CodedInputStream} (hs : s.Ready) (x : UInt32) (hx : x.toNat ≤ s.buffer.length) :
    s.pushLimit x.toInt32.toInt = (s.currentLimit, s.inner x.toNat) := by
  have hlen := hs.length_lt
  have hsmall := hs.small
  have hafter := hs.after
  have hinside := hs.inside
  have hpos : s.currentPosition = s.totalBytesRead - (s.buffer.length + s.afterLimit.length) := rfl
  have hint : x.toInt32.toInt = x.toNat := toInt_of_lt (by omega)
  have hc : (0 : Int) ≤ (x.toNat : Int) ∧ (x.toNat : Int) ≤ (int32Max : Int) - s.currentPosition := by
    simp only [int32Max, defaultTotalBytesLimit] at *
    omega
  have hmin : min (s.currentPosition + x.toNat) s.currentLimit = s.currentPosition + x.toNat := by omega
  have hmem : s.memory.length = x.toNat + (s.totalBytesRead - (s.currentPosition + x.toNat)) := by
    rw [memory, List.length_append]
    omega
  simp only [pushLimit, hint, hc, and_self, if_true, Int.toNat_natCast, hmin]
  rw [recomputeBufferLimits_eq (n := x.toNat) hsmall hmem]
  simp only [inner, memory, List.take_append_of_le_length hx, List.drop_append_of_le_length hx]

/-- A message that says to go on past the end goes to the end. -/
theorem pushLimit_beyond {s : CodedInputStream} (hs : s.Ready) (x : UInt32) (hx : s.buffer.length < x.toNat) :
    ∃ limit, s.totalBytesRead - limit = s.totalBytesRead - s.currentLimit ∧
      s.pushLimit x.toInt32.toInt = (s.currentLimit, { s with currentLimit := limit }) := by
  have hlen := hs.length_lt
  have hsmall := hs.small
  have hafter := hs.after
  have hinside := hs.inside
  have hpos : s.currentPosition = s.totalBytesRead - (s.buffer.length + s.afterLimit.length) := rfl
  obtain ⟨limit, he, hle⟩ : ∃ limit, limit = (if 0 ≤ x.toInt32.toInt ∧
      x.toInt32.toInt ≤ (int32Max : Int) - s.currentPosition
      then s.currentPosition + x.toInt32.toInt.toNat else int32Max) ∧ s.currentPosition + s.buffer.length ≤ limit := by
    refine ⟨_, rfl, ?_⟩
    rcases Nat.lt_or_ge x.toNat (2 ^ 31) with hlt | hge
    · rw [toInt_of_lt hlt, Int.toNat_natCast]
      split <;> simp only [int32Max, defaultTotalBytesLimit] at * <;> omega
    · have := toInt_of_ge hge
      rw [if_neg (by omega)]
      simp only [int32Max, defaultTotalBytesLimit] at *
      omega
  have hmem : s.memory.length = s.buffer.length + (s.totalBytesRead - min limit s.currentLimit) := by
    rw [memory, List.length_append]
    omega
  refine ⟨min limit s.currentLimit, by omega, ?_⟩
  simp only [pushLimit, ← he]
  rw [recomputeBufferLimits_eq (n := s.buffer.length) hsmall hmem]
  simp only [memory, List.take_left, List.drop_left]

/-- The limit of the outer message, with `n` bytes of it still to be read. -/
theorem popLimit_eq {s : CodedInputStream} {limit n : Nat} (hsmall : s.totalBytesRead < defaultTotalBytesLimit)
    (hlen : s.memory.length = n + (s.totalBytesRead - limit)) :
    s.popLimit limit =
      { s with buffer := s.memory.take n
               afterLimit := s.memory.drop n
               currentLimit := limit
               legitimateMessageEnd := false } := by
  rw [popLimit, recomputeBufferLimits_eq hsmall hlen]

/-- Between the two calls the stream is that of the inner message, as far as there
are bytes of it, and after them it goes on behind it. -/
theorem pushLimit_spec {s : CodedInputStream} (hs : s.Ready) (x : UInt32) :
    ∃ s', s.pushLimit x.toInt32.toInt = (s.currentLimit, s') ∧ s'.Ready ∧ s'.buffer = s.buffer.take x.toNat ∧
      s'.recursionDepth = s.recursionDepth ∧
      popLimit { s' with buffer := [], lastTag := 0, legitimateMessageEnd := true } s.currentLimit =
        { s with buffer := s.buffer.drop x.toNat, lastTag := 0 } := by
  have hafter := hs.after
  have hinside := hs.inside
  have hrunning := hs.running
  rcases Nat.lt_or_ge s.buffer.length x.toNat with hx | hx
  · obtain ⟨limit, hlimit, he⟩ := pushLimit_beyond hs x hx
    refine ⟨_, he, ⟨hs.small, by dsimp only; omega, hinside, hrunning⟩, ?_, rfl, ?_⟩
    · rw [List.take_of_length_le (by omega)]
    · refine (popLimit_eq (n := 0) ?_ ?_).trans ?_
      · exact hs.small
      · simp [memory, hafter]
      · rw [List.drop_eq_nil_of_le (by omega : s.buffer.length ≤ x.toNat)]
        simp [memory, hrunning]
  · have hpos : s.currentPosition = s.totalBytesRead - (s.buffer.length + s.afterLimit.length) := rfl
    have hdrop : (s.buffer.drop x.toNat).length = s.buffer.length - x.toNat := List.length_drop
    refine ⟨_, pushLimit_eq hs x hx, ⟨hs.small, ?_, ?_, hrunning⟩, rfl, rfl, ?_⟩
    · simp only [inner, List.length_append]
      omega
    · simp only [inner, List.length_append, List.length_take]
      omega
    · refine (popLimit_eq (n := s.buffer.length - x.toNat) ?_ ?_).trans ?_
      · exact hs.small
      · simp only [memory, inner, List.nil_append, List.length_append]
        omega
      · simp only [memory, inner, List.nil_append, ← hdrop, List.take_left, List.drop_left, hrunning]

end CodedInputStream

end Protobuf

end GameServer
