import GameServer.Protobuf.Parsing
/-!
# The kinds of fields

What the four kinds of cases are for. An inner message is read within its own limit,
and must end there; it may be cut off by the end of the outer one.
-/

namespace GameServer

namespace Protobuf

open Lib
open Lib.Wire (WireType)

variable {M : Type}

/-- The field keeps the last 32 bits. -/
def int32Of (number : Nat) (set : Int32 → M → M) : Field M where
  number := number
  wireType := .varint
  capped := false
  store
    | _, .varint n, m => some (set (UInt32.ofNat n).toInt32 m)
    | _, _, _ => none

def floatOf (number : Nat) (set : UInt32 → M → M) : Field M where
  number := number
  wireType := .fixed32
  capped := false
  store
    | _, .fixed32 bytes, m => some (set (UInt32.ofNat (littleEndian bytes)) m)
    | _, _, _ => none

def stringOf (number : Nat) (set : List Byte → M → M) : Field M where
  number := number
  wireType := .lengthDelimited
  capped := false
  store
    | _, .delimited bytes, m => some (set bytes m)
    | _, _, _ => none

def messageOf {S : Type} (fields : List (Field S)) (number : Nat) (current : M → S) (set : S → M → M) : Field M where
  number := number
  wireType := .lengthDelimited
  capped := true
  store
    | d + 1, .delimited bytes, m =>
      match absorb fields d bytes (current m) with
      | some (value, true) => some (set value m)
      | _ => none
    | _, _, _ => none

theorem int32Field_reads (number : Nat) (set : Int32 → M → M) (expectTags : List (UInt32 × Nat)) (atEnd : Bool) :
    Case.Reads ⟨number, .varint, int32Field set, expectTags, atEnd⟩ (int32Of number set) where
  number := rfl
  wireType := rfl
  plain := by simp [int32Of]
  capped := by simp [int32Of]
  read s m hs := by
    simp only [int32Of, Wire.readValue, int32Field, readInt32]
    cases hread : Varint.read 10 s.buffer with
    | none =>
      rw [CodedInputStream.readVarint32_none hread]
      rfl
    | some r =>
      have hmod : UInt32.ofNat (r.1 % 2 ^ 64) = UInt32.ofNat r.1 := by
        apply UInt32.toNat_inj.1
        rw [UInt32.toNat_ofNat', UInt32.toNat_ofNat']
        omega
      rw [CodedInputStream.readVarint32_some hread]
      simp only [Option.map_some, Option.bind_some, hmod]
      exact ⟨s.lastTag, rfl⟩

theorem floatField_reads (number : Nat) (set : UInt32 → M → M) (expectTags : List (UInt32 × Nat)) (atEnd : Bool) :
    Case.Reads ⟨number, .fixed32, floatField set, expectTags, atEnd⟩ (floatOf number set) where
  number := rfl
  wireType := rfl
  plain := by simp [floatOf]
  capped := by simp [floatOf]
  read s m hs := by
    simp only [floatOf, Wire.readValue, floatField, readFloat, CodedInputStream.readLittleEndian32_eq]
    by_cases hle : 4 ≤ s.buffer.length
    · rw [if_pos hle, if_pos hle]
      exact ⟨s.lastTag, rfl⟩
    · rw [if_neg hle, if_neg hle]
      rfl

theorem stringField_reads (number : Nat) (set : List Byte → M → M) (expectTags : List (UInt32 × Nat)) (atEnd : Bool) :
    Case.Reads ⟨number, .lengthDelimited, stringField set, expectTags, atEnd⟩ (stringOf number set) where
  number := rfl
  wireType := rfl
  plain := by simp [stringOf]
  capped := by simp [stringOf]
  read s m hs := by
    simp only [stringOf, Wire.readValue, stringField, readString]
    cases hread : Varint.read 10 s.buffer with
    | none =>
      rw [CodedInputStream.readVarint32_none hread]
      rfl
    | some r =>
      have hr : Varint.read 10 s.buffer = some (r.1, r.2) := hread
      have hready := hs.move (Nat.le_of_lt (Varint.read_length_lt hr)) s.lastTag
      simp only [CodedInputStream.readVarint32_some hr, ok_bind]
      rw [CodedInputStream.readString_length hready, UInt32.toNat_ofNat']
      simp only [Bool.false_eq_true, or_false]
      by_cases hle : r.1 % 2 ^ 32 ≤ r.2.length
      · rw [if_pos hle, if_pos hle]
        exact ⟨s.lastTag, rfl⟩
      · rw [if_neg hle, if_neg hle]
        rfl

/-- An inner message, once its length is known. -/
theorem readMessage_spec {S : Type} {merge : CodedInputStream → S → Result (S × CodedInputStream)}
    {fields : List (Field S)}
    (hmerge : ∀ s value, s.Ready → Merges s (merge s value) (absorb fields s.allowance s.buffer value))
    {s : CodedInputStream} (hs : s.Ready) {d : Nat} (hd : s.allowance = d + 1) (x : UInt32) (value : S) :
    Answers s
      (do
        let input ← s.incrementRecursionDepth
        let (limit, input) := input.pushLimit x.toInt32.toInt
        let (value, input) ← merge input value
        if input.consumedEntireMessage then pure (value, (input.popLimit limit).decrementRecursionDepth)
        else .error .returnedFalse)
      (match absorb fields d (s.buffer.take x.toNat) value with
        | some (value, true) => some (value, s.buffer.drop x.toNat)
        | _ => none) := by
  have hdepth : s.recursionDepth + 1 ≤ defaultRecursionLimit := by
    simp only [CodedInputStream.allowance] at hd
    omega
  have hready : CodedInputStream.Ready { s with recursionDepth := s.recursionDepth + 1 } :=
    ⟨hs.small, hs.after, hs.inside, hs.running⟩
  obtain ⟨s', hpush, hready', hbuffer, hrec, hpop⟩ := CodedInputStream.pushLimit_spec hready x
  have hallow : s'.allowance = d := by
    simp only [CodedInputStream.allowance, hrec] at hd ⊢
    omega
  have hspec := hmerge s' value hready'
  rw [hallow, hbuffer] at hspec
  simp only at hspec
  rw [CodedInputStream.incrementRecursionDepth, if_pos hdepth]
  simp only [ok_bind, hpush]
  rcases ho : absorb fields d (s.buffer.take x.toNat) value with _ | ⟨value', _ | _⟩
  · rw [ho] at hspec
    rw [hspec]
    rfl
  · rw [ho] at hspec
    obtain ⟨s'', he, hend⟩ := hspec
    simp only [he, ok_bind, CodedInputStream.consumedEntireMessage, hend, Bool.false_eq_true, if_false]
    rfl
  · rw [ho] at hspec
    simp only [Merges] at hspec
    simp only [hspec, ok_bind, CodedInputStream.consumedEntireMessage, if_true, pure_eq_ok]
    simp only at hpop
    rw [hpop]
    exact ⟨0, rfl⟩

theorem messageField_reads {S : Type} {merge : CodedInputStream → S → Result (S × CodedInputStream)}
    {fields : List (Field S)}
    (hmerge : ∀ s value, s.Ready → Merges s (merge s value) (absorb fields s.allowance s.buffer value))
    (number : Nat) (current : M → S) (set : S → M → M) (expectTags : List (UInt32 × Nat)) (atEnd : Bool) :
    Case.Reads ⟨number, .lengthDelimited, messageField merge current set, expectTags, atEnd⟩
      (messageOf fields number current set) where
  number := rfl
  wireType := rfl
  plain := by simp [messageOf]
  capped := fun _ => rfl
  read s m hs := by
    simp only [messageOf, Wire.readValue, messageField, readMessageNoVirtual]
    cases hread : Varint.read 10 s.buffer with
    | none =>
      rw [CodedInputStream.readVarint32_none hread]
      rfl
    | some r =>
      have hr : Varint.read 10 s.buffer = some (r.1, r.2) := hread
      have hready := hs.move (Nat.le_of_lt (Varint.read_length_lt hr)) s.lastTag
      have hx : (UInt32.ofNat r.1).toNat = r.1 % 2 ^ 32 := UInt32.toNat_ofNat'
      simp only [CodedInputStream.readVarint32_some hr, ok_bind, or_true, if_true, Option.bind_some, ← hx]
      generalize UInt32.ofNat r.1 = x
      cases hd : s.allowance with
      | zero =>
        have hdepth : ¬ s.recursionDepth + 1 ≤ defaultRecursionLimit := by
          simp only [CodedInputStream.allowance] at hd
          omega
        simp only [CodedInputStream.incrementRecursionDepth, if_neg hdepth]
        rfl
      | succ d =>
        have hspec := readMessage_spec hmerge hready (d := d) hd x (current m)
        simp only at hspec ⊢
        rcases ho : absorb fields d (r.2.take x.toNat) (current m) with _ | ⟨value, _ | _⟩
        · rw [ho] at hspec
          rw [hspec]
          rfl
        · rw [ho] at hspec
          rw [hspec]
          rfl
        · rw [ho] at hspec
          obtain ⟨tag, he⟩ := hspec
          rw [he]
          exact ⟨tag, rfl⟩

end Protobuf

end GameServer
