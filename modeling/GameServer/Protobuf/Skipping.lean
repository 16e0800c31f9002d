import GameServer.Protobuf.Reads
/-!
# Skipping unknown fields

`SkipField` passes over what is one item of the wire format, and fails where there is
none; a group may hold groups as long as the recursion limit allows.
-/

namespace GameServer

namespace Protobuf

open Lib
open Lib.Wire (WireType)

theorem getTagWireType_eq (tag : UInt32) : getTagWireType tag = .ofBits (tag.toNat % 8) := by
  rw [getTagWireType, UInt32.toNat_and]
  exact congrArg _ (Nat.and_two_pow_sub_one_eq_mod tag.toNat 3)

theorem getTagFieldNumber_eq (tag : UInt32) : getTagFieldNumber tag = tag.toNat / 8 := by
  rw [getTagFieldNumber, UInt32.toNat_shiftRight]
  exact Nat.shiftRight_eq_div_pow _ _

theorem makeTag_toNat {number : Nat} (h : number < 2 ^ 29) (type : WireType) :
    (makeTag number type).toNat = number * 8 + type.bits := by
  have hbits : type.bits < 8 := by cases type <;> decide
  have hn : (UInt32.ofNat number <<< 3).toNat = number * 8 := by
    rw [UInt32.toNat_shiftLeft, UInt32.toNat_ofNat', Nat.mod_eq_of_lt (show number < 2 ^ 32 by omega)]
    show number <<< 3 % _ = _
    rw [Nat.shiftLeft_eq, Nat.mod_eq_of_lt (by omega)]
  have ht : (UInt32.ofNat type.bits).toNat = type.bits := by
    rw [UInt32.toNat_ofNat']
    omega
  have hor := Nat.two_pow_add_eq_or_of_lt (i := 3) hbits number
  rw [makeTag, UInt32.toNat_or, hn, ht, Nat.mul_comm number]
  exact hor.symm

/-- How many groups or messages may still be opened in one another. -/
def CodedInputStream.allowance (s : CodedInputStream) : Nat := defaultRecursionLimit - s.recursionDepth

/-- A call that moves to `rest`, or returns false. -/
def Skips (s : CodedInputStream) (r : Result CodedInputStream) : Option (List Byte) → Prop
  | none => r = .error .returnedFalse
  | some rest => ∃ tag, r = .ok { s with buffer := rest, lastTag := tag }

/-- `SkipMessage`, up to the end of group `number`. -/
def SkipsGroup (s : CodedInputStream) (number : Nat) (r : Result CodedInputStream) : Option (List Byte) → Prop
  | none => r = .error .returnedFalse ∨ ∃ s', r = .ok s' ∧ s'.lastTag ≠ makeTag number .endGroup
  | some rest => r = .ok { s with buffer := rest, lastTag := makeTag number .endGroup }

/-- Every case but groups. -/
theorem skipField_value {s : CodedInputStream} (hs : s.Ready) {n : Nat} {tag : UInt32}
    (h : getTagWireType tag ≠ .startGroup) :
    Skips s (skipFieldIn (n + 1) tag s) ((Wire.readValue false (getTagWireType tag) s.buffer).map Prod.snd) := by
  rw [skipFieldIn]
  cases ht : getTagWireType tag with
  | startGroup => exact absurd ht h
  | endGroup | other => rfl
  | varint =>
    simp only [Wire.readValue]
    cases hread : Varint.read 10 s.buffer with
    | none =>
      obtain ⟨left, hleft⟩ := CodedInputStream.readVarint64_none hread
      rw [hleft]
      rfl
    | some r =>
      rw [CodedInputStream.readVarint64_some hread]
      exact ⟨s.lastTag, rfl⟩
  | lengthDelimited =>
    simp only [Wire.readValue]
    cases hread : Varint.read 10 s.buffer with
    | none =>
      rw [CodedInputStream.readVarint32_none hread]
      rfl
    | some r =>
      have hr : Lib.Varint.read 10 s.buffer = some (r.1, r.2) := hread
      have hready := hs.move (Nat.le_of_lt (Varint.read_length_lt hr)) s.lastTag
      simp only [CodedInputStream.readVarint32_some hr, ok_bind]
      rw [CodedInputStream.skip_length hready, UInt32.toNat_ofNat']
      simp only [Bool.false_eq_true, or_false]
      by_cases hle : r.1 % 2 ^ 32 ≤ r.2.length
      · rw [if_pos hle, if_pos hle]
        exact ⟨s.lastTag, rfl⟩
      · rw [if_neg hle, if_neg hle]
        rfl
  | fixed64 =>
    simp only [CodedInputStream.readLittleEndian64_eq, Wire.readValue]
    by_cases hle : 8 ≤ s.buffer.length
    · rw [if_pos hle, if_pos hle]
      exact ⟨s.lastTag, rfl⟩
    · rw [if_neg hle, if_neg hle]
      rfl
  | fixed32 =>
    simp only [CodedInputStream.readLittleEndian32_eq, Wire.readValue]
    by_cases hle : 4 ≤ s.buffer.length
    · rw [if_pos hle, if_pos hle]
      exact ⟨s.lastTag, rfl⟩
    · rw [if_neg hle, if_neg hle]
      rfl

theorem past_tagged (d : Nat) (tag : UInt32) (bytes : List Byte) :
    (Wire.tagged (Wire.skipGroup d) (fun _ => false) tag.toNat bytes).past =
      if getTagWireType tag = .startGroup then Wire.skipGroup d (getTagFieldNumber tag) bytes
      else (Wire.readValue false (getTagWireType tag) bytes).map Prod.snd := by
  unfold Wire.tagged
  rw [getTagWireType_eq, getTagFieldNumber_eq]
  cases WireType.ofBits (tag.toNat % 8) with
  | startGroup =>
    simp only [if_true]
    cases Wire.skipGroup d (tag.toNat / 8) bytes <;> rfl
  | endGroup => rfl
  | varint | fixed64 | lengthDelimited | fixed32 | other =>
    simp only [reduceCtorEq, if_false]
    split <;> rename_i h <;> rw [h] <;> rfl

theorem endGroup_of_wireType {tag : UInt32} (h : getTagWireType tag = .endGroup) :
    tag = makeTag (getTagFieldNumber tag) .endGroup := by
  have hlt := tag.toNat_lt
  have hmod : tag.toNat % 8 = 4 := by
    rw [getTagWireType_eq] at h
    have : ∀ n < 8, WireType.ofBits n = .endGroup → n = 4 := by decide
    exact this _ (Nat.mod_lt _ (by decide)) h
  apply UInt32.toNat_inj.1
  rw [getTagFieldNumber_eq, makeTag_toNat (by omega)]
  show _ = _ + 4
  omega

theorem makeTag_endGroup_inj {k number : Nat} (hk : k < 2 ^ 29) (hn : number < 2 ^ 29)
    (h : makeTag k .endGroup = makeTag number .endGroup) : k = number := by
  have := congrArg UInt32.toNat h
  rw [makeTag_toNat hk, makeTag_toNat hn] at this
  omega

theorem makeTag_endGroup_ne_zero {number : Nat} (h : number < 2 ^ 29) : (0 : UInt32) ≠ makeTag number .endGroup := by
  intro he
  have := congrArg UInt32.toNat he
  rw [makeTag_toNat h] at this
  simp [WireType.bits] at this

/-- `SkipMessage` does its part in `n` calls and turns. -/
def MessageSpec (n : Nat) : Prop :=
  ∀ (s : CodedInputStream) (number : Nat), s.Ready → number < 2 ^ 29 → 2 * s.buffer.length + 1 ≤ n →
    SkipsGroup s number (skipMessageIn n s) (Wire.skipGroup (s.allowance + 1) number s.buffer)

/-- `SkipField` does its part in `n` calls. -/
def FieldSpec (n : Nat) : Prop :=
  ∀ (s : CodedInputStream) (tag : UInt32), s.Ready → 2 * s.buffer.length + 2 ≤ n →
    Skips s (skipFieldIn n tag s) (Wire.tagged (Wire.skipGroup s.allowance) (fun _ => false) tag.toNat s.buffer).past

theorem getTagFieldNumber_lt (tag : UInt32) : getTagFieldNumber tag < 2 ^ 29 := by
  have := tag.toNat_lt
  rw [getTagFieldNumber_eq]
  omega

/-- A group: the message in it, and then the tag that ends it. -/
theorem skipField_group {n : Nat} (hmessage : MessageSpec n) {s : CodedInputStream} (hs : s.Ready) {tag : UInt32}
    (hstart : getTagWireType tag = .startGroup) (hn : 2 * s.buffer.length + 1 ≤ n) :
    Skips s (skipFieldIn (n + 1) tag s) (Wire.skipGroup s.allowance (getTagFieldNumber tag) s.buffer) := by
  rw [skipFieldIn, hstart]
  simp only [CodedInputStream.incrementRecursionDepth]
  by_cases hdepth : s.recursionDepth + 1 ≤ defaultRecursionLimit
  · have hready : CodedInputStream.Ready { s with recursionDepth := s.recursionDepth + 1 } :=
      ⟨hs.small, hs.after, hs.inside, hs.running⟩
    have hspec := hmessage _ _ hready (getTagFieldNumber_lt tag) hn
    have hallow : s.allowance = CodedInputStream.allowance { s with recursionDepth := s.recursionDepth + 1 } + 1 := by
      simp only [CodedInputStream.allowance]
      omega
    rw [if_pos hdepth, ok_bind, hallow]
    generalize Wire.skipGroup _ _ _ = o at hspec ⊢
    cases o with
    | none =>
      rcases hspec with he | ⟨s', he, hne⟩
      · rw [he]
        rfl
      · simp only [he, ok_bind, CodedInputStream.lastTagWas, CodedInputStream.decrementRecursionDepth, beq_iff_eq]
        rw [if_neg hne]
        rfl
    | some rest =>
      simp only [SkipsGroup] at hspec
      simp only [hspec, ok_bind, CodedInputStream.lastTagWas, CodedInputStream.decrementRecursionDepth,
        beq_self_eq_true, if_true, Nat.add_sub_cancel]
      exact ⟨_, rfl⟩
  · have hallow : s.allowance = 0 := by
      simp only [CodedInputStream.allowance]
      omega
    rw [if_neg hdepth, hallow]
    rfl

/-- A turn of `SkipMessage` after its tag. -/
theorem skipMessage_tag {n : Nat} (hfield : FieldSpec n) (hmessage : MessageSpec n) {s : CodedInputStream}
    (hs : s.Ready) {number : Nat} (hnumber : number < 2 ^ 29) {tag : UInt32} {bytes : List Byte}
    (hlen : bytes.length < s.buffer.length) (hn : 2 * s.buffer.length ≤ n) :
    SkipsGroup s number
      (if getTagWireType tag = .endGroup then pure { s with buffer := bytes, lastTag := tag }
        else do
          let input ← skipFieldIn n tag { s with buffer := bytes, lastTag := tag }
          skipMessageIn n input)
      (match Wire.tagged (Wire.skipGroup s.allowance) (fun _ => false) tag.toNat bytes with
        | .close k rest => if k = number then some rest else none
        | .skipped rest => Wire.skipGroup (s.allowance + 1) number rest
        | .record _ rest => Wire.skipGroup (s.allowance + 1) number rest
        | _ => none) := by
  by_cases hend : getTagWireType tag = .endGroup
  · have htagged : Wire.tagged (Wire.skipGroup s.allowance) (fun _ => false) tag.toNat bytes =
        .close (getTagFieldNumber tag) bytes := by
      rw [getTagWireType_eq] at hend
      rw [Wire.tagged, hend, getTagFieldNumber_eq]
    rw [if_pos hend, htagged]
    simp only
    by_cases hsame : getTagFieldNumber tag = number
    · rw [if_pos hsame]
      simp only [SkipsGroup, pure_eq_ok]
      rw [← hsame, ← endGroup_of_wireType hend]
    · rw [if_neg hsame]
      refine .inr ⟨_, rfl, ?_⟩
      intro he
      simp only at he
      rw [endGroup_of_wireType hend] at he
      exact hsame (makeTag_endGroup_inj (getTagFieldNumber_lt tag) hnumber he)
  · have hspec := hfield _ tag (hs.move (Nat.le_of_lt hlen) tag) (by dsimp only; omega)
    have hallow : CodedInputStream.allowance { s with buffer := bytes, lastTag := tag } = s.allowance := rfl
    have hle : ∀ rest,
        (Wire.tagged (Wire.skipGroup s.allowance) (fun _ => false) tag.toNat bytes).rest = some rest →
          rest.length ≤ bytes.length :=
      fun rest h => Wire.tagged_length_le (fun _ _ _ h => Wire.skipGroup_length_lt h) h
    have hclose : ∀ k rest,
        Wire.tagged (Wire.skipGroup s.allowance) (fun _ => false) tag.toNat bytes ≠ .close k rest := by
      intro k rest he
      rw [getTagWireType_eq] at hend
      unfold Wire.tagged at he
      split at he
      · exact hend ‹_›
      · split at he <;> cases he
      · split at he <;> cases he
    have hnext : ∀ rest, rest.length ≤ bytes.length → ∀ t : UInt32,
        SkipsGroup s number (skipMessageIn n { s with buffer := rest, lastTag := t })
          (Wire.skipGroup (s.allowance + 1) number rest) := by
      intro rest hrest t
      exact hmessage _ number (hs.move (by omega) t) hnumber (by dsimp only; omega)
    rw [if_neg hend]
    rw [hallow] at hspec
    cases hitem : Wire.tagged (Wire.skipGroup s.allowance) (fun _ => false) tag.toNat bytes with
    | close k rest => exact absurd hitem (hclose k rest)
    | skipped rest | record q rest =>
      rw [hitem] at hspec
      obtain ⟨t, ht⟩ := hspec
      rw [ht]
      exact hnext rest (hle rest (by rw [hitem]; rfl)) t
    | finished | stopped | failed =>
      rw [hitem] at hspec
      rw [hspec]
      exact .inl rfl

theorem skipMessage_turn {n : Nat} (hfield : FieldSpec n) (hmessage : MessageSpec n) : MessageSpec (n + 1) := by
  intro s number hs hnumber hn
  rw [skipMessageIn, Wire.skipGroup_succ_eq]
  unfold Wire.item
  by_cases hnil : s.buffer = []
  · rw [CodedInputStream.readTag_finished hs hnil, if_pos hnil]
    exact .inr ⟨_, rfl, makeTag_endGroup_ne_zero hnumber⟩
  · rw [if_neg hnil]
    cases hread : Varint.read 10 s.buffer with
    | none =>
      obtain ⟨left, hleft⟩ := CodedInputStream.readTag_none hnil hread
      rw [hleft]
      exact .inr ⟨_, rfl, makeTag_endGroup_ne_zero hnumber⟩
    | some r =>
      have hr : Varint.read 10 s.buffer = some (r.1, r.2) := hread
      have htag : (UInt32.ofNat r.1).toNat = r.1 % 2 ^ 32 := UInt32.toNat_ofNat'
      rw [CodedInputStream.readTag_some hr]
      simp only [ok_bind]
      by_cases hzero : UInt32.ofNat r.1 = 0
      · have hmod : r.1 % 2 ^ 32 = 0 := by rw [← htag, hzero]; rfl
        rw [if_pos hzero, if_pos hmod, hzero]
        exact .inr ⟨_, rfl, makeTag_endGroup_ne_zero hnumber⟩
      · have hmod : r.1 % 2 ^ 32 ≠ 0 := fun he => hzero (UInt32.toNat_inj.1 (htag.trans he))
        rw [if_neg hzero, if_neg hmod, ← htag]
        exact skipMessage_tag hfield hmessage hs hnumber (Varint.read_length_lt hr) (by omega)

/-- Both calls, by the number of calls and turns. -/
theorem skip_spec (n : Nat) : FieldSpec n ∧ MessageSpec n := by
  induction n with
  | zero => exact ⟨fun s tag hs h => by omega, fun s number hs hn h => by omega⟩
  | succ n ih =>
    refine ⟨?_, skipMessage_turn ih.1 ih.2⟩
    intro s tag hs hn
    rw [past_tagged]
    by_cases hstart : getTagWireType tag = .startGroup
    · rw [if_pos hstart]
      exact skipField_group ih.2 hs hstart (by omega)
    · rw [if_neg hstart]
      exact skipField_value hs hstart

theorem skipField_spec {s : CodedInputStream} (hs : s.Ready) (tag : UInt32) :
    Skips s (skipField tag s) (Wire.tagged (Wire.skipGroup s.allowance) (fun _ => false) tag.toNat s.buffer).past :=
  (skip_spec _).1 s tag hs (Nat.le_refl _)

end Protobuf

end GameServer
