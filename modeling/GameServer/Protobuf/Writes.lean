import GameServer.Protobuf.MessageLite
import GameServer.Protobuf.Skipping
/-!
# What each write does

Every write puts certain bytes behind what is written, as far as they fit, whether
it stores them directly or not. A varint is written in its shortest form by all of
the ways there are.
-/

namespace GameServer

namespace Protobuf

open Lib
open Lib.Wire (WireType)

/-! ## Bytes of varints -/

theorem or_128 {y : Nat} (h : y < 256) : y ||| 128 = y % 128 + 128 := by
  have hsplit : y = 128 * (y / 128) + y % 128 := (Nat.div_add_mod y 128).symm
  have hlow : ∀ i, 128 * i + y % 128 = 128 * i ||| y % 128 := fun i =>
    Nat.two_pow_add_eq_or_of_lt (i := 7) (Nat.mod_lt y (by decide)) i
  have hhigh : y / 128 = 0 ∨ y / 128 = 1 := by omega
  have hone : 128 * 1 + y % 128 = 128 ||| y % 128 := hlow 1
  rcases hhigh with h0 | h1
  · have : y = y % 128 := by omega
    rw [Nat.or_comm, this, ← hone]
    omega
  · rw [h1] at hsplit
    have hor : y = 128 ||| y % 128 := by omega
    rw [hor, Nat.or_comm, ← Nat.or_assoc, Nat.or_self, ← hone]
    omega

theorem or_0x80_toNat (x : UInt32) : (x ||| 0x80).toUInt8.toNat = x.toNat % 128 + 128 := by
  rw [UInt32.toNat_toUInt8, UInt32.toNat_or]
  show (_ ||| 128) % 2 ^ 8 = _
  rw [Nat.or_mod_two_pow]
  show x.toNat % 256 ||| 128 = _
  rw [or_128 (Nat.mod_lt _ (by decide))]
  omega

theorem and_0x7F_toNat (b : Byte) : (b &&& 0x7F).toNat = b.toNat % 128 := by
  rw [UInt8.toNat_and]
  exact Nat.and_two_pow_sub_one_eq_mod b.toNat 7

theorem or_0x80_byte (b : Byte) : (b &&& 0x7F ||| 0x80).toNat = b.toNat % 128 + 128 := by
  rw [UInt8.toNat_or, and_0x7F_toNat]
  show b.toNat % 128 ||| 128 = _
  rw [or_128 (by omega), Nat.mod_mod]

/-- The first `k` groups of seven bits, each with the top bit set. -/
def groups : Nat → Nat → List Byte
  | 0, _ => []
  | k + 1, n => UInt8.ofNat (n % 128 + 128) :: groups k (n / 128)

theorem take_groups {k l : Nat} (h : k ≤ l) (n : Nat) : (groups l n).take k = groups k n := by
  induction k generalizing l n with
  | zero => rfl
  | succ k ih =>
    obtain ⟨l, rfl⟩ : ∃ j, l = j + 1 := ⟨l - 1, by omega⟩
    simp only [groups, List.take_succ_cons, ih (show k ≤ l by omega)]

/-- A varint is its groups, with the top bit of the last one cleared. -/
theorem encode_eq_groups {k n : Nat} (hlt : n < 128 ^ (k + 1)) (hge : k = 0 ∨ 128 ^ k ≤ n) :
    Varint.encode n = (groups (k + 1) n).modify k (· &&& 0x7F) := by
  induction k generalizing n with
  | zero =>
    have hn : n < 128 := by simpa using hlt
    have hb : UInt8.ofNat (n % 128 + 128) &&& 0x7F = UInt8.ofNat n := by
      apply UInt8.toNat_inj.1
      rw [and_0x7F_toNat, UInt8.toNat_ofNat', UInt8.toNat_ofNat']
      omega
    rw [Varint.encode_small hn, ← hb]
    rfl
  | succ k ih =>
    have hpow : 128 ^ (k + 1) ≤ n := by
      rcases hge with h | h
      · cases h
      · exact h
    have hpos : 0 < 128 ^ k := Nat.pow_pos (by decide)
    have h128 : 128 ≤ n := by
      rw [Nat.pow_succ] at hpow
      omega
    have hdiv : n / 128 < 128 ^ (k + 1) := by
      rw [Nat.pow_succ 128 (k + 1)] at hlt
      exact Nat.div_lt_of_lt_mul (by omega)
    have hge' : 128 ^ k ≤ n / 128 := by
      rw [Nat.pow_succ] at hpow
      exact (Nat.le_div_iff_mul_le (by decide)).2 hpow
    rw [Varint.encode_large h128, ih hdiv (.inr hge')]
    exact (List.modify_succ_cons ..).symm

theorem byte_eq {x : UInt32} {n : Nat} (h : x.toNat % 128 = n % 128) :
    (x ||| 0x80).toUInt8 = UInt8.ofNat (n % 128 + 128) := by
  apply UInt8.toNat_inj.1
  rw [or_0x80_toNat, h, UInt8.toNat_ofNat']
  omega

theorem shiftRight_toNat {x : UInt32} {s : Nat} (hs : s < 32) :
    (x >>> UInt32.ofNat s).toNat = x.toNat / 2 ^ s := by
  rw [UInt32.toNat_shiftRight, UInt32.toNat_ofNat', Nat.mod_eq_of_lt (show s < 2 ^ 32 by omega), Nat.mod_eq_of_lt hs,
    Nat.shiftRight_eq_div_pow]

theorem toArray32_eq (value : UInt32) : writeVarint32FallbackToArrayInline value = Varint.encode value.toNat := by
  have hlt := value.toNat_lt
  have h7 : (value >>> 7).toNat = value.toNat / 2 ^ 7 := shiftRight_toNat (s := 7) (by decide)
  have h14 : (value >>> 14).toNat = value.toNat / 2 ^ 14 := shiftRight_toNat (s := 14) (by decide)
  have h21 : (value >>> 21).toNat = value.toNat / 2 ^ 21 := shiftRight_toNat (s := 21) (by decide)
  have h28 : (value >>> 28).toNat = value.toNat / 2 ^ 28 := shiftRight_toNat (s := 28) (by decide)
  have b0 := byte_eq (x := value) (n := value.toNat) rfl
  have b1 := byte_eq (x := value >>> 7) (n := value.toNat / 128) (by omega)
  have b2 := byte_eq (x := value >>> 14) (n := value.toNat / 128 / 128) (by omega)
  have b3 := byte_eq (x := value >>> 21) (n := value.toNat / 128 / 128 / 128) (by omega)
  have c1 : value ≥ 0x80 ↔ 128 ≤ value.toNat := Iff.rfl
  have c2 : value ≥ 0x4000 ↔ 128 ^ 2 ≤ value.toNat := Iff.rfl
  have c3 : value ≥ 0x200000 ↔ 128 ^ 3 ≤ value.toNat := Iff.rfl
  have c4 : value ≥ 0x10000000 ↔ 128 ^ 4 ≤ value.toNat := Iff.rfl
  simp only [writeVarint32FallbackToArrayInline, c1, c2, c3, c4]
  by_cases d1 : 128 ≤ value.toNat
  · rw [if_pos d1]
    by_cases d2 : 128 ^ 2 ≤ value.toNat
    · rw [if_pos d2]
      by_cases d3 : 128 ^ 3 ≤ value.toNat
      · rw [if_pos d3]
        by_cases d4 : 128 ^ 4 ≤ value.toNat
        · have hlast : (value >>> 28).toUInt8 = UInt8.ofNat (value.toNat / 128 / 128 / 128 / 128) := by
            apply UInt8.toNat_inj.1
            rw [UInt32.toNat_toUInt8, h28, UInt8.toNat_ofNat']
            omega
          rw [if_pos d4, Varint.encode_large d1, Varint.encode_large (by omega), Varint.encode_large (by omega),
            Varint.encode_large (by omega), Varint.encode_small (by omega), b0, b1, b2, b3, hlast]
        · rw [if_neg d4, encode_eq_groups (k := 3) (by omega) (.inr d3), b0, b1, b2, b3]
          rfl
      · rw [if_neg d3, encode_eq_groups (k := 2) (by omega) (.inr d2), b0, b1, b2]
        rfl
    · rw [if_neg d2, encode_eq_groups (k := 1) (by omega) (.inr (by omega)), b0, b1]
      rfl
  · rw [if_neg d1, encode_eq_groups (k := 0) (by omega) (.inl rfl), b0]
    rfl

theorem varint64Size_eq {n : Nat} (h : n < 2 ^ 64) {part0 part1 part2 : UInt32} (h0 : part0.toNat = n % 2 ^ 32)
    (h1 : part1.toNat = n / 2 ^ 28 % 2 ^ 32) (h2 : part2.toNat = n / 2 ^ 56) :
    ∃ k, varint64Size part0 part1 part2 = k + 1 ∧ k < 10 ∧ n < 128 ^ (k + 1) ∧ (k = 0 ∨ 128 ^ k ≤ n) := by
  have z1 : part1 = 0 ↔ n / 2 ^ 28 % 2 ^ 32 = 0 := by rw [← UInt32.toNat_inj, h1]; rfl
  have z2 : part2 = 0 ↔ n / 2 ^ 56 = 0 := by rw [← UInt32.toNat_inj, h2]; rfl
  have c : ∀ (x : UInt32), (x < 0x80 ↔ x.toNat < 128) ∧ (x < 0x4000 ↔ x.toNat < 16384) ∧
      (x < 0x200000 ↔ x.toNat < 2097152) := fun x => ⟨Iff.rfl, Iff.rfl, Iff.rfl⟩
  simp only [varint64Size, z1, z2, c, h0, h1, h2]
  split
  · split
    · split
      · split
        · exact ⟨0, rfl, by decide, by omega, .inl rfl⟩
        · exact ⟨1, rfl, by decide, by omega, .inr (by omega)⟩
      · split
        · exact ⟨2, rfl, by decide, by omega, .inr (by omega)⟩
        · exact ⟨3, rfl, by decide, by omega, .inr (by omega)⟩
    · split
      · split
        · exact ⟨4, rfl, by decide, by omega, .inr (by omega)⟩
        · exact ⟨5, rfl, by decide, by omega, .inr (by omega)⟩
      · split
        · exact ⟨6, rfl, by decide, by omega, .inr (by omega)⟩
        · exact ⟨7, rfl, by decide, by omega, .inr (by omega)⟩
  · split
    · exact ⟨8, rfl, by decide, by omega, .inr (by omega)⟩
    · exact ⟨9, rfl, by decide, by omega, .inr (by omega)⟩

theorem toArray64_eq (value : UInt64) : writeVarint64ToArrayInline value = Varint.encode value.toNat := by
  have hlt := value.toNat_lt
  have hshift : ∀ s, s < 64 → (value >>> UInt64.ofNat s).toUInt32.toNat = value.toNat / 2 ^ s % 2 ^ 32 := by
    intro s hs
    rw [UInt64.toNat_toUInt32, UInt64.toNat_shiftRight, UInt64.toNat_ofNat',
      Nat.mod_eq_of_lt (show s < 2 ^ 64 by omega), Nat.mod_eq_of_lt hs, Nat.shiftRight_eq_div_pow]
  have h0 : value.toUInt32.toNat = value.toNat % 2 ^ 32 := UInt64.toNat_toUInt32 value
  have h1 : (value >>> 28).toUInt32.toNat = value.toNat / 2 ^ 28 % 2 ^ 32 := hshift 28 (by decide)
  have h2 : (value >>> 56).toUInt32.toNat = value.toNat / 2 ^ 56 := by
    have : (value >>> 56).toUInt32.toNat = value.toNat / 2 ^ 56 % 2 ^ 32 := hshift 56 (by decide)
    omega
  obtain ⟨k, hsize, hk, hup, hlow⟩ := varint64Size_eq hlt h0 h1 h2
  have piece : ∀ (x : UInt32) (m : Nat), x.toNat % 2 ^ 28 = m % 2 ^ 28 →
      (x ||| 0x80).toUInt8 = UInt8.ofNat (m % 128 + 128) ∧
      (x >>> 7 ||| 0x80).toUInt8 = UInt8.ofNat (m / 128 % 128 + 128) ∧
      (x >>> 14 ||| 0x80).toUInt8 = UInt8.ofNat (m / 128 / 128 % 128 + 128) ∧
      (x >>> 21 ||| 0x80).toUInt8 = UInt8.ofNat (m / 128 / 128 / 128 % 128 + 128) := by
    intro x m hm
    have h7 : (x >>> 7).toNat = x.toNat / 2 ^ 7 := shiftRight_toNat (s := 7) (by decide)
    have h14 : (x >>> 14).toNat = x.toNat / 2 ^ 14 := shiftRight_toNat (s := 14) (by decide)
    have h21 : (x >>> 21).toNat = x.toNat / 2 ^ 21 := shiftRight_toNat (s := 21) (by decide)
    exact ⟨byte_eq (by omega), byte_eq (by omega), byte_eq (by omega), byte_eq (by omega)⟩
  obtain ⟨p0, p1, p2, p3⟩ := piece value.toUInt32 value.toNat (by omega)
  obtain ⟨p4, p5, p6, p7⟩ := piece (value >>> 28).toUInt32 (value.toNat / 128 / 128 / 128 / 128) (by omega)
  obtain ⟨p8, p9, -, -⟩ := piece (value >>> 56).toUInt32
    (value.toNat / 128 / 128 / 128 / 128 / 128 / 128 / 128 / 128) (by omega)
  have htarget : [(value.toUInt32 ||| 0x80).toUInt8, (value.toUInt32 >>> 7 ||| 0x80).toUInt8,
      (value.toUInt32 >>> 14 ||| 0x80).toUInt8, (value.toUInt32 >>> 21 ||| 0x80).toUInt8,
      ((value >>> 28).toUInt32 ||| 0x80).toUInt8, ((value >>> 28).toUInt32 >>> 7 ||| 0x80).toUInt8,
      ((value >>> 28).toUInt32 >>> 14 ||| 0x80).toUInt8, ((value >>> 28).toUInt32 >>> 21 ||| 0x80).toUInt8,
      ((value >>> 56).toUInt32 ||| 0x80).toUInt8, ((value >>> 56).toUInt32 >>> 7 ||| 0x80).toUInt8] =
        groups 10 value.toNat := by
    rw [p0, p1, p2, p3, p4, p5, p6, p7, p8, p9]
    rfl
  simp only [writeVarint64ToArrayInline, htarget, hsize, Nat.add_sub_cancel]
  rw [take_groups (by omega), encode_eq_groups hup hlow]

/-- The loops write a varint that fits in the bytes they have. -/
theorem varintBytes32_eq {k : Nat} {value : UInt32} (h : (Varint.encode value.toNat).length ≤ k) :
    varintBytes32 k value = Varint.encode value.toNat := by
  induction k generalizing value with
  | zero =>
    have := Varint.length_encode_pos value.toNat
    omega
  | succ k ih =>
    have hbig : value > 0x7F ↔ 127 < value.toNat := Iff.rfl
    have hbyte : value.toUInt8.toNat = value.toNat % 256 := UInt32.toNat_toUInt8 value
    simp only [varintBytes32, hbig]
    by_cases hv : 127 < value.toNat
    · have h7 : (value >>> 7).toNat = value.toNat / 128 := shiftRight_toNat (s := 7) (by decide)
      have hfirst : value.toUInt8 &&& 0x7F ||| 0x80 = UInt8.ofNat (value.toNat % 128 + 128) := by
        apply UInt8.toNat_inj.1
        rw [or_0x80_byte, UInt8.toNat_ofNat', hbyte]
        omega
      rw [Varint.encode_large (by omega), List.length_cons] at h
      rw [if_pos hv, Varint.encode_large (by omega), hfirst, ih (by rw [h7]; omega), h7]
    · have hfirst : value.toUInt8 &&& 0x7F = UInt8.ofNat value.toNat := by
        apply UInt8.toNat_inj.1
        rw [and_0x7F_toNat, UInt8.toNat_ofNat', hbyte]
        omega
      rw [if_neg hv, Varint.encode_small (by omega), hfirst]

theorem varintBytes64_eq {k : Nat} {value : UInt64} (h : (Varint.encode value.toNat).length ≤ k) :
    varintBytes64 k value = Varint.encode value.toNat := by
  induction k generalizing value with
  | zero =>
    have := Varint.length_encode_pos value.toNat
    omega
  | succ k ih =>
    have hbig : value > 0x7F ↔ 127 < value.toNat := Iff.rfl
    have hbyte : value.toUInt8.toNat = value.toNat % 256 := UInt64.toNat_toUInt8 value
    simp only [varintBytes64, hbig]
    by_cases hv : 127 < value.toNat
    · have h7 : (value >>> 7).toNat = value.toNat / 128 := by
        rw [UInt64.toNat_shiftRight]
        exact Nat.shiftRight_eq_div_pow value.toNat 7
      have hfirst : value.toUInt8 &&& 0x7F ||| 0x80 = UInt8.ofNat (value.toNat % 128 + 128) := by
        apply UInt8.toNat_inj.1
        rw [or_0x80_byte, UInt8.toNat_ofNat', hbyte]
        omega
      rw [Varint.encode_large (by omega), List.length_cons] at h
      rw [if_pos hv, Varint.encode_large (by omega), hfirst, ih (by rw [h7]; omega), h7]
    · have hfirst : value.toUInt8 &&& 0x7F = UInt8.ofNat value.toNat := by
        apply UInt8.toNat_inj.1
        rw [and_0x7F_toNat, UInt8.toNat_ofNat', hbyte]
        omega
      rw [if_neg hv, Varint.encode_small (by omega), hfirst]

/-! ## Calls on a stream -/

namespace CodedOutputStream

theorem writeRaw_nil (s : CodedOutputStream) : s.writeRaw [] = s := by
  simp [writeRaw, store]

/-- What is lost of two writes is what is lost of one. -/
theorem writeRaw_append (s : CodedOutputStream) (a b : List Byte) :
    (s.writeRaw a).writeRaw b = s.writeRaw (a ++ b) := by
  by_cases ha : s.bufferSize < a.length
  · have hab : s.bufferSize < (a ++ b).length := by
      rw [List.length_append]
      omega
    have htake : (a ++ b).take s.bufferSize = a.take s.bufferSize := List.take_append_of_le_length (Nat.le_of_lt ha)
    rw [writeRaw, writeRaw, writeRaw, if_pos ha, if_pos hab, htake]
    cases b with
    | nil => simp [store]
    | cons x b => simp
  · have hstore : s.writeRaw a = s.store a := by rw [writeRaw, if_neg ha]
    have hlen : (a ++ b).length = a.length + b.length := List.length_append
    rw [hstore, writeRaw, writeRaw]
    by_cases hb : s.bufferSize < (a ++ b).length
    · have hb' : (s.store a).bufferSize < b.length := by
        simp only [store]
        omega
      have htake : (a ++ b).take s.bufferSize = a ++ b.take (s.bufferSize - a.length) := by
        rw [List.take_append, List.take_of_length_le (by omega)]
      rw [if_pos hb, if_pos hb', htake]
      simp only [store, List.append_assoc]
    · have hb' : ¬ (s.store a).bufferSize < b.length := by
        simp only [store]
        omega
      rw [if_neg hb, if_neg hb']
      simp only [store, List.append_assoc, hlen, Nat.sub_sub]

theorem store_eq {s : CodedOutputStream} {bytes : List Byte} (h : bytes.length ≤ s.bufferSize) :
    s.store bytes = s.writeRaw bytes := by
  rw [writeRaw, if_neg (by omega)]

theorem writeVarint32_eq (s : CodedOutputStream) (value : UInt32) :
    s.writeVarint32 value = s.writeRaw (Varint.encode value.toNat) := by
  have hlen : (Varint.encode value.toNat).length ≤ maxVarint32Bytes :=
    Varint.length_encode_le (Nat.lt_of_lt_of_le value.toNat_lt (by decide))
  rw [writeVarint32, toArray32_eq, varintBytes32_eq hlen]
  split
  · exact store_eq (by omega)
  · rfl

theorem writeVarint64_eq (s : CodedOutputStream) (value : UInt64) :
    s.writeVarint64 value = s.writeRaw (Varint.encode value.toNat) := by
  have hlen : (Varint.encode value.toNat).length ≤ maxVarintBytes :=
    Varint.length_encode_le (Nat.lt_of_lt_of_le value.toNat_lt (by decide))
  rw [writeVarint64, toArray64_eq, varintBytes64_eq hlen]
  split
  · exact store_eq (by omega)
  · rfl

end CodedOutputStream

/-- An `int32` travels as the 64 bits of its value. -/
def extended (value : Int32) : Nat := value.toInt64.toUInt64.toNat

theorem extended_lt (value : Int32) : extended value < 2 ^ 64 := UInt64.toNat_lt _

theorem extended_cases (value : Int32) :
    (value < 0 ∧ extended value = value.toUInt32.toNat + (2 ^ 64 - 2 ^ 32)) ∨
      (¬ value < 0 ∧ extended value = value.toUInt32.toNat) := by
  have hlt := value.toUInt32.toNat_lt
  have hsign : value < 0 ↔ 2 ^ 31 ≤ value.toUInt32.toNat := by
    rw [Int32.lt_iff_toInt_lt]
    show value.toBitVec.toInt < 0 ↔ 2 ^ 31 ≤ value.toBitVec.toNat
    rw [BitVec.toInt_eq_toNat_cond]
    have := value.toBitVec.isLt
    split <;> omega
  have hext : extended value = (value.toBitVec.signExtend 64).toNat := rfl
  have hmsb : value.toBitVec.msb = decide (2 ^ 31 ≤ value.toUInt32.toNat) := BitVec.msb_eq_decide _
  rw [hsign, hext, BitVec.toNat_signExtend, hmsb, BitVec.toNat_setWidth]
  show _ ∧ value.toUInt32.toNat % 2 ^ 64 + _ = _ ∨ _ ∧ value.toUInt32.toNat % 2 ^ 64 + _ = _
  by_cases h : 2 ^ 31 ≤ value.toUInt32.toNat
  · simp only [decide_eq_true h, if_true]
    omega
  · simp only [decide_eq_false h, Bool.false_eq_true, if_false]
    omega

/-- A reader keeps the last 32. -/
theorem extended_toInt32 (value : Int32) : (UInt32.ofNat (extended value)).toInt32 = value := by
  have hlast : UInt32.ofNat (extended value) = value.toUInt32 := by
    have hlt := value.toUInt32.toNat_lt
    apply UInt32.toNat_inj.1
    rw [UInt32.toNat_ofNat']
    rcases extended_cases value with ⟨-, h⟩ | ⟨-, h⟩ <;> omega
  rw [hlast]
  rfl

/-! ## Fields -/

/-- A piece of code that writes `bytes`, as far as they fit. -/
def Writes (write : CodedOutputStream → CodedOutputStream) (bytes : List Byte) : Prop :=
  ∀ output, write output = output.writeRaw bytes

theorem Writes.then {a b : CodedOutputStream → CodedOutputStream} {x y : List Byte} (ha : Writes a x)
    (hb : Writes b y) : Writes (fun output => b (a output)) (x ++ y) := by
  intro output
  show b (a output) = _
  rw [ha, hb, CodedOutputStream.writeRaw_append]

theorem writeTag_writes {number : Nat} (h : number < 2 ^ 29) (type : WireType) :
    Writes (writeTag number type) (Varint.encode (number * 8 + type.bits)) := by
  intro output
  rw [writeTag, CodedOutputStream.writeTag, CodedOutputStream.writeVarint32_eq, makeTag_toNat h]

theorem writeSigned_writes (value : Int32) :
    Writes (fun output => output.writeVarint32SignExtended value) (Varint.encode (extended value)) := by
  intro output
  simp only [CodedOutputStream.writeVarint32SignExtended]
  rcases extended_cases value with ⟨hneg, -⟩ | ⟨hneg, h⟩
  · rw [if_pos hneg, CodedOutputStream.writeVarint64_eq]
    rfl
  · rw [if_neg hneg, CodedOutputStream.writeVarint32_eq, h]

/-- How many bytes a value takes is found without writing it. -/
theorem varintSize32_eq (value : UInt32) : varintSize32 value = (Varint.encode value.toNat).length := by
  have hlt := value.toNat_lt
  have c1 : value < 0x80 ↔ value.toNat < 128 := Iff.rfl
  have c2 : value < 0x4000 ↔ value.toNat < 128 ^ 2 := Iff.rfl
  have c3 : value < 0x200000 ↔ value.toNat < 128 ^ 3 := Iff.rfl
  have c4 : value < 0x10000000 ↔ value.toNat < 128 ^ 4 := Iff.rfl
  simp only [varintSize32, varintSize32Fallback, c1, c2, c3, c4]
  by_cases d1 : value.toNat < 128
  · rw [if_pos d1, Varint.encode_small d1]
    rfl
  · rw [if_neg d1, if_neg d1]
    by_cases d2 : value.toNat < 128 ^ 2
    · rw [if_pos d2, Varint.length_encode_eq (k := 1) (by omega) d2]
    · rw [if_neg d2]
      by_cases d3 : value.toNat < 128 ^ 3
      · rw [if_pos d3, Varint.length_encode_eq (k := 2) (by omega) d3]
      · rw [if_neg d3]
        by_cases d4 : value.toNat < 128 ^ 4
        · rw [if_pos d4, Varint.length_encode_eq (k := 3) (by omega) d4]
        · rw [if_neg d4, Varint.length_encode_eq (k := 4) (by omega) (by omega)]

theorem int32Size_eq (value : Int32) : int32Size value = (Varint.encode (extended value)).length := by
  have hlt := value.toUInt32.toNat_lt
  rw [int32Size, varintSize32SignExtended]
  rcases extended_cases value with ⟨hneg, h⟩ | ⟨hneg, h⟩
  · rw [if_pos hneg, Varint.length_encode_eq (k := 9) (by omega) (by omega)]
  · rw [if_neg hneg, varintSize32_eq, h]

/-- All the ways of writing a varint write its shortest form, as many bytes as is found
beforehand, and an `int32` is read back from it. -/
theorem varint_writes (output : CodedOutputStream) :
    (∀ value : UInt32, output.writeVarint32 value = output.writeRaw (Varint.encode value.toNat) ∧
      varintSize32 value = (Varint.encode value.toNat).length) ∧
    (∀ value : UInt64, output.writeVarint64 value = output.writeRaw (Varint.encode value.toNat)) ∧
    ∀ value : Int32, output.writeVarint32SignExtended value = output.writeRaw (Varint.encode (extended value)) ∧
      varintSize32SignExtended value = (Varint.encode (extended value)).length ∧
      ∀ (input : CodedInputStream) (rest : List Byte), input.buffer = Varint.encode (extended value) ++ rest →
        readInt32 input = .ok (value, { input with buffer := rest }) := by
  refine ⟨fun value => ⟨output.writeVarint32_eq value, varintSize32_eq value⟩, output.writeVarint64_eq,
    fun value => ⟨writeSigned_writes value output, int32Size_eq value, fun input rest hbuffer => ?_⟩⟩
  have hlen : (Varint.encode (extended value)).length ≤ 10 :=
    Varint.length_encode_le (Nat.lt_of_lt_of_le (extended_lt value) (by decide))
  have hread : Varint.read 10 input.buffer = some (extended value, rest) := by
    rw [hbuffer, Varint.read_encode rest hlen]
  rw [readInt32, CodedInputStream.readVarint32_some hread]
  simp only [ok_bind, extended_toInt32, pure_eq_ok]

theorem littleEndianBytes_length (k n : Nat) : (littleEndianBytes k n).length = k := by
  induction k generalizing n with
  | zero => rfl
  | succ k ih => rw [littleEndianBytes, List.length_cons, ih]

theorem littleEndian_bytes {k n : Nat} (h : n < 256 ^ k) : littleEndian (littleEndianBytes k n) = n := by
  induction k generalizing n with
  | zero =>
    have : n = 0 := by simpa using h
    rw [this]
    rfl
  | succ k ih =>
    have hdiv : n / 256 < 256 ^ k := by
      rw [Nat.pow_succ] at h
      exact Nat.div_lt_of_lt_mul (by omega)
    have hb : (UInt8.ofNat n).toNat = n % 256 := UInt8.toNat_ofNat'
    rw [littleEndianBytes]
    show (UInt8.ofNat n).toNat + 256 * littleEndian (littleEndianBytes k (n / 256)) = n
    rw [ih hdiv, hb]
    omega

theorem writeLittleEndian32_writes (value : UInt32) :
    Writes (fun output => output.writeLittleEndian32 value) (littleEndianBytes 4 value.toNat) := by
  intro output
  simp only [CodedOutputStream.writeLittleEndian32]
  split
  case isTrue h => exact CodedOutputStream.store_eq (by rw [littleEndianBytes_length]; exact h)
  case isFalse => rfl

end Protobuf

end GameServer
