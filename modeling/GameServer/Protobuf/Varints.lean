import GameServer.Protobuf.CodedInputStream
import GameServer.Lib.Varint
import Mathlib.Data.Nat.Bitwise
/-!
# Reading varints

A varint is read by its first byte alone, by unrolled reads without checks, or byte
by byte. All three read the same number off the buffer, and none leaves it: the
unrolled reads are used only where the varint ends in time, or is too long anyway.
-/

namespace GameServer

namespace Protobuf

open Lib

/-! ## Bits as arithmetic -/

theorem lor_shiftLeft {a s w : Nat} (h : a < 2 ^ s) (x : Nat) (hs : s ≤ w) :
    a ||| (x <<< s) % 2 ^ w = (a + 2 ^ s * x) % 2 ^ w := by
  obtain ⟨k, rfl⟩ : ∃ k, w = s + k := ⟨w - s, by omega⟩
  have hdiv := Nat.div_add_mod x (2 ^ k)
  have hlt : x % 2 ^ k < 2 ^ k := Nat.mod_lt _ (Nat.two_pow_pos k)
  have hshift : (x <<< s) % 2 ^ (s + k) = 2 ^ s * (x % 2 ^ k) := by
    rw [Nat.shiftLeft_eq, Nat.pow_add, Nat.mul_comm x, Nat.mul_mod_mul_left]
  have hsum : a + 2 ^ s * x = a + 2 ^ s * (x % 2 ^ k) + 2 ^ (s + k) * (x / 2 ^ k) := by
    conv => lhs; rw [← hdiv]
    rw [Nat.pow_add, Nat.mul_add, Nat.mul_assoc]
    omega
  have hsmall : a + 2 ^ s * (x % 2 ^ k) < 2 ^ (s + k) := by
    have : 2 ^ s * (x % 2 ^ k + 1) ≤ 2 ^ s * 2 ^ k := Nat.mul_le_mul_left _ hlt
    rw [Nat.pow_add]
    rw [Nat.mul_add] at this
    omega
  rw [hshift, hsum, Nat.add_mul_mod_self_left, Nat.mod_eq_of_lt hsmall, Nat.or_comm,
    ← Nat.two_pow_add_eq_or_of_lt h, Nat.add_comm]

/-- A piece above `s` bits, in 32 bits. -/
theorem piece32 {a s : Nat} (h : a < 2 ^ s) (hs : s < 32) (x : UInt32) :
    UInt32.ofNat a ||| x <<< UInt32.ofNat s = UInt32.ofNat (a + 2 ^ s * x.toNat) := by
  have hpow : 2 ^ s ≤ 2 ^ 32 := Nat.pow_le_pow_right (by decide) (by omega)
  apply UInt32.toNat_inj.1
  rw [UInt32.toNat_or, UInt32.toNat_shiftLeft, UInt32.toNat_ofNat', UInt32.toNat_ofNat', UInt32.toNat_ofNat',
    Nat.mod_eq_of_lt (show a < 2 ^ 32 by omega), Nat.mod_eq_of_lt (show s < 2 ^ 32 by omega),
    Nat.mod_eq_of_lt hs, lor_shiftLeft h _ (by omega)]

/-- A piece above `s` bits, in 64 bits. -/
theorem piece64 {a s : Nat} (h : a < 2 ^ s) (hs : s < 64) (x : UInt64) :
    UInt64.ofNat a ||| x <<< UInt64.ofNat s = UInt64.ofNat (a + 2 ^ s * x.toNat) := by
  have hpow : 2 ^ s ≤ 2 ^ 64 := Nat.pow_le_pow_right (by decide) (by omega)
  apply UInt64.toNat_inj.1
  rw [UInt64.toNat_or, UInt64.toNat_shiftLeft, UInt64.toNat_ofNat', UInt64.toNat_ofNat', UInt64.toNat_ofNat',
    Nat.mod_eq_of_lt (show a < 2 ^ 64 by omega), Nat.mod_eq_of_lt (show s < 2 ^ 64 by omega),
    Nat.mod_eq_of_lt hs, lor_shiftLeft h _ (by omega)]

theorem low7_toNat (b : Byte) : (b.toUInt32 &&& 0x7F).toNat = b.toNat % 128 := by
  rw [UInt32.toNat_and, UInt8.toNat_toUInt32]
  exact Nat.and_two_pow_sub_one_eq_mod b.toNat 7

theorem low7_toNat64 (b : Byte) : (b &&& 0x7F).toUInt64.toNat = b.toNat % 128 := by
  rw [UInt8.toNat_toUInt64, UInt8.toNat_and]
  exact Nat.and_two_pow_sub_one_eq_mod b.toNat 7

theorem top_clear_iff (b : Byte) : b &&& 0x80 = 0 ↔ b.toNat < 128 := by
  have hlt : b.toNat < 256 := b.toNat_lt
  have hand : (b &&& 0x80).toNat = (b.toNat.testBit 7).toNat * 2 ^ 7 := by
    rw [UInt8.toNat_and]
    exact Nat.and_two_pow b.toNat 7
  rw [Nat.testBit_eq_decide_div_mod_eq] at hand
  rw [← UInt8.toNat_inj, hand, UInt8.toNat_zero]
  by_cases h : b.toNat / 2 ^ 7 % 2 = 1
  · simp only [h, decide_true, Bool.toNat_true]
    omega
  · simp only [h, decide_false, Bool.toNat_false]
    omega

theorem lt_0x80_iff (b : Byte) : b < 0x80 ↔ b.toNat < 128 := Iff.rfl

/-! ## The unrolled reads -/

theorem putByte32_ofNat (i : Nat) (b : Byte) (a : Nat) (h : a < 128 ^ i) (hi : i < 10) :
    putByte32 i b (UInt32.ofNat a) = UInt32.ofNat (a + 128 ^ i * (b.toNat % 128)) := by
  have hlow := low7_toNat b
  have discard : ∀ x y : Nat, x % 2 ^ 32 = y % 2 ^ 32 → UInt32.ofNat x = UInt32.ofNat y := by
    intro x y e
    apply UInt32.toNat_inj.1
    rw [UInt32.toNat_ofNat', UInt32.toNat_ofNat', e]
  match i, hi with
  | 0, _ =>
    apply UInt32.toNat_inj.1
    simp only [putByte32, hlow, UInt32.toNat_ofNat']
    omega
  | 1, _ => exact hlow ▸ piece32 (s := 7) h (by decide) _
  | 2, _ => exact hlow ▸ piece32 (s := 14) h (by decide) _
  | 3, _ => exact hlow ▸ piece32 (s := 21) h (by decide) _
  | 4, _ =>
    refine (piece32 (s := 28) h (by decide) _).trans (discard _ _ ?_)
    rw [UInt8.toNat_toUInt32]
    omega
  | 5, _ | 6, _ | 7, _ | 8, _ | 9, _ => exact discard _ _ (by omega)

/-- The pieces that hold a number. -/
def Parts.ofNat (a : Nat) : Parts :=
  ⟨UInt32.ofNat (a % 2 ^ 28), UInt32.ofNat (a / 2 ^ 28 % 2 ^ 28), UInt32.ofNat (a / 2 ^ 56)⟩

theorem putByte64_ofNat (i : Nat) (b : Byte) (a : Nat) (h : a < 128 ^ i) (hi : i < 10) :
    putByte64 i b (Parts.ofNat a) = Parts.ofNat (a + 128 ^ i * (b.toNat % 128)) := by
  have hlow := low7_toNat b
  have hfirst : ∀ x, x = b.toNat % 128 → b.toUInt32 &&& 0x7F = UInt32.ofNat x := by
    intro x hx
    apply UInt32.toNat_inj.1
    rw [hlow, hx, UInt32.toNat_ofNat']
    omega
  have hput : ∀ s x y : Nat, x < 2 ^ s → s < 32 → y = x + 2 ^ s * (b.toNat % 128) →
      UInt32.ofNat x ||| (b.toUInt32 &&& 0x7F) <<< UInt32.ofNat s = UInt32.ofNat y := by
    intro s x y hx hs hy
    rw [piece32 hx hs, hlow, hy]
  match i, hi with
  | 0, _ =>
    simp only [putByte64, Parts.ofNat, Parts.mk.injEq]
    exact ⟨hfirst _ (by omega), congrArg _ (by omega), congrArg _ (by omega)⟩
  | 1, _ =>
    simp only [putByte64, Parts.ofNat, Parts.mk.injEq]
    exact ⟨hput 7 _ _ (by omega) (by decide) (by omega), congrArg _ (by omega), congrArg _ (by omega)⟩
  | 2, _ =>
    simp only [putByte64, Parts.ofNat, Parts.mk.injEq]
    exact ⟨hput 14 _ _ (by omega) (by decide) (by omega), congrArg _ (by omega), congrArg _ (by omega)⟩
  | 3, _ =>
    simp only [putByte64, Parts.ofNat, Parts.mk.injEq]
    exact ⟨hput 21 _ _ (by omega) (by decide) (by omega), congrArg _ (by omega), congrArg _ (by omega)⟩
  | 4, _ =>
    simp only [putByte64, Parts.ofNat, Parts.mk.injEq]
    exact ⟨congrArg _ (by omega), hfirst _ (by omega), congrArg _ (by omega)⟩
  | 5, _ =>
    simp only [putByte64, Parts.ofNat, Parts.mk.injEq]
    exact ⟨congrArg _ (by omega), hput 7 _ _ (by omega) (by decide) (by omega), congrArg _ (by omega)⟩
  | 6, _ =>
    simp only [putByte64, Parts.ofNat, Parts.mk.injEq]
    exact ⟨congrArg _ (by omega), hput 14 _ _ (by omega) (by decide) (by omega), congrArg _ (by omega)⟩
  | 7, _ =>
    simp only [putByte64, Parts.ofNat, Parts.mk.injEq]
    exact ⟨congrArg _ (by omega), hput 21 _ _ (by omega) (by decide) (by omega), congrArg _ (by omega)⟩
  | 8, _ =>
    simp only [putByte64, Parts.ofNat, Parts.mk.injEq]
    exact ⟨congrArg _ (by omega), congrArg _ (by omega), hfirst _ (by omega)⟩
  | 9, _ =>
    simp only [putByte64, Parts.ofNat, Parts.mk.injEq]
    exact ⟨congrArg _ (by omega), congrArg _ (by omega), hput 7 _ _ (by omega) (by decide) (by omega)⟩

theorem value_ofNat {a : Nat} (h : a < 128 ^ 10) : (Parts.ofNat a).value = UInt64.ofNat a := by
  have hwide : ∀ x, x < 2 ^ 32 → (UInt32.ofNat x).toUInt64.toNat = x := by
    intro x hx
    rw [UInt32.toNat_toUInt64, UInt32.toNat_ofNat', Nat.mod_eq_of_lt hx]
  have hlow : (UInt32.ofNat (a % 2 ^ 28)).toUInt64 = UInt64.ofNat (a % 2 ^ 28) := by
    apply UInt64.toNat_inj.1
    rw [hwide _ (by omega), UInt64.toNat_ofNat']
    omega
  have h1 := piece64 (s := 28) (show a % 2 ^ 28 < 2 ^ 28 by omega) (by decide) (UInt32.ofNat (a / 2 ^ 28 % 2 ^ 28)).toUInt64
  rw [hwide _ (by omega)] at h1
  have h2 := piece64 (s := 56) (show a % 2 ^ 28 + 2 ^ 28 * (a / 2 ^ 28 % 2 ^ 28) < 2 ^ 56 by omega) (by decide)
    (UInt32.ofNat (a / 2 ^ 56)).toUInt64
  rw [hwide _ (by omega)] at h2
  unfold Parts.value Parts.ofNat
  rw [hlow]
  refine (congrArg (· ||| _) h1).trans (h2.trans (congrArg _ ?_))
  omega

/-- Where the buffer is long enough, or ends a varint, the unrolled reads stay in it
and read what `Varint.read` does. -/
theorem unrolled_eq {α : Type} {put : Nat → Byte → α → α} (of : Nat → α)
    (hput : ∀ i b a, a < 128 ^ i → i < 10 → put i b (of a) = of (a + 128 ^ i * (b.toNat % 128)))
    {n i a : Nat} {buffer : List Byte} (after : List Byte) (hn : i + n = 10) (ha : a < 128 ^ i)
    (hfast : n ≤ buffer.length ∨ buffer.getLast?.any (· &&& 0x80 = 0)) :
    unrolled put i n (buffer ++ after) (of a) =
      match Varint.read n buffer with
      | none => .null
      | some (v, rest) => .done (of (a + 128 ^ i * v)) (i + (buffer.length - rest.length)) := by
  induction n generalizing i a buffer with
  | zero => rfl
  | succ n ih =>
    cases buffer with
    | nil => simp at hfast
    | cons b buffer =>
      have hb := hput i b a ha (by omega)
      simp only [List.cons_append, unrolled, Varint.read]
      by_cases htop : b &&& 0x80 = 0
      · have hlt := (top_clear_iff b).1 htop
        rw [if_pos htop, if_pos hlt, hb, Nat.mod_eq_of_lt hlt]
        simp
      · have hge := mt (top_clear_iff b).2 htop
        have hlt : a + 128 ^ i * (b.toNat % 128) < 128 ^ (i + 1) := by
          have : b.toNat % 128 + 1 ≤ 128 := Nat.mod_lt _ (by decide)
          have := Nat.mul_le_mul_left (128 ^ i) this
          rw [Nat.mul_add] at this
          rw [Nat.pow_succ]
          omega
        have hnext : n ≤ buffer.length ∨ buffer.getLast?.any (· &&& 0x80 = 0) := by
          rcases hfast with h | h
          · exact .inl (by simpa using h)
          · cases buffer with
            | nil => simp [htop] at h
            | cons c buffer => exact .inr (by simpa [List.getLast?_cons_cons] using h)
        rw [if_neg htop, if_neg hge, hb, ih (by omega) hlt hnext]
        cases hread : Varint.read n buffer with
        | none => rfl
        | some r =>
          have hlen := Varint.read_length_lt hread
          have hval : a + 128 ^ i * (b.toNat % 128) + 128 ^ (i + 1) * r.1 = a + 128 ^ i * (b.toNat % 128 + 128 * r.1) := by
            rw [Nat.pow_succ, Nat.mul_add, Nat.mul_assoc, Nat.add_assoc]
          simp only [hval, List.length_cons, FromArray.done.injEq, true_and]
          omega

/-! ## The loop -/

theorem varint64Slow_eq {n c a : Nat} (buffer : List Byte) (hn : c + n = 10) (ha : a < 128 ^ c) :
    match Varint.read n buffer with
    | none => (varint64Slow n (UInt64.ofNat c) (UInt64.ofNat a) buffer).1 = none
    | some (v, rest) =>
      varint64Slow n (UInt64.ofNat c) (UInt64.ofNat a) buffer = (some (UInt64.ofNat (a + 128 ^ c * v)), rest) := by
  induction n generalizing c a buffer with
  | zero => rfl
  | succ n ih =>
    cases buffer with
    | nil => rfl
    | cons b buffer =>
      have hpow : 128 ^ c = 2 ^ (7 * c) := by rw [Nat.pow_mul]
      have hshift : 7 * UInt64.ofNat c = UInt64.ofNat (7 * c) := by
        apply UInt64.toNat_inj.1
        rw [UInt64.toNat_mul, UInt64.toNat_ofNat', UInt64.toNat_ofNat']
        show 7 * _ % _ = _
        omega
      have hput := piece64 (a := a) (s := 7 * c) (hpow ▸ ha) (by omega) (b &&& 0x7F).toUInt64
      rw [low7_toNat64, ← hpow, ← hshift] at hput
      have hcount : UInt64.ofNat c + 1 = UInt64.ofNat (c + 1) := by
        apply UInt64.toNat_inj.1
        rw [UInt64.toNat_add, UInt64.toNat_ofNat', UInt64.toNat_ofNat']
        show (_ + 1) % _ = _
        omega
      simp only [varint64Slow, Varint.read, hput, hcount]
      by_cases htop : b &&& 0x80 = 0
      · have hlt := (top_clear_iff b).1 htop
        simp [htop, hlt, Nat.mod_eq_of_lt hlt]
      · have hge := mt (top_clear_iff b).2 htop
        have hlt : a + 128 ^ c * (b.toNat % 128) < 128 ^ (c + 1) := by
          have : b.toNat % 128 + 1 ≤ 128 := Nat.mod_lt _ (by decide)
          have := Nat.mul_le_mul_left (128 ^ c) this
          rw [Nat.mul_add] at this
          rw [Nat.pow_succ]
          omega
        have hnext := ih (c := c + 1) buffer (by omega) hlt
        simp only [htop, not_false_eq_true, ne_eq, if_true, hge, if_false]
        cases hread : Varint.read n buffer with
        | none => simpa [hread] using hnext
        | some r =>
          simp only [hread] at hnext ⊢
          rw [hnext]
          congr 3
          rw [Nat.pow_succ, Nat.mul_add, Nat.mul_assoc, Nat.add_assoc]

/-! ## The three ways agree -/

namespace CodedInputStream

theorem fast_iff (s : CodedInputStream) :
    s.fast = true ↔ 10 ≤ s.buffer.length ∨ s.buffer.getLast?.any (· &&& 0x80 = 0) := by
  rw [fast, Bool.or_eq_true, decide_eq_true_iff]
  rfl

theorem advance_read {s : CodedInputStream} {k v : Nat} {rest : List Byte}
    (h : Varint.read k s.buffer = some (v, rest)) :
    s.advance (s.buffer.length - rest.length) = .ok { s with buffer := rest } := by
  obtain ⟨front, hfront, -⟩ := Varint.read_some h
  have hlen : s.buffer.length - rest.length = front.length := by rw [hfront, List.length_append]; omega
  rw [hlen, advance, if_pos (by rw [bufferSize, hfront, List.length_append]; omega)]
  simp [hfront]

theorem readVarint32FromArray_eq {s : CodedInputStream} (h : s.fast = true) :
    readVarint32FromArray s.memory =
      match Varint.read 10 s.buffer with
      | none => .null
      | some (v, rest) => .done (UInt32.ofNat v) (s.buffer.length - rest.length) := by
  have hfast := s.fast_iff.1 h
  have := unrolled_eq UInt32.ofNat (i := 0) (a := 0) putByte32_ofNat s.afterLimit rfl (by simp) hfast
  simp only [Nat.pow_zero, Nat.one_mul, Nat.zero_add] at this
  exact this

theorem readVarint64Fallback_some {s : CodedInputStream} {v : Nat} {rest : List Byte}
    (h : Varint.read 10 s.buffer = some (v, rest)) :
    s.readVarint64Fallback = .ok (some (UInt64.ofNat v), { s with buffer := rest }) := by
  obtain ⟨front, -, -, hle, hlt⟩ := Varint.read_some h
  have hv : v < 128 ^ 10 := Nat.lt_of_lt_of_le hlt (Nat.pow_le_pow_right (by decide) hle)
  unfold readVarint64Fallback
  by_cases hf : s.fast = true
  · have hzero : (⟨0, 0, 0⟩ : Parts) = Parts.ofNat 0 := rfl
    rw [if_pos hf, hzero, memory, maxVarintBytes,
      unrolled_eq Parts.ofNat (i := 0) putByte64_ofNat s.afterLimit rfl (by simp) (s.fast_iff.1 hf), h]
    simp only [Nat.pow_zero, Nat.one_mul, Nat.zero_add, value_ofNat hv, advance_read h]
    rfl
  · have hslow := varint64Slow_eq (n := 10) (c := 0) (a := 0) s.buffer rfl (by simp)
    rw [h] at hslow
    simp only [Nat.pow_zero, Nat.one_mul, Nat.zero_add] at hslow
    have hzero : (0 : UInt64) = UInt64.ofNat 0 := rfl
    rw [if_neg hf, readVarint64Slow, maxVarintBytes, hzero, hslow]

theorem readVarint64Fallback_none {s : CodedInputStream} (h : Varint.read 10 s.buffer = none) :
    ∃ left, s.readVarint64Fallback = .ok (none, { s with buffer := left }) := by
  unfold readVarint64Fallback
  by_cases hf : s.fast = true
  · have hzero : (⟨0, 0, 0⟩ : Parts) = Parts.ofNat 0 := rfl
    rw [if_pos hf, hzero, memory, maxVarintBytes,
      unrolled_eq Parts.ofNat (i := 0) putByte64_ofNat s.afterLimit rfl (by simp) (s.fast_iff.1 hf), h]
    exact ⟨s.buffer, rfl⟩
  · have hslow := varint64Slow_eq (n := 10) (c := 0) (a := 0) s.buffer rfl (by simp)
    rw [h] at hslow
    have hzero : (0 : UInt64) = UInt64.ofNat 0 := rfl
    rw [if_neg hf, readVarint64Slow, maxVarintBytes, hzero]
    exact ⟨_, by rw [hslow]⟩

theorem toUInt64_eq (b : Byte) : b.toUInt64 = UInt64.ofNat b.toNat := by
  apply UInt64.toNat_inj.1
  rw [UInt8.toNat_toUInt64, UInt64.toNat_ofNat']
  have := b.toNat_lt
  omega

theorem toUInt32_eq (b : Byte) : b.toUInt32 = UInt32.ofNat b.toNat := by
  apply UInt32.toNat_inj.1
  rw [UInt8.toNat_toUInt32, UInt32.toNat_ofNat']
  have := b.toNat_lt
  omega

theorem read_oneByte {b : Byte} (h : b < 0x80) (buffer : List Byte) :
    Varint.read 10 (b :: buffer) = some (b.toNat, buffer) := by
  rw [Varint.read, if_pos ((lt_0x80_iff b).1 h)]

theorem readVarint64_some {s : CodedInputStream} {v : Nat} {rest : List Byte}
    (h : Varint.read 10 s.buffer = some (v, rest)) :
    s.readVarint64 = .ok (some (UInt64.ofNat v), { s with buffer := rest }) := by
  unfold readVarint64
  split
  case h_1 b buffer hb =>
    split
    case isTrue hlt =>
      rw [hb, read_oneByte hlt] at h
      simp only [Option.some.injEq, Prod.mk.injEq] at h
      rw [← h.1, ← h.2, toUInt64_eq]
    case isFalse => exact readVarint64Fallback_some h
  case h_2 => exact readVarint64Fallback_some h

theorem readVarint64_none {s : CodedInputStream} (h : Varint.read 10 s.buffer = none) :
    ∃ left, s.readVarint64 = .ok (none, { s with buffer := left }) := by
  unfold readVarint64
  split
  case h_1 b buffer hb =>
    split
    case isTrue hlt =>
      rw [hb, read_oneByte hlt] at h
      cases h
    case isFalse => exact readVarint64Fallback_none h
  case h_2 => exact readVarint64Fallback_none h

theorem toUInt32_ofNat (v : Nat) : (UInt64.ofNat v).toUInt32 = UInt32.ofNat v := by
  apply UInt32.toNat_inj.1
  rw [UInt64.toNat_toUInt32, UInt64.toNat_ofNat', UInt32.toNat_ofNat']
  omega

theorem readVarint32Fallback_some {s : CodedInputStream} {v : Nat} {rest : List Byte}
    (h : Varint.read 10 s.buffer = some (v, rest)) :
    s.readVarint32Fallback = .ok (UInt32.ofNat v, { s with buffer := rest }) := by
  unfold readVarint32Fallback
  by_cases hf : s.fast = true
  · rw [if_pos hf, readVarint32FromArray_eq hf, h]
    simp only [advance_read h]
    rfl
  · rw [if_neg hf, readVarint32Slow, readVarint64Fallback_some h, ← toUInt32_ofNat]
    rfl

theorem readVarint32Fallback_none {s : CodedInputStream} (h : Varint.read 10 s.buffer = none) :
    s.readVarint32Fallback = .error .returnedFalse := by
  unfold readVarint32Fallback
  by_cases hf : s.fast = true
  · rw [if_pos hf, readVarint32FromArray_eq hf, h]
  · obtain ⟨left, hleft⟩ := readVarint64Fallback_none h
    rw [if_neg hf, readVarint32Slow, hleft]
    rfl

theorem readVarint32_some {s : CodedInputStream} {v : Nat} {rest : List Byte}
    (h : Varint.read 10 s.buffer = some (v, rest)) :
    s.readVarint32 = .ok (UInt32.ofNat v, { s with buffer := rest }) := by
  unfold readVarint32
  split
  case h_1 b buffer hb =>
    split
    case isTrue hlt =>
      rw [hb, read_oneByte hlt] at h
      simp only [Option.some.injEq, Prod.mk.injEq] at h
      rw [← h.1, ← h.2, toUInt32_eq]
    case isFalse => exact readVarint32Fallback_some h
  case h_2 => exact readVarint32Fallback_some h

theorem readVarint32_none {s : CodedInputStream} (h : Varint.read 10 s.buffer = none) :
    s.readVarint32 = .error .returnedFalse := by
  unfold readVarint32
  split
  case h_1 b buffer hb =>
    split
    case isTrue hlt =>
      rw [hb, read_oneByte hlt] at h
      cases h
    case isFalse => exact readVarint32Fallback_none h
  case h_2 => exact readVarint32Fallback_none h

end CodedInputStream

end Protobuf

end GameServer
