import Mathlib.Algebra.Group.Nat.Defs
/-!
# Base-128 varints

Numbers as bytes of seven bits each, the least significant first, every byte but
the last with its top bit set. A reader takes more than the shortest form of a
number, so it comes with a limit on the bytes it reads.
-/

namespace Lib

namespace Varint

def encode (n : Nat) : List UInt8 :=
  if n < 128 then [UInt8.ofNat n] else UInt8.ofNat (n % 128 + 128) :: encode (n / 128)
termination_by n
decreasing_by omega

/-- The number at the front, if it ends within `k` bytes, and what follows it. -/
def read : Nat → List UInt8 → Option (Nat × List UInt8)
  | 0, _ => none
  | _ + 1, [] => none
  | k + 1, b :: bytes =>
    if b.toNat < 128 then some (b.toNat, bytes)
    else
      match read k bytes with
      | none => none
      | some (n, rest) => some (b.toNat % 128 + 128 * n, rest)

theorem encode_small {n : Nat} (h : n < 128) : encode n = [UInt8.ofNat n] := by
  rw [encode, if_pos h]

theorem encode_large {n : Nat} (h : 128 ≤ n) : encode n = UInt8.ofNat (n % 128 + 128) :: encode (n / 128) := by
  rw [encode, if_neg (by omega)]

theorem encode_ne_nil (n : Nat) : encode n ≠ [] := by
  rw [encode]
  split <;> simp

theorem length_encode_pos (n : Nat) : 0 < (encode n).length := List.length_pos_iff.2 (encode_ne_nil n)

/-- One byte for every seven bits. -/
theorem length_encode_le {k n : Nat} (h : n < 128 ^ (k + 1)) : (encode n).length ≤ k + 1 := by
  induction k generalizing n with
  | zero => rw [encode_small (by simpa using h)]; simp
  | succ k ih =>
    rcases Nat.lt_or_ge n 128 with hn | hn
    · simp [encode_small hn]
    · rw [encode_large hn, List.length_cons]
      have hdiv : n / 128 < 128 ^ (k + 1) := by
        rw [Nat.pow_succ] at h
        exact Nat.div_lt_of_lt_mul (by omega)
      have := ih hdiv
      omega

theorem length_encode_ge {k n : Nat} (h : 128 ^ k ≤ n) : k + 1 ≤ (encode n).length := by
  induction k generalizing n with
  | zero => exact length_encode_pos n
  | succ k ih =>
    have hpos : 0 < 128 ^ k := Nat.pow_pos (by decide)
    rw [Nat.pow_succ] at h
    rw [encode_large (by omega), List.length_cons]
    have := ih (n := n / 128) ((Nat.le_div_iff_mul_le (by decide)).2 h)
    omega

theorem length_encode_eq {k n : Nat} (hle : 128 ^ k ≤ n) (hlt : n < 128 ^ (k + 1)) :
    (encode n).length = k + 1 :=
  Nat.le_antisymm (length_encode_le hlt) (length_encode_ge hle)

/-- A number is read back from its shortest form, whatever follows it. -/
theorem read_encode {k n : Nat} (rest : List UInt8) (h : (encode n).length ≤ k) :
    read k (encode n ++ rest) = some (n, rest) := by
  induction k generalizing n with
  | zero => have := length_encode_pos n; omega
  | succ k ih =>
    rcases Nat.lt_or_ge n 128 with hn | hn
    · have hb : (UInt8.ofNat n).toNat = n := by rw [UInt8.toNat_ofNat']; omega
      simp [encode_small hn, read, hb, hn]
    · have hb : (UInt8.ofNat (n % 128 + 128)).toNat = n % 128 + 128 := by rw [UInt8.toNat_ofNat']; omega
      rw [encode_large hn, List.length_cons] at h
      rw [encode_large hn, List.cons_append, read, hb, if_neg (by omega), ih (by omega)]
      simp only [Nat.add_mod_right, Nat.mod_mod, Nat.mod_add_div]

/-- A read takes at least a byte, and at most `k`. -/
theorem read_some {k n : Nat} {bytes rest : List UInt8} (h : read k bytes = some (n, rest)) :
    ∃ front, bytes = front ++ rest ∧ 0 < front.length ∧ front.length ≤ k ∧ n < 128 ^ front.length := by
  induction k generalizing bytes n with
  | zero => simp [read] at h
  | succ k ih =>
    cases bytes with
    | nil => simp [read] at h
    | cons b bytes =>
      rw [read] at h
      split at h
      case isTrue hb =>
        simp only [Option.some.injEq, Prod.mk.injEq] at h
        obtain ⟨rfl, rfl⟩ := h
        exact ⟨[b], rfl, by simp, by simp, by simpa using hb⟩
      case isFalse =>
        split at h
        · simp at h
        case h_2 m rest' hread =>
          simp only [Option.some.injEq, Prod.mk.injEq] at h
          obtain ⟨rfl, rfl⟩ := h
          obtain ⟨front, rfl, hpos, hle, hlt⟩ := ih hread
          refine ⟨b :: front, rfl, by simp, by simpa using hle, ?_⟩
          rw [List.length_cons, Nat.pow_succ]
          omega

theorem read_length_lt {k n : Nat} {bytes rest : List UInt8} (h : read k bytes = some (n, rest)) :
    rest.length < bytes.length := by
  obtain ⟨front, rfl, hpos, -⟩ := read_some h
  rw [List.length_append]
  omega

/-- A read that ends is not changed by what is added behind. -/
theorem read_append {k n : Nat} {bytes rest : List UInt8} (more : List UInt8)
    (h : read k bytes = some (n, rest)) : read k (bytes ++ more) = some (n, rest ++ more) := by
  induction k generalizing bytes n with
  | zero => simp [read] at h
  | succ k ih =>
    cases bytes with
    | nil => simp [read] at h
    | cons b bytes =>
      simp only [read, List.cons_append] at h ⊢
      split at h
      case isTrue hb =>
        simp only [Option.some.injEq, Prod.mk.injEq] at h
        rw [if_pos hb, h.1, h.2]
      case isFalse hb =>
        rw [if_neg hb]
        split at h
        · simp at h
        case h_2 m rest' hread =>
          simp only [Option.some.injEq, Prod.mk.injEq] at h
          obtain ⟨rfl, rfl⟩ := h
          rw [ih hread]

end Varint

end Lib
