import Mathlib.Data.List.Basic
/-!
# Spans of a flat memory

A memory is a list of cells. `slice` reads a span, `overwrite` stores one, and
`move` copies a span to another place, reading all of it first.
-/

namespace Lib

variable {β : Type*}

/-- The `n` cells from `off`. -/
def slice (m : List β) (off n : Nat) : List β := (m.drop off).take n

/-- `m` with `bs` stored from `off`. -/
def overwrite (m : List β) (off : Nat) (bs : List β) : List β :=
  m.take off ++ bs ++ m.drop (off + bs.length)

/-- `m` after copying the `n` cells at `src` to `dst`; the spans may overlap. -/
def move (m : List β) (dst src n : Nat) : List β := overwrite m dst (slice m src n)

@[simp] theorem slice_zero (m : List β) (off : Nat) : slice m off 0 = [] := by simp [slice]

theorem length_slice {m : List β} {off n : Nat} (h : off + n ≤ m.length) : (slice m off n).length = n := by
  simp only [slice, List.length_take, List.length_drop]; omega

theorem length_overwrite {m : List β} {off : Nat} {bs : List β} (h : off + bs.length ≤ m.length) :
    (overwrite m off bs).length = m.length := by
  simp only [overwrite, List.length_append, List.length_take, List.length_drop]; omega

theorem length_move {m : List β} {dst src n : Nat} (hd : dst + n ≤ m.length) (hs : src + n ≤ m.length) :
    (move m dst src n).length = m.length := by
  apply length_overwrite
  rw [length_slice hs]
  exact hd

theorem slice_add (m : List β) (off a b : Nat) : slice m off (a + b) = slice m off a ++ slice m (off + a) b := by
  simp only [slice, List.take_add, List.drop_drop]

theorem take_slice (m : List β) (off n k : Nat) (h : k ≤ n) : (slice m off n).take k = slice m off k := by
  simp only [slice, List.take_take, Nat.min_eq_left h]

theorem drop_slice (m : List β) (off n k : Nat) : (slice m off n).drop k = slice m (off + k) (n - k) := by
  simp only [slice, List.drop_take, List.drop_drop]

/-- A span that ends before the stored one is unchanged. -/
theorem slice_overwrite_before {m : List β} {off : Nat} {bs : List β} {p n : Nat} (hp : p + n ≤ off)
    (hoff : off ≤ m.length) : slice (overwrite m off bs) p n = slice m p n := by
  have hlen : p + n ≤ (m.take off).length := by rw [List.length_take]; omega
  have htake : ((m.take off).drop p).take n = (m.drop p).take n := by
    rw [List.drop_take, List.take_take, Nat.min_eq_left (by omega)]
  simp only [slice, overwrite, List.append_assoc]
  rw [List.drop_append_of_le_length (by omega), List.take_append_of_le_length (by rw [List.length_drop]; omega)]
  exact htake

/-- A span that starts after the stored one is unchanged. -/
theorem slice_overwrite_after {m : List β} {off : Nat} {bs : List β} {p n : Nat} (hp : off + bs.length ≤ p)
    (hoff : off ≤ m.length) : slice (overwrite m off bs) p n = slice m p n := by
  simp only [slice, overwrite]
  rw [List.drop_append, List.drop_eq_nil_of_le (by simp only [List.length_append, List.length_take]; omega),
    List.nil_append, List.drop_drop]
  congr 2
  simp only [List.length_append, List.length_take]
  omega

/-- What was stored is read back. -/
theorem slice_overwrite_self {m : List β} {off : Nat} {bs : List β} (hoff : off ≤ m.length) :
    slice (overwrite m off bs) off bs.length = bs := by
  have hlen : (m.take off).length = off := by rw [List.length_take]; omega
  simp only [slice, overwrite, List.append_assoc]
  rw [List.drop_append_of_le_length (by omega), List.drop_eq_nil_of_le (by omega), List.nil_append,
    List.take_left]

/-- A stored prefix is read back. -/
theorem slice_overwrite_prefix {m : List β} {off n : Nat} {bs : List β} (hoff : off ≤ m.length)
    (hn : n ≤ bs.length) : slice (overwrite m off bs) off n = bs.take n := by
  rw [← take_slice _ _ _ _ hn, slice_overwrite_self hoff]

/-- Storing `bs` over `ws` leaves the part of `ws` that `bs` does not cover. -/
theorem slice_overwrite_over {m : List β} {off : Nat} {bs ws : List β} (hoff : off ≤ m.length)
    (hw : slice m off ws.length = ws) :
    slice (overwrite m off bs) off (bs ++ ws.drop bs.length).length = bs ++ ws.drop bs.length := by
  rw [List.length_append, slice_add, slice_overwrite_self hoff, slice_overwrite_after (Nat.le_refl _) hoff,
    List.length_drop, ← drop_slice, hw]

theorem slice_move {m : List β} {dst src n : Nat} (hd : dst ≤ m.length) (hs : src + n ≤ m.length) :
    slice (move m dst src n) dst n = slice m src n := by
  have h : slice (move m dst src n) dst (slice m src n).length = _ := slice_overwrite_self hd
  rwa [length_slice hs] at h

@[simp] theorem move_self (m : List β) (n : Nat) : move m 0 0 n = m := by
  simp only [move, overwrite, slice, List.take_zero, List.drop_zero, List.nil_append, Nat.zero_add, List.length_take]
  rcases Nat.le_total n m.length with h | h
  · rw [Nat.min_eq_left h, List.take_append_drop]
  · rw [Nat.min_eq_right h, List.take_of_length_le h, List.drop_length, List.append_nil]

end Lib
