import Mathlib.Data.List.Basic
import Mathlib.Logic.Function.Basic
/-!
# A log in a ring of cells

Entries numbered from 0 are written into `size` cells, number `k` into cell
`k % size`, over what was there. The last `size` of them can be read back, from
the newest to the oldest.
-/

namespace Lib

namespace Cyclic

variable {α : Type*} {size : Nat} {cells : Nat → α} {l : List α}

/-- The cells hold the last `size` entries. -/
def Holds (size : Nat) (cells : Nat → α) (l : List α) : Prop :=
  ∀ k x, l[k]? = some x → l.length ≤ k + size → cells (k % size) = x

/-- `count` cells, backwards from the one before number `n`. -/
def backwards (size : Nat) (cells : Nat → α) (n count : Nat) : List α :=
  (List.range' 1 count).map fun i => cells ((n - i) % size)

/-- The last `size` entries, the newest first. -/
def latest (size : Nat) (l : List α) : List α := l.reverse.take size

@[simp] theorem length_latest : (latest size l).length = min size l.length := by
  simp [latest]

theorem holds_nil : Holds size cells [] := by
  intro k x hk
  cases hk

/-- The last `size` numbers have cells of their own. -/
theorem cell_inj {n j k : Nat} (hj : j < n) (hk : k < n) (hjn : n ≤ j + size) (hkn : n ≤ k + size)
    (h : j % size = k % size) : j = k := by
  have hjk : (j - k) % size = 0 := Nat.sub_mod_eq_zero_of_mod_eq h
  have hkj : (k - j) % size = 0 := Nat.sub_mod_eq_zero_of_mod_eq h.symm
  rw [Nat.mod_eq_of_lt (by omega)] at hjk hkj
  omega

theorem Holds.concat (h : Holds size cells l) (x : α) :
    Holds size (Function.update cells (l.length % size) x) (l ++ [x]) := by
  intro k y hk hle
  rw [List.length_append, List.length_singleton] at hle
  by_cases hkl : k = l.length
  · subst hkl
    rw [List.getElem?_concat_length] at hk
    cases hk
    exact Function.update_self ..
  · have hlt : k < l.length := by
      have := (List.getElem?_eq_some_iff.1 hk).1
      rw [List.length_append, List.length_singleton] at this
      omega
    rw [List.getElem?_append_left hlt] at hk
    rw [Function.update_of_ne, h k y hk (by omega)]
    intro hcell
    exact hkl (cell_inj (n := l.length + 1) (by omega) (by omega) hle (by omega) hcell)

/-- Reading back gives the newest entries. -/
theorem Holds.backwards_eq (h : Holds size cells l) {count : Nat} (hc : count ≤ size) (hl : count ≤ l.length) :
    backwards size cells l.length count = l.reverse.take count := by
  apply List.ext_getElem?
  intro i
  unfold backwards
  rw [List.getElem?_map, List.getElem?_take]
  by_cases hi : i < count
  · have hlt : l.length - (1 + i) < l.length := by omega
    have hx : l[l.length - (1 + i)]? = some l[l.length - (1 + i)] := List.getElem?_eq_getElem hlt
    rw [if_pos hi, List.getElem?_range' hi, Option.map_some, Nat.one_mul, List.getElem?_reverse (by omega),
      Nat.sub_sub, hx]
    exact congrArg some (h _ _ hx (by omega))
  · rw [if_neg hi, List.getElem?_eq_none (by simpa using hi)]
    rfl

/-- A number that is folded into the ring leads to the same cells, as far back as it goes. -/
theorem backwards_mod {n count : Nat} (hc : count ≤ n % size) :
    backwards size cells (n % size) count = backwards size cells n count := by
  apply List.map_congr_left
  intro i hi
  have hi := List.mem_range'_1.1 hi
  have hn : n - i = n % size - i + size * (n / size) := by
    have := Nat.mod_add_div n size
    omega
  rw [hn, Nat.add_mul_mod_self_left]

theorem latest_map {β : Type*} (f : α → β) : latest size (l.map f) = (latest size l).map f := by
  rw [latest, latest, ← List.map_reverse, List.map_take]

theorem Holds.backwards_all (h : Holds size cells l) :
    backwards size cells l.length (min size l.length) = latest size l := by
  rw [h.backwards_eq (Nat.min_le_left ..) (Nat.min_le_right ..), latest, List.take_eq_take_iff, List.length_reverse]
  omega

end Cyclic

end Lib
