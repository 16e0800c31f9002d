import Mathlib.Data.List.Basic
import Mathlib.Data.List.Induction
/-!
# The last write of a field

Writes that each set one field of a record. After a list of them a field holds
what the last write of it has set, or what it held before.
-/

namespace Lib

section LastWrite

variable {σ υ φ : Type*} [DecidableEq φ] (field : υ → φ)

def lastWrite (f : φ) (l : List υ) : Option υ := (l.filter (field · = f)).getLast?

variable {field} {l : List υ} {f : φ} {apply : σ → υ → σ} {read : σ → φ → υ}

theorem lastWrite_append_singleton (u : υ) :
    lastWrite field f (l ++ [u]) = if field u = f then some u else lastWrite field f l := by
  unfold lastWrite
  rw [List.filter_append, List.filter_singleton]
  by_cases hu : field u = f <;> simp [hu]

/-- `read` gives for each field a write that sets what the record holds. -/
theorem read_foldl (h : ∀ s u f, read (apply s u) f = if field u = f then u else read s f) (s : σ) :
    read (l.foldl apply s) f = (lastWrite field f l).getD (read s f) := by
  induction l using List.reverseRecOn with
  | nil => rfl
  | append_singleton l u ih =>
    rw [List.foldl_append, lastWrite_append_singleton, List.foldl_cons, List.foldl_nil, h, ih]
    split <;> rfl

theorem mem_of_lastWrite {u : υ} (h : lastWrite field f l = some u) : u ∈ l ∧ field u = f := by
  have hm := List.mem_filter.1 (List.mem_of_getLast? h)
  exact ⟨hm.1, by simpa using hm.2⟩

/-- The only write of a field is the last one. -/
theorem lastWrite_of_count_le_one {u : υ} (hu : u ∈ l) (hc : (l.map field).count (field u) ≤ 1) :
    lastWrite field (field u) l = some u := by
  have hmem : u ∈ l.filter (field · = field u) := List.mem_filter.2 ⟨hu, by simp⟩
  have hlen : (l.filter (field · = field u)).length ≤ 1 := by
    rw [List.count, List.countP_map, List.countP_eq_length_filter] at hc
    exact hc
  obtain ⟨x, hx⟩ := List.length_eq_one_iff.1 (Nat.le_antisymm hlen (List.length_pos_of_mem hmem))
  rw [hx] at hmem
  unfold lastWrite
  rw [hx, List.mem_singleton.1 hmem]
  rfl

end LastWrite

end Lib
