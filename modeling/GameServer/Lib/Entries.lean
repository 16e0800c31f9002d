import Mathlib.Data.List.Basic
/-!
# The entries of a list by their number

One entry is set to another value, or one is added at the end.
-/

namespace Lib

variable {α : Type*} {l : List α} {a b : α} {i : Nat}

theorem set_of_getElem? (h : l[i]? = some a) : l.set i a = l := by
  obtain ⟨hi, rfl⟩ := List.getElem?_eq_some_iff.1 h
  exact List.set_getElem_self hi

theorem getElem?_concat (h : (l ++ [a])[i]? = some b) : l[i]? = some b ∨ (i = l.length ∧ b = a) := by
  rw [List.getElem?_append] at h
  split at h
  · exact .inl h
  next hlt =>
    rw [List.getElem?_singleton] at h
    split at h
    next h0 => exact .inr ⟨by omega, (Option.some.inj h).symm⟩
    · cases h

theorem forall_set {P : α → Prop} (h : ∀ x ∈ l, P x) (hb : P b) : ∀ x ∈ l.set i b, P x := by
  intro x hx
  rcases List.mem_or_eq_of_mem_set hx with hx | rfl
  · exact h x hx
  · exact hb

theorem mem_set_of_ne (h : l[i]? = some a) (hb : b ∈ l) (hne : b ≠ a) {c : α} : b ∈ l.set i c := by
  obtain ⟨j, hj⟩ := List.getElem?_of_mem hb
  have hij : i ≠ j := by
    rintro rfl
    rw [h] at hj
    exact hne (Option.some.inj hj).symm
  exact List.mem_of_getElem? (by rw [List.getElem?_set_ne hij, hj])

theorem modify_concat (l : List α) (a : α) (f : α → α) : (l ++ [a]).modify l.length f = l ++ [f a] := by
  rw [List.modify_eq_take_drop]
  simp

/-- All entries, one number after the other. -/
theorem filterMap_range (l : List α) : (List.range l.length).filterMap (l[·]?) = l := by
  induction l with
  | nil => rfl
  | cons a l ih =>
    rw [List.length_cons, List.range_succ_eq_map, List.filterMap_cons, List.filterMap_map]
    exact congrArg (a :: ·) ih

end Lib
