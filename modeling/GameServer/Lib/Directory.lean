import Mathlib.Data.List.Basic
import Mathlib.Logic.Function.Basic
/-!
# A list with a directory

Keys in the order they came first, and a dictionary that finds each by its place.
-/

namespace Lib

/-- One more key adds itself if it is new. -/
theorem eraseDups_concat {κ : Type*} [DecidableEq κ] (l : List κ) (k : κ) :
    (l ++ [k]).eraseDups = if k ∈ l then l.eraseDups else l.eraseDups ++ [k] := by
  rw [List.eraseDups_append, List.removeAll, List.filter_singleton]
  by_cases hk : k ∈ l <;> simp [hk, List.eraseDups_cons]

namespace Directory

variable {κ : Type*} {dict : κ → Option Nat} {keys : List κ} {k : κ} {i : Nat}

/-- The dictionary finds each key at its place, and no other keys. -/
def InStep (dict : κ → Option Nat) (keys : List κ) : Prop :=
  ∀ (k : κ) (i : Nat), dict k = some i ↔ keys[i]? = some k

theorem inStep_nil : InStep (fun _ : κ => none) [] := by
  intro k i
  simp

theorem InStep.isSome_iff (h : InStep dict keys) (k : κ) : (dict k).isSome ↔ k ∈ keys := by
  rw [Option.isSome_iff_exists, List.mem_iff_getElem?]
  exact exists_congr (h k)

variable [DecidableEq κ]

theorem InStep.add (h : InStep dict keys) (hk : k ∉ keys) :
    InStep (Function.update dict k (some keys.length)) (keys ++ [k]) := by
  intro k' i
  have hlt : ∀ x, keys[i]? = some x → i < keys.length := fun x hx => (List.getElem?_eq_some_iff.1 hx).1
  rw [List.getElem?_append, List.getElem?_singleton]
  by_cases hk' : k' = k
  · subst hk'
    rw [Function.update_self]
    split
    next hi =>
      have hne : keys[i]? ≠ some k' := fun hx => hk (List.mem_of_getElem? hx)
      simp only [hne, iff_false, Option.some.injEq]
      omega
    next hi =>
      split <;> simp <;> omega
  · rw [Function.update_of_ne hk', h k' i]
    split
    · rfl
    next hi =>
      have hnone : keys[i]? = none := List.getElem?_eq_none (Nat.le_of_not_lt hi)
      rw [hnone]
      split <;> simp [Ne.symm hk']

end Directory

end Lib
