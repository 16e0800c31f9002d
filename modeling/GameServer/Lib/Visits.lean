import GameServer.Lib.Custody
/-!
# Who is where

Each element of a list may be at one place, in some capacity. `visits` are the
capacities of those that are at a place. An element that moves changes them there
alone.
-/

namespace Lib

variable {α ι κ : Type*} [DecidableEq ι] {f : α → Option (ι × κ)} {l : List α} {a b : α} {i : Nat} {x : ι} {k : κ}

/-- The capacity in which the element is at the place. -/
def visitAt (f : α → Option (ι × κ)) (x : ι) (a : α) : Option κ := (f a).bind fun p => if p.1 = x then some p.2 else none

def visits (f : α → Option (ι × κ)) (l : List α) (x : ι) : Multiset κ := (l.filterMap (visitAt f x) : List κ)

theorem visitAt_eq_some : visitAt f x a = some k ↔ f a = some (x, k) := by
  unfold visitAt
  rw [Option.bind_eq_some_iff]
  constructor
  · rintro ⟨⟨y, k'⟩, ha, h⟩
    split at h
    next hy =>
      cases h
      rw [ha, ← hy]
    · cases h
  · intro ha
    exact ⟨(x, k), ha, if_pos rfl⟩

theorem visitAt_of_ne (h : ∀ k, f a ≠ some (x, k)) : visitAt f x a = none :=
  Option.eq_none_iff_forall_ne_some.2 fun k hk => h k (visitAt_eq_some.1 hk)

theorem mem_visits : k ∈ visits f l x ↔ ∃ a ∈ l, f a = some (x, k) := by
  unfold visits
  simp only [Multiset.mem_coe, List.mem_filterMap, visitAt_eq_some]

theorem visits_erase (h : l[i]? = some a) (x : ι) : visits f l x = (visitAt f x a).toList + visits f (l.eraseIdx i) x :=
  coe_filterMap_erase _ h

theorem visits_set (h : l[i]? = some a) (b : α) (x : ι) :
    visits f (l.set i b) x = (visitAt f x b).toList + visits f (l.eraseIdx i) x :=
  coe_filterMap_set _ h b

theorem visits_concat (l : List α) (a : α) (x : ι) : visits f (l ++ [a]) x = (visitAt f x a).toList + visits f l x := by
  unfold visits
  rw [List.filterMap_append, ← Multiset.coe_add, add_comm]
  cases h : visitAt f x a <;> simp [h]

/-- The element that moves is at this place neither before nor after. -/
theorem visits_set_of_ne (h : l[i]? = some a) (ha : ∀ k, f a ≠ some (x, k)) (hb : ∀ k, f b ≠ some (x, k)) :
    visits f (l.set i b) x = visits f l x := by
  rw [visits_set h, visits_erase h, visitAt_of_ne ha, visitAt_of_ne hb]

end Lib
