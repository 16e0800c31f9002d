import GameServer.Lib.Entries
import Mathlib.Algebra.Order.Group.Multiset
import Mathlib.Data.Multiset.Filter
/-!
# Items in custody

The items of a list are numbered by their place in it. Each one is held in one
place until it is done. `held` says which items are held where, `fits` what an
item held in a place looks like, and `done` what an item that is held nowhere
looks like. An item is taken on, moves, or is given up; no two are mixed up.
-/

namespace Lib

section
variable {α β : Type*} {l : List α} {a : α} {i : Nat}

/-- What a list holds, entry `i` first. -/
theorem coe_filterMap_erase (f : α → Option β) (h : l[i]? = some a) :
    (l.filterMap f : Multiset β) = (f a).toList + ((l.eraseIdx i).filterMap f : List β) := by
  obtain ⟨hi, rfl⟩ := List.getElem?_eq_some_iff.1 h
  have hp := (List.getElem_cons_eraseIdx_perm hi).symm.filterMap f
  rw [Multiset.coe_add, Multiset.coe_eq_coe]
  refine hp.trans (List.Perm.of_eq ?_)
  rw [List.filterMap_cons]
  cases f l[i] <;> rfl

theorem coe_filterMap_set (f : α → Option β) (h : l[i]? = some a) (b : α) :
    ((l.set i b).filterMap f : Multiset β) = (f b).toList + ((l.eraseIdx i).filterMap f : List β) := by
  have hi : (l.set i b)[i]? = some b := List.getElem?_set_self (List.getElem?_eq_some_iff.1 h).1
  rw [coe_filterMap_erase f hi, List.eraseIdx_set_eq]

end

structure Custody {α κ : Type*} (fits : κ → α → Prop) (done : α → Prop) (items : List α)
    (held : Multiset (Nat × κ)) : Prop where
  once : (held.map Prod.fst).Nodup
  fits : ∀ j k, (j, k) ∈ held → ∃ a, items[j]? = some a ∧ fits k a
  held_or_done : ∀ (j : Nat) (a : α), items[j]? = some a → (∃ k, (j, k) ∈ held) ∨ done a

namespace Custody

variable {α κ : Type*} {fits : κ → α → Prop} {done : α → Prop} {items : List α} {held rest : Multiset (Nat × κ)}
  {a a' : α} {j : Nat} {k k' : κ}

theorem nil : Custody fits done ([] : List α) 0 where
  once := Multiset.nodup_zero
  fits _ _ h := absurd h (Multiset.notMem_zero _)
  held_or_done _ _ h := by simp at h

theorem add (h : Custody fits done items held) (hf : fits k a) :
    Custody fits done (items ++ [a]) ((items.length, k) ::ₘ held) where
  once := by
    rw [Multiset.map_cons, Multiset.nodup_cons]
    refine ⟨fun hm => ?_, h.once⟩
    obtain ⟨⟨j, k'⟩, hm, hj⟩ := Multiset.mem_map.1 hm
    obtain ⟨a', ha, -⟩ := h.fits j k' hm
    have hlt := (List.getElem?_eq_some_iff.1 ha).1
    exact absurd hj (Nat.ne_of_lt hlt)
  fits i k' hm := by
    rcases Multiset.mem_cons.1 hm with he | hm
    · cases he
      exact ⟨a, by simp, hf⟩
    · obtain ⟨a', ha, hf'⟩ := h.fits i k' hm
      exact ⟨a', by rw [List.getElem?_append_left (List.getElem?_eq_some_iff.1 ha).1, ha], hf'⟩
  held_or_done i a' ha := by
    rcases getElem?_concat ha with ha | ⟨rfl, -⟩
    · exact (h.held_or_done i a' ha).imp_left fun ⟨k', hm⟩ => ⟨k', Multiset.mem_cons_of_mem hm⟩
    · exact .inl ⟨k, Multiset.mem_cons_self _ _⟩

/-- Only one place holds an item. -/
theorem eq_of_mem (h : Custody fits done items ((j, k) ::ₘ rest)) : ∀ k', (j, k') ∉ rest := by
  intro k' hm
  have hn := h.once
  rw [Multiset.map_cons, Multiset.nodup_cons] at hn
  exact hn.1 (Multiset.mem_map.2 ⟨(j, k'), hm, rfl⟩)

theorem head (h : Custody fits done items ((j, k) ::ₘ rest)) : ∃ a, items[j]? = some a ∧ fits k a :=
  h.fits j k (Multiset.mem_cons_self _ _)

theorem fits_head (h : Custody fits done items ((j, k) ::ₘ rest)) (ha : items[j]? = some a) : fits k a := by
  obtain ⟨a₁, ha₁, hf⟩ := h.head
  cases ha.symm.trans ha₁
  exact hf

/-- The item may change as it leaves the place that holds it. -/
theorem retire (h : Custody fits done items ((j, k) ::ₘ rest)) (hd : done a') :
    Custody fits done (items.set j a') rest where
  once := by
    have hn := h.once
    rw [Multiset.map_cons, Multiset.nodup_cons] at hn
    exact hn.2
  fits i k' hm := by
    have hne : j ≠ i := fun he => h.eq_of_mem k' (he ▸ hm)
    obtain ⟨a, ha, hf⟩ := h.fits i k' (Multiset.mem_cons_of_mem hm)
    exact ⟨a, by rw [List.getElem?_set_ne hne, ha], hf⟩
  held_or_done i a ha := by
    by_cases hi : j = i
    · rw [← hi, List.getElem?_set_self'] at ha
      obtain ⟨_, -, rfl⟩ := Option.map_eq_some_iff.1 ha
      exact .inr hd
    · rw [List.getElem?_set_ne hi] at ha
      refine (h.held_or_done i a ha).imp_left fun ⟨k', hm⟩ => ⟨k', ?_⟩
      rcases Multiset.mem_cons.1 hm with he | hm
      · cases he
        exact absurd rfl hi
      · exact hm

theorem move (h : Custody fits done items ((j, k) ::ₘ rest)) (hf : fits k' a') :
    Custody fits done (items.set j a') ((j, k') ::ₘ rest) where
  once := by
    have hn := h.once
    rw [Multiset.map_cons] at hn ⊢
    exact hn
  fits i k₁ hm := by
    rcases Multiset.mem_cons.1 hm with he | hm
    · cases he
      obtain ⟨a, ha, -⟩ := h.head
      exact ⟨a', by rw [List.getElem?_set_self (List.getElem?_eq_some_iff.1 ha).1], hf⟩
    · have hne : j ≠ i := fun he => h.eq_of_mem k₁ (he ▸ hm)
      obtain ⟨a, ha, hf⟩ := h.fits i k₁ (Multiset.mem_cons_of_mem hm)
      exact ⟨a, by rw [List.getElem?_set_ne hne, ha], hf⟩
  held_or_done i a ha := by
    by_cases hi : j = i
    · exact .inl ⟨k', hi ▸ Multiset.mem_cons_self _ _⟩
    · rw [List.getElem?_set_ne hi] at ha
      refine (h.held_or_done i a ha).imp_left fun ⟨k₁, hm⟩ => ⟨k₁, ?_⟩
      rcases Multiset.mem_cons.1 hm with he | hm
      · cases he
        exact absurd rfl hi
      · exact Multiset.mem_cons_of_mem hm

end Custody

end Lib
