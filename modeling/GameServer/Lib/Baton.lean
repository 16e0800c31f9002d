import Mathlib.Algebra.Order.Group.Multiset
import Mathlib.Data.Multiset.Count
/-!
# One party at a time

Parties that share a state. A party that is `live` may still read or change it;
the others are done with it, whatever they have left to do. `ok s p` says that
what party `p` has left to do goes well from state `s`. Where one party is live at
most, it may step without a look at the others.
-/

namespace Lib

/-- The image of a list, entry `i` first. -/
theorem coe_map_erase {α β : Type*} {l : List α} {a : α} {i : Nat} (f : α → β) (h : l[i]? = some a) :
    (l.map f : Multiset β) = f a ::ₘ ((l.eraseIdx i).map f : List β) := by
  obtain ⟨hi, rfl⟩ := List.getElem?_eq_some_iff.1 h
  rw [Multiset.cons_coe, Multiset.coe_eq_coe, ← List.map_cons]
  exact (List.getElem_cons_eraseIdx_perm hi).symm.map f

theorem coe_map_set {α β : Type*} {l : List α} {a : α} {i : Nat} (f : α → β) (h : l[i]? = some a) (b : α) :
    ((l.set i b).map f : Multiset β) = f b ::ₘ ((l.eraseIdx i).map f : List β) := by
  have hi : (l.set i b)[i]? = some b := List.getElem?_set_self (List.getElem?_eq_some_iff.1 h).1
  rw [coe_map_erase f hi, List.eraseIdx_set_eq]

theorem coe_map_concat {α β : Type*} (f : α → β) (l : List α) (a : α) :
    ((l ++ [a]).map f : Multiset β) = f a ::ₘ (l.map f : List β) := by
  rw [Multiset.cons_coe, Multiset.coe_eq_coe, List.map_append]
  exact List.perm_append_singleton (f a) (l.map f)

structure Baton {σ π : Type*} (live : π → Bool) (ok : σ → π → Prop) (s : σ) (parties : Multiset π) : Prop where
  one : parties.countP (live ·) ≤ 1
  ok : ∀ p ∈ parties, ok s p

namespace Baton

variable {σ π : Type*} {live : π → Bool} {ok : σ → π → Prop} {s s' : σ} {p q : π} {rest : Multiset π}

theorem rest_quiet (h : Baton live ok s (p ::ₘ rest)) (hp : live p = true) : ∀ q ∈ rest, live q = false := by
  have hone := h.one
  rw [Multiset.countP_cons, if_pos hp] at hone
  have hzero : rest.countP (live ·) = 0 := by omega
  intro q hq
  exact Bool.eq_false_iff.2 (Multiset.countP_eq_zero.1 hzero q hq)

theorem head (h : Baton live ok s (p ::ₘ rest)) : ok s p := h.ok p (Multiset.mem_cons_self p rest)

theorem drop (h : Baton live ok s (p ::ₘ rest)) : Baton live ok s rest where
  one := by
    have hone := h.one
    rw [Multiset.countP_cons] at hone
    omega
  ok q hq := h.ok q (Multiset.mem_cons_of_mem hq)

/-- Where nobody is live, anybody may be. -/
theorem enter (h : ∀ q ∈ rest, live q = false ∧ ok s q) (hp : ok s p) : Baton live ok s (p ::ₘ rest) where
  one := by
    have hzero : rest.countP (live ·) = 0 := by
      rw [Multiset.countP_eq_zero]
      exact fun q hq => Bool.eq_false_iff.1 (h q hq).1
    rw [Multiset.countP_cons, hzero]
    split <;> omega
  ok q hq := by
    rcases Multiset.mem_cons.1 hq with rfl | hq
    · exact hp
    · exact (h q hq).2

/-- A party steps, and leaves the state alone. -/
theorem keep (h : Baton live ok s (p ::ₘ rest)) (hl : live q = live p) (hq : ok s q) :
    Baton live ok s (q ::ₘ rest) where
  one := by
    have hone := h.one
    rw [Multiset.countP_cons, ← hl] at hone
    rwa [Multiset.countP_cons]
  ok r hr := by
    rcases Multiset.mem_cons.1 hr with rfl | hr
    · exact hq
    · exact h.ok r (Multiset.mem_cons_of_mem hr)

/-- The live party may change the state as it steps. -/
theorem act (hdone : ∀ s p, live p = false → ok s p) (h : Baton live ok s (p ::ₘ rest)) (hp : live p = true)
    (hq : ok s' q) : Baton live ok s' (q ::ₘ rest) :=
  enter (fun r hr => ⟨h.rest_quiet hp r hr, hdone s' r (h.rest_quiet hp r hr)⟩) hq

/-- It is done, and another party is live. -/
theorem pass (hdone : ∀ s p, live p = false → ok s p) (h : Baton live ok s (p ::ₘ rest)) (hp : live p = true)
    {next : π} (hq : live q = false) (hnext : ok s' next) : Baton live ok s' (next ::ₘ q ::ₘ rest) := by
  refine enter (fun r hr => ?_) hnext
  have hquiet : live r = false := by
    rcases Multiset.mem_cons.1 hr with rfl | hr
    · exact hq
    · exact h.rest_quiet hp r hr
  exact ⟨hquiet, hdone s' r hquiet⟩

end Baton

end Lib
