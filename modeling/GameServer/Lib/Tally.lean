import Mathlib.Data.List.Count
import Mathlib.Data.List.Perm.Basic
import Mathlib.Algebra.GroupWithZero.Nat
/-!
# Counting over a list of queues

`tally p ls` is how many elements of the queues `ls` satisfy `p`. A step that
replaces one queue changes the tally by what it changes there.
-/

namespace Lib

variable {α : Type*} {p : α → Bool} {ls : List (List α)} {l l' : List α} {i : Nat}

def tally (p : α → Bool) (ls : List (List α)) : Nat := (ls.map (List.countP p)).sum

@[simp] theorem tally_nil : tally p [] = 0 := rfl

@[simp] theorem tally_cons : tally p (l :: ls) = l.countP p + tally p ls := by
  simp [tally]

theorem countP_set_add {i : Nat} {l : List α} {a b : α} (h : l[i]? = some a) :
    (l.set i b).countP p + (p a).toNat = l.countP p + (p b).toNat := by
  induction l generalizing i with
  | nil => simp at h
  | cons c l ih =>
    cases i with
    | zero =>
      simp only [List.getElem?_cons_zero, Option.some.injEq] at h
      subst h
      simp only [List.set_cons_zero, List.countP_cons]
      cases p c <;> cases p b <;> simp
    | succ i =>
      rw [List.getElem?_cons_succ] at h
      have := ih h
      simp only [List.set_cons_succ, List.countP_cons]
      omega

theorem countP_set_of_eq {i : Nat} {l : List α} {a b : α} (h : l[i]? = some a) (hp : p b = p a) :
    (l.set i b).countP p = l.countP p := by
  have hset := countP_set_add (p := p) (b := b) h
  rw [hp] at hset
  omega

theorem countP_eraseIdx {i : Nat} {l : List α} {a : α} (h : l[i]? = some a) (p : α → Bool) :
    l.countP p = (l.eraseIdx i).countP p + if p a then 1 else 0 := by
  obtain ⟨hi, rfl⟩ := List.getElem?_eq_some_iff.1 h
  rw [← List.countP_cons]
  exact (List.Perm.countP_eq p (List.getElem_cons_eraseIdx_perm hi)).symm

/-- The tally without queue `i`. -/
theorem tally_eq_erase (h : ls[i]? = some l) : tally p ls = tally p (ls.eraseIdx i) + l.countP p := by
  induction ls generalizing i with
  | nil => simp at h
  | cons l₁ ls ih =>
    cases i with
    | zero =>
      simp only [List.getElem?_cons_zero, Option.some.injEq] at h
      subst h
      simp [Nat.add_comm]
    | succ i =>
      rw [List.getElem?_cons_succ] at h
      simp only [tally_cons, List.eraseIdx_cons_succ, ih h]
      omega

theorem tally_set (h : ls[i]? = some l) : tally p (ls.set i l') = tally p (ls.eraseIdx i) + l'.countP p := by
  have hi : i < ls.length := (List.getElem?_eq_some_iff.1 h).1
  have hset : (ls.set i l')[i]? = some l' := by simp [hi]
  rw [tally_eq_erase hset]
  congr 2
  exact List.eraseIdx_set_eq

/-- Two kinds that exclude each other are counted one after the other. -/
theorem countP_add {q r : α → Bool} (h : ∀ a, (p a).toNat = (q a).toNat + (r a).toNat) :
    l.countP p = l.countP q + l.countP r := by
  induction l with
  | nil => rfl
  | cons a l ih =>
    have ha := h a
    simp only [List.countP_cons, ih]
    cases hp : p a <;> cases hq : q a <;> cases hr : r a <;> simp [hp, hq, hr] at ha ⊢ <;> omega

theorem tally_add {q r : α → Bool} (h : ∀ a, (p a).toNat = (q a).toNat + (r a).toNat) :
    tally p ls = tally q ls + tally r ls := by
  induction ls with
  | nil => rfl
  | cons l ls ih =>
    simp only [tally_cons, ih, countP_add h]
    omega

theorem tally_eq_zero : tally p ls = 0 ↔ ∀ l ∈ ls, ∀ a ∈ l, ¬ p a := by
  induction ls with
  | nil => simp
  | cons l ls ih => simp [ih, List.countP_eq_zero]

/-- What is counted is in some queue. -/
theorem countP_le_tally (h : l ∈ ls) : l.countP p ≤ tally p ls := by
  obtain ⟨i, hi⟩ := List.getElem?_of_mem h
  rw [tally_eq_erase hi]
  omega

end Lib
