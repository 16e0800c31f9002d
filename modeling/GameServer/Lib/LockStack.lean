import Mathlib.Logic.Function.Basic
import GameServer.Lib.Tally
/-!
# Locks read off what is left to do

A thread is the list of instructions it has left. `prior f l is` is what it has
before `is` if it is to have `l` behind them, where `f` says so for a single
instruction; with stacks of locks that is what the thread holds.

`Turn` is a step that takes a free lock, leaves the last one taken, or does
neither. If what is taken is held once, it is so after the step
(`turn_tally`), and nobody else holds it (`holder_unique`).
-/

namespace Lib

section Prior

variable {ι σ : Type*} {f : σ → ι → Option σ} {l l' : σ} {i : ι} {is js : List ι}

def prior (f : σ → ι → Option σ) (l : σ) : List ι → Option σ
  | [] => some l
  | i :: is => (prior f l is).bind fun l' => f l' i

@[simp] theorem prior_nil : prior f l [] = some l := rfl

@[simp] theorem prior_cons : prior f l (i :: is) = (prior f l is).bind fun l' => f l' i := rfl

theorem prior_append : prior f l (is ++ js) = (prior f l js).bind fun l' => prior f l' is := by
  induction is with
  | nil => simp
  | cons i is ih =>
    simp only [List.cons_append, prior_cons, ih]
    cases prior f l js <;> rfl

theorem prior_append_of (hj : prior f l js = some l') : prior f l (is ++ js) = prior f l' is := by
  rw [prior_append, hj, Option.bind_some]

/-- The thread is at `i`, and at `l` behind it. -/
theorem prior_cons_eq_some {l₁ : σ} : prior f l (i :: is) = some l₁ ↔ ∃ l', prior f l is = some l' ∧ f l' i = some l₁ :=
  Option.bind_eq_some_iff

end Prior

section Turns

variable {κ : Type*} [DecidableEq κ]

/-- What a step does to the locks of its thread, and to which are taken. -/
inductive Turn (taken taken' : κ → Bool) : List κ → List κ → Prop where
  | stay (l : List κ) (ht : taken' = taken) : Turn taken taken' l l
  | enter (k : κ) (l : List κ) (hk : taken k = false) (ht : taken' = Function.update taken k true) :
    Turn taken taken' l (k :: l)
  | leave (k : κ) (l : List κ) (ht : taken' = Function.update taken k false) : Turn taken taken' (k :: l) l

variable {taken taken' : κ → Bool} {l₁ l₂ : List κ} {ls : List (List κ)} {t t' : Nat}

/-- A lock that is taken is held by one thread, once. -/
theorem turn_tally (hls : ∀ k, tally (· = k) ls = (taken k).toNat) (ht : ls[t]? = some l₁)
    (hturn : Turn taken taken' l₁ l₂) (k : κ) : tally (· = k) (ls.set t l₂) = (taken' k).toNat := by
  have hk := hls k
  rw [tally_set ht]
  rw [tally_eq_erase ht] at hk
  cases hturn with
  | stay l h' => rw [h', hk]
  | enter k' l hf h' =>
    by_cases he : k' = k
    · subst he
      rw [hf, Bool.toNat_false] at hk
      rw [h', Function.update_self, Bool.toNat_true, List.countP_cons_of_pos (by simp)]
      omega
    · have he' : k ≠ k' := fun e => he e.symm
      simp only [h', List.countP_cons, Function.update_of_ne he', he, decide_false]
      simpa using hk
  | leave k' l h' =>
    by_cases he : k' = k
    · subst he
      -- it was taken once, by this thread
      have hle : (taken k').toNat ≤ 1 := Bool.toNat_le _
      rw [List.countP_cons_of_pos (by simp)] at hk
      rw [h', Function.update_self, Bool.toNat_false]
      omega
    · have he' : k ≠ k' := fun e => he e.symm
      simp only [List.countP_cons, he, decide_false] at hk
      simp only [h', Function.update_of_ne he']
      simpa using hk

theorem holder_unique {k : κ} (hls : ∀ k, tally (· = k) ls = (taken k).toNat) (ht : ls[t]? = some l₁)
    (ht' : ls[t']? = some l₂) (hk : k ∈ l₁) (hk' : k ∈ l₂) : t = t' := by
  by_contra hne
  have hone := hls k
  have hle : (taken k).toNat ≤ 1 := Bool.toNat_le _
  have hpos : 0 < l₁.countP (· = k) := List.countP_pos_iff.2 ⟨k, hk, by simp⟩
  have hpos' : 0 < l₂.countP (· = k) := List.countP_pos_iff.2 ⟨k, hk', by simp⟩
  have hmem : l₂ ∈ ls.eraseIdx t := List.mem_eraseIdx_iff_getElem?.2 ⟨t', fun e => hne e.symm, ht'⟩
  have hrest := countP_le_tally (p := (· = k)) hmem
  rw [tally_eq_erase ht] at hone
  omega

end Turns

end Lib
