import Mathlib.Data.List.Range
import Mathlib.Logic.Function.Basic
/-!
# Workers at a queue

Items are numbered as they arrive, and wait in a queue. A worker takes the first
one, and gives it out when it likes. They come out in order if and only if each is
given out when no worker has an earlier one.
-/

namespace Lib

namespace Workers

variable {τ : Type*} {n k : Nat} {queue out : List Nat} {held : τ → Option Nat} {t : τ}

/-- Of `n` items the first have come out in order, the last ones wait, and each one in
between is with a worker of its own. -/
structure Flow (n : Nat) (queue : List Nat) (held : τ → Option Nat) (out : List Nat) : Prop where
  length : queue.length ≤ n
  queue_eq : queue = List.range' (n - queue.length) queue.length
  out_eq : out = List.range out.length
  held_iff : ∀ k, (∃ t, held t = some k) ↔ out.length ≤ k ∧ k < n - queue.length
  own : ∀ t t' k, held t = some k → held t' = some k → t = t'
  taken : out.length ≤ n - queue.length

theorem flow_nil : Flow 0 [] (fun _ : τ => none) [] where
  length := Nat.le_refl 0
  queue_eq := rfl
  out_eq := rfl
  held_iff k := by simp
  own t t' k h := by cases h
  taken := Nat.le_refl 0

theorem Flow.arrive (h : Flow n queue held out) : Flow (n + 1) (queue ++ [n]) held out where
  length := by
    have := h.length
    simpa using this
  queue_eq := by
    have hle := h.length
    have hn : n + 1 - (queue ++ [n]).length = n - queue.length := by simp
    have hlast : n - queue.length + 1 * queue.length = n := by omega
    rw [hn, List.length_append, List.length_singleton, List.range'_concat, ← h.queue_eq, hlast]
  out_eq := h.out_eq
  held_iff k := by
    rw [h.held_iff, List.length_append, List.length_singleton, Nat.add_sub_add_right]
  own := h.own
  taken := by
    rw [List.length_append, List.length_singleton, Nat.add_sub_add_right]
    exact h.taken

/-- No worker has an earlier item than this one. -/
def InTurn (held : τ → Option Nat) (k : Nat) : Prop := ∀ t k', held t = some k' → k ≤ k'

theorem Flow.next (h : Flow n queue held out) (ht : held t = some k) (hi : InTurn held k) : k = out.length := by
  obtain ⟨hle, hlt⟩ := (h.held_iff k).1 ⟨t, ht⟩
  obtain ⟨t', ht'⟩ := (h.held_iff out.length).2 ⟨Nat.le_refl _, by omega⟩
  exact Nat.le_antisymm (hi t' _ ht') hle

/-- An item that is given out too early comes at the wrong place. -/
theorem Flow.early (h : Flow n queue held out) (hi : ¬ InTurn held k) : out.length < k := by
  simp only [InTurn, not_forall, Nat.not_le] at hi
  obtain ⟨t', k', ht', hlt⟩ := hi
  have := (h.held_iff k').1 ⟨t', ht'⟩
  omega

/-- With nothing waiting and nothing held, all have come out. -/
theorem Flow.done (h : Flow n [] held out) (hh : ∀ t, held t = none) : out = List.range n := by
  have hlen : out.length = n := by
    have htaken := h.taken
    rw [List.length_nil, Nat.sub_zero] at htaken
    by_contra hne
    obtain ⟨t, ht⟩ := (h.held_iff out.length).2 ⟨Nat.le_refl _, by rw [List.length_nil]; omega⟩
    rw [hh t] at ht
    cases ht
  rw [h.out_eq, hlen]

variable [DecidableEq τ] {t' : τ} {j : Nat}

theorem update_some_iff (ht : held t = none) :
    Function.update held t (some k) t' = some j ↔ (t' = t ∧ j = k) ∨ held t' = some j := by
  by_cases htt : t' = t
  · subst htt
    simp [ht, eq_comm]
  · simp [htt]

theorem update_none_iff : Function.update held t none t' = some j ↔ t' ≠ t ∧ held t' = some j := by
  by_cases htt : t' = t
  · subst htt
    simp
  · simp [htt]

/-- The first item in the queue is the one after all that were taken. -/
theorem Flow.take (h : Flow n (k :: queue) held out) (ht : held t = none) :
    Flow n queue (Function.update held t (some k)) out := by
  have hle := h.length
  have hq := h.queue_eq
  have hheld := h.held_iff
  have htaken := h.taken
  rw [List.length_cons, List.range'_succ] at hq
  obtain ⟨hk, hq⟩ := List.cons.inj hq
  simp only [List.length_cons, ← hk] at hle hheld htaken
  have hnext : n - queue.length = k + 1 := by omega
  constructor
  · omega
  · rw [hnext, hk]
    exact hq
  · exact h.out_eq
  · intro j
    rw [hnext]
    simp only [update_some_iff ht, exists_or, hheld, exists_and_right, exists_eq, true_and]
    omega
  · have hfresh : ∀ t', held t' ≠ some k := by
      intro t' ht'
      have := (hheld k).1 ⟨t', ht'⟩
      omega
    intro t₁ t₂ j h₁ h₂
    rcases (update_some_iff ht).1 h₁ with ⟨ht₁, hk₁⟩ | h₁ <;> rcases (update_some_iff ht).1 h₂ with ⟨ht₂, hk₂⟩ | h₂
    · rw [ht₁, ht₂]
    · exact absurd (hk₁ ▸ h₂) (hfresh t₂)
    · exact absurd (hk₂ ▸ h₁) (hfresh t₁)
    · exact h.own t₁ t₂ j h₁ h₂
  · omega

theorem Flow.give (h : Flow n queue held out) (ht : held t = some k) (hi : InTurn held k) :
    Flow n queue (Function.update held t none) (out ++ [k]) where
  length := h.length
  queue_eq := h.queue_eq
  out_eq := by
    rw [List.length_append, List.length_singleton, List.range_succ, ← h.out_eq, h.next ht hi]
  held_iff j := by
    have hk := h.next ht hi
    rw [List.length_append, List.length_singleton]
    simp only [update_none_iff]
    constructor
    · rintro ⟨t', hne, ht'⟩
      have hjk : j ≠ k := by
        rintro rfl
        exact hne (h.own t' t j ht' ht)
      have := (h.held_iff j).1 ⟨t', ht'⟩
      omega
    · intro hlt
      obtain ⟨t', ht'⟩ := (h.held_iff j).2 (by omega)
      refine ⟨t', ?_, ht'⟩
      rintro rfl
      rw [ht] at ht'
      cases ht'
      omega
  own t₁ t₂ j h₁ h₂ := h.own t₁ t₂ j (update_none_iff.1 h₁).2 (update_none_iff.1 h₂).2
  taken := by
    have hlt := ((h.held_iff k).1 ⟨t, ht⟩).2
    rw [List.length_append, List.length_singleton, ← h.next ht hi]
    exact hlt

end Workers

end Lib
