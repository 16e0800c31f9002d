import Mathlib.Data.List.Basic
/-!
# Lists threaded through memory

`Chain next null p l` says that from `p` the links `next` lead through the cells
`l`, in order, and then to `null`. Reading along a chain is deterministic, so
there is one such list and no cell is in it twice.
-/

namespace Lib

variable {α : Type*} {next next' : α → α} {null p a : α} {l l' : List α}

def Chain (next : α → α) (null : α) : α → List α → Prop
  | p, [] => p = null
  | p, a :: l => p = a ∧ a ≠ null ∧ Chain next null (next a) l

@[simp] theorem chain_nil : Chain next null p [] ↔ p = null := Iff.rfl

namespace Chain

/-- A chain does not depend on the links of other cells. -/
theorem frame (h : Chain next null p l) (hn : ∀ a ∈ l, next' a = next a) : Chain next' null p l := by
  induction l generalizing p with
  | nil => exact h
  | cons a l ih =>
    obtain ⟨rfl, h0, h⟩ := h
    refine ⟨rfl, h0, ?_⟩
    rw [hn p (by simp)]
    exact ih h fun b hb => hn b (by simp [hb])

theorem unique (h : Chain next null p l) (h' : Chain next null p l') : l = l' := by
  induction l generalizing p l' with
  | nil =>
    cases l' with
    | nil => rfl
    | cons b l' => exact absurd (h'.1.symm.trans h) h'.2.1
  | cons a l ih =>
    obtain ⟨rfl, h0, h⟩ := h
    cases l' with
    | nil => exact absurd h' h0
    | cons b l' =>
      obtain ⟨rfl, -, h'⟩ := h'
      rw [ih h h']

/-- From a cell of the chain the links lead through a part of it. -/
theorem from_mem (h : Chain next null p l) (ha : a ∈ l) : ∃ t, t <:+ l ∧ Chain next null a t := by
  induction l generalizing p with
  | nil => cases ha
  | cons b l ih =>
    rcases List.mem_cons.1 ha with rfl | ha
    · obtain ⟨rfl, h0, h⟩ := h
      exact ⟨p :: l, List.suffix_rfl, rfl, h0, h⟩
    · obtain ⟨t, ht, hc⟩ := ih h.2.2 ha
      exact ⟨t, ht.trans (List.suffix_cons b l), hc⟩

theorem nodup (h : Chain next null p l) : l.Nodup := by
  induction l generalizing p with
  | nil => exact List.nodup_nil
  | cons a l ih =>
    refine List.nodup_cons.2 ⟨fun ha => ?_, ih h.2.2⟩
    -- a second `a` would thread the whole list again, inside its own tail
    obtain ⟨t, ht, hc⟩ := h.2.2.from_mem ha
    have hwhole : Chain next null a (a :: l) := ⟨rfl, h.2⟩
    have hlen := ht.length_le
    rw [hc.unique hwhole, List.length_cons] at hlen
    omega

theorem eq_nil (h : Chain next null null l) : l = [] := h.unique (chain_nil.2 rfl)

/-- The cell at the head can be taken off. -/
theorem pop (h : Chain next null p l) (hp : p ≠ null) : ∃ t, l = p :: t ∧ Chain next null (next p) t := by
  cases l with
  | nil => exact absurd h hp
  | cons a t =>
    obtain ⟨rfl, -, h⟩ := h
    exact ⟨t, rfl, h⟩

/-- A cell that is not on the chain can be put in front of it. -/
theorem push (h : Chain next null p l) (ha : a ≠ null) (hl : next' a = p) (hn : ∀ b ∈ l, next' b = next b) :
    Chain next' null a (a :: l) := by
  refine ⟨rfl, ha, ?_⟩
  rw [hl]
  exact h.frame hn

/-- Cells each linked to the one after, and the last to `null`, are a chain. -/
theorem of_links {cell : Nat → α} {i n : Nat} (h0 : ∀ j, i ≤ j → j ≤ i + n → cell j ≠ null)
    (hl : ∀ j, i ≤ j → j < i + n → next (cell j) = cell (j + 1)) (he : next (cell (i + n)) = null) :
    Chain next null (cell i) ((List.range' i (n + 1)).map cell) := by
  induction n generalizing i with
  | zero => exact ⟨rfl, h0 i (Nat.le_refl i) (Nat.le_refl i), he⟩
  | succ n ih =>
    rw [List.range'_succ, List.map_cons]
    refine ⟨rfl, h0 i (Nat.le_refl i) (by omega), ?_⟩
    rw [hl i (Nat.le_refl i) (by omega)]
    apply ih
    · exact fun j hj hn => h0 j (by omega) (by omega)
    · exact fun j hj hn => hl j (by omega) (by omega)
    · rwa [show i + 1 + n = i + (n + 1) by omega]

end Chain

end Lib
