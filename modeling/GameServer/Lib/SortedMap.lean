import Mathlib.Data.List.Basic
import Mathlib.Data.Option.Basic
import Mathlib.Order.Lattice
/-!
# Ordered maps

A map is its entries in the order of their keys, which its iterator follows. Two
maps with the same entries are the same map, so an operation is known by what
`find?` says after it.
-/

namespace Lib

structure SortedMap (κ ν : Type*) [LinearOrder κ] where
  entries : List (κ × ν)
  sorted : entries.Pairwise fun a b => a.1 < b.1

namespace SortedMap

variable {κ ν : Type*} [LinearOrder κ] {m : SortedMap κ ν} {k j : κ} {v : ν}

instance [DecidableEq ν] : DecidableEq (SortedMap κ ν) := fun a b =>
  decidable_of_iff (a.entries = b.entries) ⟨fun h => by cases a; cases b; cases h; rfl, fun h => h ▸ rfl⟩

def empty : SortedMap κ ν := ⟨[], List.Pairwise.nil⟩

def find? (m : SortedMap κ ν) (k : κ) : Option ν := (m.entries.find? fun e => e.1 = k).map Prod.snd

/-- The values in the order of the keys. -/
def values (m : SortedMap κ ν) : List ν := m.entries.map Prod.snd

/-- The entries with one for `k`, unless there is one already. -/
def insertEntry (k : κ) (v : ν) : List (κ × ν) → List (κ × ν)
  | [] => [(k, v)]
  | e :: es => if k < e.1 then (k, v) :: e :: es else if k = e.1 then e :: es else e :: insertEntry k v es

theorem mem_insertEntry {e : κ × ν} {es : List (κ × ν)} (h : e ∈ insertEntry k v es) : e = (k, v) ∨ e ∈ es := by
  induction es with
  | nil => exact .inl (List.mem_singleton.1 h)
  | cons e' es ih =>
    unfold insertEntry at h
    split at h
    · exact List.mem_cons.1 h
    · split at h
      · exact .inr h
      · rcases List.mem_cons.1 h with rfl | h
        · exact .inr List.mem_cons_self
        · exact (ih h).imp id (List.mem_cons_of_mem e')

theorem pairwise_insertEntry {es : List (κ × ν)} (h : es.Pairwise fun a b => a.1 < b.1) :
    (insertEntry k v es).Pairwise fun a b => a.1 < b.1 := by
  induction es with
  | nil => exact List.pairwise_singleton _ _
  | cons e es ih =>
    obtain ⟨hlt, h⟩ := List.pairwise_cons.1 h
    unfold insertEntry
    split
    next hk =>
      refine List.pairwise_cons.2 ⟨fun b hb => ?_, List.pairwise_cons.2 ⟨hlt, h⟩⟩
      rcases List.mem_cons.1 hb with rfl | hb
      · exact hk
      · exact lt_trans hk (hlt b hb)
    next hk =>
      split
      · exact List.pairwise_cons.2 ⟨hlt, h⟩
      next hne =>
        refine List.pairwise_cons.2 ⟨fun b hb => ?_, ih h⟩
        rcases mem_insertEntry hb with rfl | hb
        · exact lt_of_le_of_ne (not_lt.1 hk) (Ne.symm hne)
        · exact hlt b hb

/-- `std::map::insert`, which does nothing where the key is there. -/
def insert (m : SortedMap κ ν) (k : κ) (v : ν) : SortedMap κ ν :=
  ⟨insertEntry k v m.entries, pairwise_insertEntry m.sorted⟩

/-- `std::map::erase` of a key. -/
def erase (m : SortedMap κ ν) (k : κ) : SortedMap κ ν := ⟨m.entries.filter fun e => e.1 ≠ k, m.sorted.filter _⟩

/-- Goes through the entries once, and keeps those that `f` gives a value. -/
def filterMap (m : SortedMap κ ν) (f : ν → Option ν) : SortedMap κ ν where
  entries := m.entries.filterMap fun e => (f e.2).map (e.1, ·)
  sorted := by
    refine m.sorted.filterMap _ fun a b hlt a' ha b' hb => ?_
    obtain ⟨_, -, rfl⟩ := Option.map_eq_some_iff.1 ha
    obtain ⟨_, -, rfl⟩ := Option.map_eq_some_iff.1 hb
    exact hlt

/-- Each key has one entry. -/
theorem find?_eq_some : m.find? k = some v ↔ (k, v) ∈ m.entries := by
  obtain ⟨es, h⟩ := m
  simp only [find?]
  induction es with
  | nil => simp
  | cons e es ih =>
    obtain ⟨hlt, h⟩ := List.pairwise_cons.1 h
    rw [List.find?_cons]
    by_cases he : e.1 = k
    · subst he
      have hnot : (e.1, v) ∉ es := fun hm => lt_irrefl e.1 (hlt (e.1, v) hm)
      simp only [decide_true, Option.map_some, Option.some.injEq, List.mem_cons, hnot, or_false]
      exact ⟨fun hv => by rw [← hv], fun hv => by rw [← hv]⟩
    · have hne : (k, v) ≠ e := fun h => he (h ▸ rfl)
      simp only [he, decide_false, List.mem_cons, hne, false_or]
      exact ih h

theorem find?_eq_none : m.find? k = none ↔ ∀ v, (k, v) ∉ m.entries := by
  rw [Option.eq_none_iff_forall_ne_some]
  exact forall_congr' fun v => not_congr find?_eq_some

theorem mem_insertEntry_iff {e : κ × ν} {es : List (κ × ν)} (h : es.Pairwise fun a b => a.1 < b.1) :
    e ∈ insertEntry k v es ↔ e ∈ es ∨ (e = (k, v) ∧ ∀ u, (k, u) ∉ es) := by
  induction es with
  | nil => simp [insertEntry]
  | cons e' es ih =>
    obtain ⟨hlt, h⟩ := List.pairwise_cons.1 h
    unfold insertEntry
    split
    next hk =>
      have hfree (u : ν) : (k, u) ∉ e' :: es := by
        intro hm
        rcases List.mem_cons.1 hm with rfl | hm
        · exact lt_irrefl _ hk
        · exact lt_asymm hk (hlt _ hm)
      rw [List.mem_cons, or_comm]
      exact or_congr_right ⟨fun he => ⟨he, hfree⟩, And.left⟩
    next hk =>
      split
      next he =>
        have hthere : ¬ ∀ u, (k, u) ∉ e' :: es := fun hf => hf e'.2 (by rw [he]; exact List.mem_cons_self)
        simp only [hthere, and_false, or_false]
      next hne =>
        have hrest : (∀ u, (k, u) ∉ e' :: es) ↔ ∀ u, (k, u) ∉ es := by
          refine forall_congr' fun u => ?_
          rw [List.mem_cons, not_or]
          exact and_iff_right fun he => hne (by rw [← he])
        rw [List.mem_cons, ih h, List.mem_cons, hrest, or_assoc]

theorem find?_insert : (m.insert k v).find? j = if j = k ∧ m.find? k = none then some v else m.find? j := by
  refine Option.ext fun u => ?_
  rw [find?_eq_some, insert, mem_insertEntry_iff m.sorted, ← find?_eq_none, Prod.mk.injEq]
  split
  next hj =>
    obtain ⟨rfl, hn⟩ := hj
    have : (j, u) ∉ m.entries := find?_eq_none.1 hn u
    simp [this, hn, eq_comm]
  next hj =>
    rw [find?_eq_some]
    exact or_iff_left fun h => hj ⟨h.1.1, h.2⟩

theorem find?_erase : (m.erase k).find? j = if j = k then none else m.find? j := by
  refine Option.ext fun u => ?_
  rw [find?_eq_some, erase, List.mem_filter]
  split
  next hj => simp [hj]
  next hj => simp [hj, find?_eq_some]

theorem find?_filterMap (f : ν → Option ν) : (m.filterMap f).find? k = (m.find? k).bind f := by
  refine Option.ext fun u => ?_
  rw [find?_eq_some, filterMap, List.mem_filterMap, Option.bind_eq_some_iff]
  constructor
  · rintro ⟨e, he, hf⟩
    obtain ⟨w, hw, heq⟩ := Option.map_eq_some_iff.1 hf
    cases heq
    exact ⟨e.2, find?_eq_some.2 he, hw⟩
  · rintro ⟨w, hw, hf⟩
    exact ⟨(k, w), find?_eq_some.1 hw, by rw [hf]; rfl⟩

end SortedMap

end Lib
