import Mathlib.Data.List.Perm.Basic
import Mathlib.Order.Lattice
/-!
# Binary heaps

A priority queue in a list, the children of place `i` at `2 * i + 1` and
`2 * i + 2`, the least key at the root. `push` moves a hole up from the end. `pop`
moves one from the root down to the bottom and puts the last element in from there.
A push leaves the root alone unless the new key is less than its key, so equal keys
do not change places with it (`top_push`).
-/

namespace Lib

namespace Heap

variable {α κ : Type*} [LinearOrder κ] {key : α → κ}

def parent (i : Nat) : Nat := (i - 1) / 2

/-- The parent's key is not above the child's. -/
def Ordered (key : α → κ) (l : List α) : Prop :=
  ∀ i x y, 0 < i → l[parent i]? = some x → l[i]? = some y → key x ≤ key y

/-- Moves the hole up until `x` may stand in it. -/
def siftUp (key : α → κ) : (fuel : Nat) → List α → (hole : Nat) → α → List α
  | 0, l, hole, x => l.set hole x
  | fuel + 1, l, hole, x =>
    match l[parent hole]? with
    | some y => if 0 < hole ∧ key x < key y then siftUp key fuel (l.set hole y) (parent hole) x else l.set hole x
    | none => l.set hole x

/-- Moves the hole down to a place without children, each time to the lesser child. -/
def siftDown (key : α → κ) : (fuel : Nat) → List α → (hole : Nat) → List α × Nat
  | 0, l, hole => (l, hole)
  | fuel + 1, l, hole =>
    match l[2 * hole + 1]?, l[2 * hole + 2]? with
    | some y, some z =>
      if key y < key z then siftDown key fuel (l.set hole y) (2 * hole + 1)
      else siftDown key fuel (l.set hole z) (2 * hole + 2)
    | some y, none => (l.set hole y, 2 * hole + 1)
    | none, _ => (l, hole)

def push (key : α → κ) (l : List α) (x : α) : List α := siftUp key l.length (l ++ [x]) l.length x

def pop (key : α → κ) (l : List α) : List α :=
  match l.getLast? with
  | none => []
  | some x =>
    let r := siftDown key l.dropLast.length l.dropLast 0
    siftUp key r.2 r.1 r.2 x

theorem parent_lt {i : Nat} (h : 0 < i) : parent i < i := by
  unfold parent
  omega

theorem parent_eq {i j : Nat} (h : 0 < i) : parent i = j ↔ i = 2 * j + 1 ∨ i = 2 * j + 2 := by
  unfold parent
  omega

variable {l : List α} {hole fuel : Nat} {x y : α}

/-- The root is least. -/
theorem Ordered.root_le (h : Ordered key l) (hx : l[0]? = some x) {i : Nat} (hy : l[i]? = some y) : key x ≤ key y := by
  induction i using Nat.strongRecOn generalizing y with
  | ind i ih =>
    rcases Nat.eq_zero_or_pos i with rfl | hi
    · rw [hx] at hy
      rw [Option.some.inj hy]
    · have hlt := (List.getElem?_eq_some_iff.1 hy).1
      have hp := parent_lt hi
      have hz : l[parent i]? = some l[parent i] := List.getElem?_eq_getElem (by omega)
      exact le_trans (ih _ hp hz) (h i _ _ hi hz hy)

/-! ## Holes -/

/-- Pairs without the hole are in order. -/
def OrderedAround (key : α → κ) (l : List α) (hole : Nat) : Prop :=
  ∀ i x y, 0 < i → i ≠ hole → parent i ≠ hole → l[parent i]? = some x → l[i]? = some y → key x ≤ key y

/-- What is below the hole may stand below what is above it. -/
def Bridged (key : α → κ) (l : List α) (hole : Nat) : Prop :=
  ∀ i x y, 0 < hole → 0 < i → parent i = hole → l[parent hole]? = some x → l[i]? = some y → key x ≤ key y

/-- `x` may stand in the hole or above it. -/
structure Rising (key : α → κ) (l : List α) (hole : Nat) (x : α) : Prop where
  around : OrderedAround key l hole
  bridged : Bridged key l hole
  below : ∀ i y, 0 < i → parent i = hole → l[i]? = some y → key x ≤ key y

theorem getElem?_hole (h : hole < l.length) (y : α) : (l.set hole y)[hole]? = some y :=
  List.getElem?_set_self h

theorem Rising.move (o : Rising key l hole x) (hpos : 0 < hole) (hlt : hole < l.length)
    (hy : l[parent hole]? = some y) (hxy : key x < key y) : Rising key (l.set hole y) (parent hole) x := by
  have hp := parent_lt hpos
  -- the other child of the hole's parent
  have hchild : ∀ i z, 0 < i → parent i = parent hole → i ≠ hole → l[i]? = some z → key y ≤ key z := by
    intro i z hi hpi hne hz
    exact o.around i y z hi hne (by omega) (by rw [hpi, hy]) hz
  constructor
  · intro i u v hi hip hpp hu hv
    have hih : i ≠ hole := by
      rintro rfl
      exact hpp rfl
    rw [List.getElem?_set_ne hih.symm] at hv
    by_cases hph : parent i = hole
    · rw [hph, getElem?_hole hlt] at hu
      cases hu
      exact o.bridged i y v hpos hi hph hy hv
    · rw [List.getElem?_set_ne (Ne.symm hph)] at hu
      exact o.around i u v hi hih hph hu hv
  · intro i u v hpp hi hpi hu hv
    have hpph := parent_lt hpp
    rw [List.getElem?_set_ne (by omega)] at hu
    have hup : key u ≤ key y := o.around (parent hole) u y hpp (by omega) (by omega) hu hy
    by_cases hih : i = hole
    · subst hih
      rw [getElem?_hole hlt] at hv
      cases hv
      exact hup
    · rw [List.getElem?_set_ne (Ne.symm hih)] at hv
      exact le_trans hup (hchild i v hi hpi hih hv)
  · intro i v hi hpi hv
    by_cases hih : i = hole
    · subst hih
      rw [getElem?_hole hlt] at hv
      cases hv
      exact le_of_lt hxy
    · rw [List.getElem?_set_ne (Ne.symm hih)] at hv
      exact le_trans (le_of_lt hxy) (hchild i v hi hpi hih hv)

theorem Rising.finish (o : Rising key l hole x) (hlt : hole < l.length)
    (hstop : ∀ y, 0 < hole → l[parent hole]? = some y → key y ≤ key x) : Ordered key (l.set hole x) := by
  intro i u v hi hu hv
  have hp := parent_lt hi
  by_cases hih : i = hole
  · subst hih
    rw [getElem?_hole hlt] at hv
    rw [List.getElem?_set_ne (by omega)] at hu
    cases hv
    exact hstop u hi hu
  · rw [List.getElem?_set_ne (Ne.symm hih)] at hv
    by_cases hph : parent i = hole
    · rw [hph, getElem?_hole hlt] at hu
      cases hu
      exact o.below i v hi hph hv
    · rw [List.getElem?_set_ne (Ne.symm hph)] at hu
      exact o.around i u v hi hih hph hu hv

/-! ## Moving up -/

theorem siftUp_ordered (o : Rising key l hole x) (hlt : hole < l.length) (hf : hole ≤ fuel) :
    Ordered key (siftUp key fuel l hole x) := by
  induction fuel generalizing l hole with
  | zero =>
    have h0 : hole = 0 := Nat.le_zero.1 hf
    exact o.finish hlt fun y hpos => by omega
  | succ fuel ih =>
    obtain ⟨y, hy⟩ : ∃ y, l[parent hole]? = some y := ⟨_, List.getElem?_eq_getElem (by unfold parent; omega)⟩
    unfold siftUp
    rw [hy]
    dsimp only
    split
    next h =>
      have hp := parent_lt h.1
      exact ih (o.move h.1 hlt hy h.2) (by rw [List.length_set]; omega) (by omega)
    next h =>
      refine o.finish hlt fun z hpos hz => ?_
      rw [hy] at hz
      rw [← Option.some.inj hz]
      exact le_of_not_gt fun hxy => h ⟨hpos, hxy⟩

/-- The hole may be moved before it is filled. -/
theorem set_set_perm_set {i j : Nat} (hi : i < l.length) (hy : l[j]? = some y) (hij : i ≠ j) (x : α) :
    ((l.set i y).set j x).Perm (l.set i x) := by
  obtain ⟨hj, rfl⟩ := List.getElem?_eq_some_iff.1 hy
  have hi' : i < (l.set i x).length := by rwa [List.length_set]
  have hj' : j < (l.set i x).length := by rwa [List.length_set]
  have hp := List.set_set_perm hi' hj'
  rwa [List.getElem_set_self, List.getElem_set_ne hij, List.set_set] at hp

theorem siftUp_perm (hlt : hole < l.length) (hf : hole ≤ fuel) : (siftUp key fuel l hole x).Perm (l.set hole x) := by
  induction fuel generalizing l hole with
  | zero => exact .refl _
  | succ fuel ih =>
    unfold siftUp
    split
    next y hy =>
      split
      next h =>
        have hp := parent_lt h.1
        have hmoved : (siftUp key fuel (l.set hole y) (parent hole) x).Perm ((l.set hole y).set (parent hole) x) :=
          ih (by rw [List.length_set]; omega) (by omega)
        exact hmoved.trans (set_set_perm_set hlt hy (by omega) x)
      · exact .refl _
    · exact .refl _

/-- A key that is not less than that of the root stays below it. -/
theorem siftUp_root {r : α} (hr : l[0]? = some r) (hpos : 0 < hole) (hle : key r ≤ key x) :
    (siftUp key fuel l hole x)[0]? = some r := by
  induction fuel generalizing l hole with
  | zero => rw [siftUp, List.getElem?_set_ne (by omega), hr]
  | succ fuel ih =>
    have hset (y : α) : (l.set hole y)[0]? = some r := by rw [List.getElem?_set_ne (by omega), hr]
    unfold siftUp
    split
    next y hy =>
      split
      next h =>
        have hne : 0 < parent hole := by
          rw [Nat.pos_iff_ne_zero]
          intro h0
          rw [h0, hr] at hy
          cases hy
          exact not_lt_of_ge hle h.2
        exact ih (hset y) hne
      · exact hset x
    · exact hset x

/-! ## Moving down -/

/-- The hole may be closed by what is below it, and filled at the bottom. -/
structure Sinking (key : α → κ) (l : List α) (hole : Nat) : Prop where
  around : OrderedAround key l hole
  bridged : Bridged key l hole

/-- The hole moves to the child with the least key. -/
theorem Sinking.move (o : Sinking key l hole) {c : Nat} (hc : 0 < c) (hpc : parent c = hole) (hlt : hole < l.length)
    (hy : l[c]? = some y) (hmin : ∀ i z, 0 < i → parent i = hole → l[i]? = some z → key y ≤ key z) :
    Sinking key (l.set hole y) c := by
  have hcp := parent_lt hc
  constructor
  · intro i u v hi hic hpi hu hv
    by_cases hih : i = hole
    · subst hih
      have hp := parent_lt hi
      rw [getElem?_hole hlt] at hv
      rw [List.getElem?_set_ne (by omega)] at hu
      cases hv
      exact o.bridged c u y hi hc hpc hu hy
    · rw [List.getElem?_set_ne (Ne.symm hih)] at hv
      by_cases hph : parent i = hole
      · rw [hph, getElem?_hole hlt] at hu
        cases hu
        exact hmin i v hi hph hv
      · rw [List.getElem?_set_ne (Ne.symm hph)] at hu
        exact o.around i u v hi hih hph hu hv
  · intro i u v _ hi hpi hu hv
    have hp := parent_lt hi
    rw [hpc, getElem?_hole hlt] at hu
    rw [List.getElem?_set_ne (by omega)] at hv
    cases hu
    exact o.around i y v hi (by omega) (by omega) (by rw [hpi, hy]) hv

/-- At the bottom anything may stand in the hole or above it. -/
theorem Sinking.rising (o : Sinking key l hole) (hb : ∀ i, 0 < i → parent i = hole → l.length ≤ i) (x : α) :
    Rising key l hole x where
  around := o.around
  bridged := o.bridged
  below i y hi hpi hy := by
    have hlt := (List.getElem?_eq_some_iff.1 hy).1
    have hge := hb i hi hpi
    omega

/-- What `siftDown` leaves. -/
structure Sunk (key : α → κ) (l : List α) (hole : Nat) (r : List α × Nat) : Prop where
  sinking : Sinking key r.1 r.2
  lt : r.2 < r.1.length
  bottom : ∀ i, 0 < i → parent i = r.2 → r.1.length ≤ i
  perm : ∀ x, (r.1.set r.2 x).Perm (l.set hole x)

theorem siftDown_sunk (o : Sinking key l hole) (hlt : hole < l.length) (hf : l.length ≤ hole + fuel) :
    Sunk key l hole (siftDown key fuel l hole) := by
  induction fuel generalizing l hole with
  | zero => omega
  | succ fuel ih =>
    have hchild (i : Nat) (hi : 0 < i) : parent i = hole ↔ i = 2 * hole + 1 ∨ i = 2 * hole + 2 := parent_eq hi
    -- one step down, to the child with the least key
    have hstep (c : Nat) (y : α) (hc : c = 2 * hole + 1 ∨ c = 2 * hole + 2) (hy : l[c]? = some y)
        (hmin : ∀ i z, 0 < i → parent i = hole → l[i]? = some z → key y ≤ key z) :
        Sunk key l hole (siftDown key fuel (l.set hole y) c) := by
      have hcl := (List.getElem?_eq_some_iff.1 hy).1
      have hm := o.move (by omega) ((hchild c (by omega)).2 hc) hlt hy hmin
      have hs := ih hm (by rw [List.length_set]; exact hcl) (by rw [List.length_set]; omega)
      exact ⟨hs.sinking, hs.lt, hs.bottom, fun x => (hs.perm x).trans (set_set_perm_set hlt hy (by omega) x)⟩
    unfold siftDown
    split
    next y z hy hz =>
      split
      next hyz =>
        refine hstep _ y (.inl rfl) hy fun i u hi hpi hu => ?_
        rcases (hchild i hi).1 hpi with rfl | rfl
        · rw [hy] at hu
          rw [Option.some.inj hu]
        · rw [hz] at hu
          rw [← Option.some.inj hu]
          exact le_of_lt hyz
      next hyz =>
        refine hstep _ z (.inr rfl) hz fun i u hi hpi hu => ?_
        rcases (hchild i hi).1 hpi with rfl | rfl
        · rw [hy] at hu
          rw [← Option.some.inj hu]
          exact le_of_not_gt hyz
        · rw [hz] at hu
          rw [Option.some.inj hu]
    next y hy hz =>
      -- the last inner place has one child, which is the last element
      have hend : l.length ≤ 2 * hole + 2 := List.getElem?_eq_none_iff.1 hz
      have hcl := (List.getElem?_eq_some_iff.1 hy).1
      have hm : Sinking key (l.set hole y) (2 * hole + 1) := by
        refine o.move (by omega) ((hchild _ (by omega)).2 (.inl rfl)) hlt hy fun i u hi hpi hu => ?_
        rcases (hchild i hi).1 hpi with rfl | rfl
        · rw [hy] at hu
          rw [Option.some.inj hu]
        · rw [hz] at hu
          cases hu
      refine ⟨hm, by rw [List.length_set]; exact hcl, fun i hi hpi => ?_, fun x => set_set_perm_set hlt hy (by omega) x⟩
      rw [parent_eq hi] at hpi
      rw [List.length_set]
      omega
    next hy =>
      have hend : l.length ≤ 2 * hole + 1 := List.getElem?_eq_none_iff.1 hy
      refine ⟨o, hlt, fun i hi hpi => ?_, fun x => .refl _⟩
      have hi' := (hchild i hi).1 hpi
      change l.length ≤ i
      omega

/-! ## The operations -/

theorem push_ordered (h : Ordered key l) (x : α) : Ordered key (push key l x) := by
  have hlen : l.length < (l ++ [x]).length := by simp
  refine siftUp_ordered ⟨?_, ?_, ?_⟩ hlen (Nat.le_refl _)
  · intro i u v hi hne _ hu hv
    have hlt := (List.getElem?_eq_some_iff.1 hv).1
    have hp := parent_lt hi
    rw [List.length_append, List.length_singleton] at hlt
    rw [List.getElem?_append_left (by omega)] at hu hv
    exact h i u v hi hu hv
  · intro i u v _ hi hpi _ hv
    have hlt := (List.getElem?_eq_some_iff.1 hv).1
    have hp := parent_lt hi
    rw [List.length_append, List.length_singleton] at hlt
    omega
  · intro i v hi hpi hv
    have hlt := (List.getElem?_eq_some_iff.1 hv).1
    have hp := parent_lt hi
    rw [List.length_append, List.length_singleton] at hlt
    omega

theorem push_perm (l : List α) (x : α) : (push key l x).Perm (x :: l) := by
  have hlen : l.length < (l ++ [x]).length := by simp
  refine (siftUp_perm hlen (Nat.le_refl _)).trans ?_
  rw [List.set_append_right _ _ (Nat.le_refl _), Nat.sub_self]
  exact List.perm_append_singleton x l

theorem top_push {r : α} (hr : l[0]? = some r) (hle : key r ≤ key x) : (push key l x)[0]? = some r := by
  have hpos : 0 < l.length := (List.getElem?_eq_some_iff.1 hr).1
  refine siftUp_root ?_ hpos hle
  rw [List.getElem?_append_left hpos, hr]

theorem getLast?_eq_concat (hx : l.getLast? = some x) : l = l.dropLast ++ [x] := by
  obtain ⟨l', rfl⟩ := List.getLast?_eq_some_iff.1 hx
  rw [List.dropLast_concat]

theorem Ordered.dropLast (h : Ordered key l) : Ordered key l.dropLast := by
  intro i u v hi hu hv
  rw [List.getElem?_dropLast] at hu hv
  split at hu
  · split at hv
    · exact h i u v hi hu hv
    · cases hv
  · cases hu

theorem pop_ordered (h : Ordered key l) : Ordered key (pop key l) := by
  unfold pop
  split
  · intro i u v _ _ hv
    cases hv
  next x hx =>
    by_cases hne : l.dropLast = []
    · rw [hne]
      intro i u v _ _ hv
      cases hv
    · have hs : Sunk key l.dropLast 0 (siftDown key l.dropLast.length l.dropLast 0) := by
        refine siftDown_sunk ⟨fun i u v hi _ _ => h.dropLast i u v hi, fun i u v h0 => absurd h0 (Nat.lt_irrefl 0)⟩ ?_ (by omega)
        exact List.length_pos_iff.2 hne
      exact siftUp_ordered (hs.sinking.rising hs.bottom x) hs.lt (Nat.le_refl _)

/-- The element popped is the root. -/
theorem pop_perm {r : α} (h : Ordered key l) (hr : l[0]? = some r) : l.Perm (r :: pop key l) := by
  unfold pop
  split
  next hx =>
    rw [List.getLast?_eq_none_iff.1 hx] at hr
    cases hr
  next x hx =>
    have hl := getLast?_eq_concat hx
    by_cases hne : l.dropLast = []
    · rw [hne, List.nil_append] at hl
      rw [hl] at hr ⊢
      cases hr
      exact .refl _
    · have hpos : 0 < l.dropLast.length := List.length_pos_iff.2 hne
      have hs : Sunk key l.dropLast 0 (siftDown key l.dropLast.length l.dropLast 0) := by
        refine siftDown_sunk ⟨fun i u v hi _ _ => h.dropLast i u v hi, fun i u v h0 => absurd h0 (Nat.lt_irrefl 0)⟩ hpos (by omega)
      generalize siftDown key l.dropLast.length l.dropLast 0 = b at hs ⊢
      have hfill : (siftUp key b.2 b.1 b.2 x).Perm (l.dropLast.set 0 x) :=
        (siftUp_perm hs.lt (Nat.le_refl _)).trans (hs.perm x)
      have hroot : l.dropLast[0]? = some r := by
        rw [hl, List.getElem?_append_left hpos] at hr
        exact hr
      obtain ⟨d, hd⟩ : ∃ d, l.dropLast = r :: d := by
        cases hdl : l.dropLast with
        | nil => exact absurd hdl hne
        | cons a d =>
          rw [hdl] at hroot
          cases hroot
          exact ⟨d, rfl⟩
      have hset : l.dropLast.set 0 x = x :: d := by
        rw [hd]
        rfl
      have hlr : l = r :: (d ++ [x]) := hl.trans (by rw [hd]; rfl)
      rw [hset] at hfill
      exact (List.Perm.of_eq hlr).trans (((List.perm_append_singleton x d).trans hfill.symm).cons r)

@[simp] theorem length_push (l : List α) (x : α) : (push key l x).length = l.length + 1 := (push_perm l x).length_eq

end Heap

/-- `std::priority_queue` with the least key on top. -/
structure PriorityQueue {α κ : Type*} [LinearOrder κ] (key : α → κ) where
  c : List α
  ordered : Heap.Ordered key c

namespace PriorityQueue

variable {α κ : Type*} [LinearOrder κ] {key : α → κ} {q : PriorityQueue key} {x y : α}

def empty : PriorityQueue key := ⟨[], fun _ _ _ _ _ h => by cases h⟩

def top (q : PriorityQueue key) : Option α := q.c[0]?

def push (q : PriorityQueue key) (x : α) : PriorityQueue key := ⟨Heap.push key q.c x, Heap.push_ordered q.ordered x⟩

def pop (q : PriorityQueue key) : PriorityQueue key := ⟨Heap.pop key q.c, Heap.pop_ordered q.ordered⟩

theorem top_eq_none : q.top = none ↔ q.c = [] := by
  unfold top
  rw [List.getElem?_eq_none_iff, Nat.le_zero, List.length_eq_zero_iff]

theorem top_le (ht : q.top = some x) (hy : y ∈ q.c) : key x ≤ key y := by
  obtain ⟨i, hi⟩ := List.getElem?_of_mem hy
  exact q.ordered.root_le ht hi

theorem push_perm (q : PriorityQueue key) (x : α) : (q.push x).c.Perm (x :: q.c) := Heap.push_perm q.c x

@[simp] theorem length_push (q : PriorityQueue key) (x : α) : (q.push x).c.length = q.c.length + 1 := Heap.length_push q.c x

theorem top_push (ht : q.top = some x) (hle : key x ≤ key y) : (q.push y).top = some x := Heap.top_push ht hle

theorem pop_perm (ht : q.top = some x) : q.c.Perm (x :: q.pop.c) := Heap.pop_perm q.ordered ht

theorem length_pop_le (q : PriorityQueue key) : q.pop.c.length ≤ q.c.length := by
  cases ht : q.top with
  | none =>
    change (Heap.pop key q.c).length ≤ q.c.length
    rw [top_eq_none.1 ht]
    exact Nat.le_refl _
  | some x =>
    rw [(pop_perm ht).length_eq]
    exact Nat.le_succ _

end PriorityQueue

end Lib
