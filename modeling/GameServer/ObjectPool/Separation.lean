import GameServer.Lib.Chain
import GameServer.ObjectPool
import Mathlib.Data.List.Nodup
import Mathlib.Data.List.Pairwise
import Mathlib.Data.List.Perm.Basic
/-!
# Live and free slots

The slots of the chunks are apart, and the free ones are a chain that no live one
is on (`Inv`). A link is read and written inside its slot, so what the program
writes into its live objects does not touch the chain. The counters are right as
long as the slots are not more than an `int` counts (`slots_separate_iff`).
-/

namespace GameServer.ObjectPool

open Lib

variable {c : ObjectClass} {s s' : State} {m m' : Nat → UInt8} {chunks free live : List Nat} {a b p q v n : Nat}

/-! ## Slots -/

theorem lt_chunk {i : Nat} (hi : i < c.allocCount) : i * c.sizeofTOBJECT + c.sizeofTOBJECT ≤ chunkSize c := by
  have := Nat.mul_le_mul_right c.sizeofTOBJECT (show i + 1 ≤ c.allocCount from hi)
  rw [chunkSize, Nat.mul_comm c.sizeofTOBJECT]
  rwa [Nat.succ_mul] at this

/-- Two slots of one chunk are the same or apart. -/
theorem slots_apart {i j : Nat} (h : a + i * c.sizeofTOBJECT ≠ a + j * c.sizeofTOBJECT) :
    a + i * c.sizeofTOBJECT + c.sizeofTOBJECT ≤ a + j * c.sizeofTOBJECT ∨
      a + j * c.sizeofTOBJECT + c.sizeofTOBJECT ≤ a + i * c.sizeofTOBJECT := by
  rcases Nat.lt_trichotomy i j with hij | rfl | hij
  · have := Nat.mul_le_mul_right c.sizeofTOBJECT (show i + 1 ≤ j from hij)
    rw [Nat.succ_mul] at this
    omega
  · exact absurd rfl h
  · have := Nat.mul_le_mul_right c.sizeofTOBJECT (show j + 1 ≤ i from hij)
    rw [Nat.succ_mul] at this
    omega

def ChunksApart (c : ObjectClass) (chunks : List Nat) : Prop :=
  chunks.Pairwise fun a b => a + chunkSize c ≤ b ∨ b + chunkSize c ≤ a

theorem Slot.apart (hc : ChunksApart c chunks) (hp : Slot c chunks p) (hq : Slot c chunks q) (hne : p ≠ q) :
    p + c.sizeofTOBJECT ≤ q ∨ q + c.sizeofTOBJECT ≤ p := by
  obtain ⟨a, ha, i, hi, rfl⟩ := hp
  obtain ⟨b, hb, j, hj, rfl⟩ := hq
  by_cases hab : a = b
  · subst hab
    exact slots_apart hne
  · have hi := lt_chunk hi
    have hj := lt_chunk hj
    have : Std.Symm fun a b => a + chunkSize c ≤ b ∨ b + chunkSize c ≤ a := ⟨fun _ _ h => Or.symm h⟩
    rcases List.Pairwise.forall hc ha hb hab with h | h <;> omega

theorem Slot.mono (hp : Slot c chunks p) : Slot c (a :: chunks) p := by
  obtain ⟨b, hb, hi⟩ := hp
  exact ⟨b, List.mem_cons_of_mem a hb, hi⟩

/-! ## Links -/

theorem load_store (h : v < 256 ^ c.sizeofPointer) : load c (store c m p v) p = v := readWord_writeWord h

/-- A link does not depend on what is written outside its slot. -/
theorem load_congr (h : ∀ a, p ≤ a → a < p + c.sizeofTOBJECT → m' a = m a) : load c m' p = load c m p :=
  readWord_congr fun a ha hw => h a ha (Nat.lt_of_lt_of_le hw (Nat.add_le_add_left c.pointer_le p))

theorem store_other (h : a < p ∨ p + c.sizeofTOBJECT ≤ a) : store c m p v a = m a := by
  have := c.pointer_le
  exact writeWord_other (by omega)

theorem load_store_apart (h : p + c.sizeofTOBJECT ≤ q ∨ q + c.sizeofTOBJECT ≤ p) : load c (store c m p v) q = load c m q :=
  load_congr fun _ _ _ => store_other (by omega)

/-- The loop ends `n` objects further. -/
theorem link_end : (link c m p p n).2.2 = p + n * c.sizeofTOBJECT := by
  induction n generalizing m p with
  | zero => rw [link, Nat.zero_mul, Nat.add_zero]
  | succ n ih =>
    rw [link, ih, Nat.succ_mul]
    omega

/-- It writes to the objects it leaves behind. -/
theorem link_other (h : a < p ∨ p + n * c.sizeofTOBJECT ≤ a) : (link c m p p n).1 a = m a := by
  induction n generalizing m p with
  | zero => rfl
  | succ n ih =>
    rw [Nat.succ_mul] at h
    rw [link, ih (by omega), store_other (by omega)]

/-- Each of these is linked to the next. -/
theorem load_link {i : Nat} (hi : i < n) (hb : p + n * c.sizeofTOBJECT < 256 ^ c.sizeofPointer) :
    load c (link c m p p n).1 (p + i * c.sizeofTOBJECT) = p + (i + 1) * c.sizeofTOBJECT := by
  induction n generalizing m p i with
  | zero => omega
  | succ n ih =>
    rw [Nat.succ_mul] at hb
    rw [link]
    cases i with
    | zero =>
      have hfirst : load c (store c m p (p + c.sizeofTOBJECT)) p = p + c.sizeofTOBJECT := load_store (by omega)
      rw [Nat.zero_mul, Nat.add_zero, Nat.zero_add, Nat.one_mul]
      exact (load_congr fun a ha hlt => link_other (by omega)).trans hfirst
    | succ i =>
      have hnext := ih (m := store c m p (p + c.sizeofTOBJECT)) (p := p + c.sizeofTOBJECT) (i := i) (by omega) (by omega)
      rw [Nat.succ_mul i, Nat.succ_mul (i + 1), Nat.succ_mul i] at *
      rw [show p + (i * c.sizeofTOBJECT + c.sizeofTOBJECT) = p + c.sizeofTOBJECT + i * c.sizeofTOBJECT by omega, hnext]
      omega

/-! ## The invariant -/

/-- `free` is the free list. -/
structure Inv (c : ObjectClass) (s : State) (free : List Nat) : Prop where
  apart : ChunksApart c s.chunks
  bound : ∀ b ∈ s.chunks, b ≠ 0 ∧ b + chunkSize c ≤ 256 ^ c.sizeofPointer
  chain : Chain (load c s.memory) 0 s.mFreeList free
  nodup : (free ++ s.live).Nodup
  slot : ∀ p ∈ free ++ s.live, Slot c s.chunks p
  useCount : s.mCurrentUseCount = Int32.ofNat s.live.length
  allocCount : s.mTotalAllocCount = Int32.ofNat (s.live.length + free.length)

theorem inv_init (memory : Nat → UInt8) : Inv c (State.init memory) [] where
  apart := List.Pairwise.nil
  bound := by simp [State.init]
  chain := rfl
  nodup := List.nodup_nil
  slot := by simp [State.init]
  useCount := rfl
  allocCount := rfl

theorem Inv.slot_bound (hi : Inv c s free) (hp : Slot c s.chunks p) : p ≠ 0 ∧ p < 256 ^ c.sizeofPointer := by
  obtain ⟨b, hb, i, hlt, rfl⟩ := hp
  have hpos := hi.bound b hb
  have := lt_chunk hlt
  have := c.pointer_pos
  have := c.pointer_le
  omega

/-- Slot `i` of a chunk. -/
def slotAt (c : ObjectClass) (a i : Nat) : Nat := a + i * c.sizeofTOBJECT

/-- The slots of a new chunk, in order. -/
def slotsOf (c : ObjectClass) (a : Nat) : List Nat := (List.range' 0 c.allocCount).map (slotAt c a)

theorem mem_slotsOf : p ∈ slotsOf c a ↔ ∃ i < c.allocCount, p = a + i * c.sizeofTOBJECT := by
  simp [slotsOf, slotAt, List.mem_range'_1, eq_comm]

theorem length_slotsOf : (slotsOf c a).length = c.allocCount := by simp [slotsOf]

/-- The loop, and the null at its end, thread a new chunk. -/
theorem chain_refill (h0 : a ≠ 0) (hb : a + chunkSize c ≤ 256 ^ c.sizeofPointer) :
    Chain (load c (refill c s a).memory) 0 a (slotsOf c a) := by
  have hpos := c.pointer_pos
  have hle := c.pointer_le
  obtain ⟨n, hn⟩ : ∃ n, c.allocCount = n + 1 := ⟨c.allocCount - 1, by have := c.count_pos; omega⟩
  have hlast := lt_chunk (c := c) (i := n) (by omega)
  have hmem : (refill c s a).memory = store c (link c s.memory a a n).1 (a + n * c.sizeofTOBJECT) 0 := by
    simp only [refill, hn, Nat.add_sub_cancel, link_end]
  have hchain : Chain (load c (refill c s a).memory) 0 (slotAt c a 0) ((List.range' 0 (n + 1)).map (slotAt c a)) := by
    apply Chain.of_links
    · intro i _ _
      unfold slotAt
      omega
    · intro i _ hi
      unfold slotAt
      have := Nat.mul_le_mul_right c.sizeofTOBJECT (show i + 1 ≤ n by omega)
      rw [Nat.succ_mul] at this
      rw [hmem, load_store_apart (by omega), load_link (by omega) (by omega)]
    · rw [hmem, Nat.zero_add, slotAt, load_store (Nat.pow_pos (by omega))]
  rwa [slotAt, Nat.zero_mul, Nat.add_zero, ← hn] at hchain

theorem nodup_slotsOf (c : ObjectClass) (a : Nat) : (slotsOf c a).Nodup := by
  refine List.Nodup.map (fun i j hij => ?_) List.nodup_range'
  have hpos := Nat.lt_of_lt_of_le c.pointer_pos c.pointer_le
  exact Nat.eq_of_mul_eq_mul_right hpos (Nat.add_left_cancel hij)

theorem Inv.refill (hi : Inv c s []) (hf : Fits c s.chunks a) : Inv c (refill c s a) (slotsOf c a) where
  apart := List.Pairwise.cons hf.2.2 hi.apart
  bound b hb := by
    rcases List.mem_cons.1 hb with rfl | hb
    · exact ⟨hf.1, hf.2.1⟩
    · exact hi.bound b hb
  chain := chain_refill hf.1 hf.2.1
  nodup := by
    refine List.nodup_append.2 ⟨nodup_slotsOf c a, hi.nodup, ?_⟩
    rintro p hp q hq rfl
    obtain ⟨i, hlt, rfl⟩ := mem_slotsOf.1 hp
    obtain ⟨b, hb, j, hj, he⟩ := hi.slot _ hq
    have hap := hf.2.2 b hb
    have := lt_chunk hlt
    have := lt_chunk hj
    have := c.pointer_pos
    have := c.pointer_le
    omega
  slot p hp := by
    rcases List.mem_append.1 hp with hp | hp
    · obtain ⟨i, hlt, rfl⟩ := mem_slotsOf.1 hp
      exact ⟨a, List.mem_cons_self, i, hlt, rfl⟩
    · exact (hi.slot p hp).mono
  useCount := hi.useCount
  allocCount := by
    change s.mTotalAllocCount + Int32.ofNat c.allocCount = Int32.ofNat (s.live.length + (slotsOf c a).length)
    rw [hi.allocCount, length_slotsOf, List.length_nil, Nat.add_zero, Int32.ofNat_add]

theorem Inv.take (hi : Inv c s free) (h0 : s.mFreeList ≠ 0) :
    ∃ t, free = s.mFreeList :: t ∧ Inv c (take c s).2 t := by
  obtain ⟨t, rfl, ht⟩ := hi.chain.pop h0
  have hperm : (t ++ s.mFreeList :: s.live).Perm (s.mFreeList :: t ++ s.live) := List.perm_middle
  refine ⟨t, rfl, hi.apart, hi.bound, ht, hperm.nodup_iff.2 hi.nodup, fun p hp => hi.slot p (hperm.mem_iff.1 hp), ?_, ?_⟩
  · change s.mCurrentUseCount + 1 = Int32.ofNat (s.mFreeList :: s.live).length
    rw [hi.useCount, List.length_cons]
    exact (Int32.ofNat_add _ 1).symm
  · change s.mTotalAllocCount = Int32.ofNat ((s.mFreeList :: s.live).length + t.length)
    rw [hi.allocCount, List.length_cons, List.length_cons, Nat.add_right_comm, Nat.add_assoc]

theorem Inv.delete (hi : Inv c s free) (hp : p ∈ s.live) (hs : operatorDelete c s p = some s') : Inv c s' (p :: free) := by
  unfold operatorDelete at hs
  split at hs <;> cases hs
  have hperm : (p :: free ++ s.live.erase p).Perm (free ++ s.live) :=
    List.perm_middle.symm.trans ((List.perm_cons_erase hp).symm.append_left free)
  have hslot := hi.slot p (List.mem_append_right free hp)
  have hnot : p ∉ free := fun hf => (List.nodup_append.1 hi.nodup).2.2 p hf p hp rfl
  have hhead : s.mFreeList < 256 ^ c.sizeofPointer := by
    by_cases h0 : s.mFreeList = 0
    · rw [h0]
      exact Nat.pow_pos (by omega)
    · obtain ⟨t, rfl, -⟩ := hi.chain.pop h0
      exact (hi.slot_bound (hi.slot _ (List.mem_append_left _ List.mem_cons_self))).2
  refine ⟨hi.apart, hi.bound, hi.chain.push (hi.slot_bound hslot).1 (load_store hhead) fun q hq => ?_,
    hperm.nodup_iff.2 hi.nodup, fun q hq => hi.slot q (hperm.mem_iff.1 hq), ?_, ?_⟩
  · exact load_store_apart (hslot.apart hi.apart (hi.slot q (List.mem_append_left _ hq)) fun he => hnot (he ▸ hq))
  · dsimp only
    rw [hi.useCount, ← List.length_erase_add_one hp, Int32.ofNat_add]
    exact Int32.add_sub_cancel ..
  · dsimp only
    rw [hi.allocCount, ← List.length_erase_add_one hp, List.length_cons, Nat.add_right_comm, Nat.add_assoc]

/-- The program's own memory holds no link. -/
theorem Inv.write (hi : Inv c s free) (ha : Own c s a) (byte : UInt8) :
    Inv c { s with memory := Function.update s.memory a byte } free := by
  refine ⟨hi.apart, hi.bound, hi.chain.frame fun p hp => load_congr fun b hb hlt => Function.update_of_ne ?_ _ _,
    hi.nodup, hi.slot, hi.useCount, hi.allocCount⟩
  rintro rfl
  have hslot := hi.slot p (List.mem_append_left _ hp)
  rcases ha with ⟨q, hq, hqb, hqlt⟩ | hout
  · have hne : p ≠ q := (List.nodup_append.1 hi.nodup).2.2 p hp q hq
    have := hslot.apart hi.apart (hi.slot q (List.mem_append_right _ hq)) hne
    omega
  · obtain ⟨e, he, i, hlt', rfl⟩ := hslot
    have := hout e he
    have := lt_chunk hlt'
    omega

/-! ## Every interleaving -/

/-- A call of `operator new` takes the head of the free list, after a refill if
there is none. -/
theorem operatorNew_ok {chunk : Nat} (hi : Inv c s free) (hn : operatorNew c s chunk = some (p, s')) :
    ∃ s₁ t, Inv c s₁ (p :: t) ∧ s₁.live = s.live ∧ s' = (take c s₁).2 ∧ Inv c s' t ∧
      if s.mFreeList = 0 then free = [] ∧ (p :: t).length = c.allocCount else p :: t = free := by
  unfold operatorNew at hn
  split at hn
  next h0 =>
    split at hn
    next hf =>
      cases hn
      cases (h0 ▸ hi.chain).eq_nil
      have hi₁ := hi.refill hf
      obtain ⟨t, he, ht⟩ := hi₁.take hf.1
      refine ⟨refill c s chunk, t, ?_, rfl, rfl, ht, ?_⟩
      · rw [he] at hi₁
        exact hi₁
      · rw [if_pos h0]
        exact ⟨rfl, (congrArg List.length he).symm.trans length_slotsOf⟩
    · cases hn
  next h0 =>
    cases hn
    obtain ⟨t, he, ht⟩ := hi.take h0
    rw [he] at hi
    exact ⟨s, t, hi, rfl, rfl, ht, by rw [if_neg h0, he]⟩

theorem inv_step {x : Action} (hi : ∃ free, Inv c s free) (hs : s.step c x = some s') : ∃ free, Inv c s' free := by
  obtain ⟨free, hi⟩ := hi
  cases x with
  | new chunk =>
    obtain ⟨⟨p, s₁⟩, hn, rfl⟩ := Option.map_eq_some_iff.1 hs
    obtain ⟨_, t, -, -, -, ht, -⟩ := operatorNew_ok hi hn
    exact ⟨t, ht⟩
  | delete obj =>
    simp only [State.step] at hs
    split at hs
    next hp => exact ⟨_, hi.delete hp hs⟩
    · cases hs
  | write a byte =>
    simp only [State.step] at hs
    split at hs
    next ha =>
      cases hs
      exact ⟨free, hi.write ha byte⟩
    · cases hs

theorem inv_run {memory : Nat → UInt8} {xs : List Action} (hr : run (State.step c) (State.init memory) xs = some s) :
    ∃ free, Inv c s free :=
  inv_of_run (fun _ _ _ hi hs => inv_step hi hs) ⟨[], inv_init memory⟩ hr

/-- The free list is a chain apart from the live slots, these are apart from each
other, the counters are right, `operator new` returns a slot that is not live,
and the assert of `operator delete` holds. -/
structure Separate (c : ObjectClass) (s : State) : Prop where
  free : ∃ free, Chain (load c s.memory) 0 s.mFreeList free ∧ free.Nodup ∧ (∀ p ∈ free, p ∉ s.live) ∧
    s.mTotalAllocCount.toInt = s.live.length + free.length
  useCount : s.mCurrentUseCount.toInt = s.live.length
  live : s.live.Nodup ∧ (∀ p ∈ s.live, Slot c s.chunks p) ∧
    ∀ p ∈ s.live, ∀ q ∈ s.live, p ≠ q → p + c.sizeofTOBJECT ≤ q ∨ q + c.sizeofTOBJECT ≤ p
  new : ∀ chunk p s', operatorNew c s chunk = some (p, s') → p ∉ s.live ∧ Slot c s'.chunks p ∧ s'.live = p :: s.live
  delete : ∀ p ∈ s.live, (operatorDelete c s p).isSome

/-- The invariant, with all slots within what an `int` counts. -/
structure Kept (c : ObjectClass) (s : State) (free : List Nat) : Prop where
  inv : Inv c s free
  lt : s.live.length + free.length < 2 ^ 31

theorem Kept.separate (hk : Kept c s free) : Separate c s := by
  have hi := hk.inv
  have hlt := hk.lt
  have hnodup := List.nodup_append.1 hi.nodup
  have hslot (p : Nat) (hp : p ∈ s.live) : Slot c s.chunks p := hi.slot p (List.mem_append_right free hp)
  have huse : s.mCurrentUseCount.toInt = s.live.length := by
    rw [hi.useCount, Int32.toInt_ofNat_of_lt (by omega)]
  have htotal : s.mTotalAllocCount.toInt = s.live.length + free.length := by
    rw [hi.allocCount, Int32.toInt_ofNat_of_lt hlt, Nat.cast_add]
  refine ⟨⟨free, hi.chain, hnodup.1, fun p hf hp => hnodup.2.2 p hf p hp rfl, htotal⟩, huse,
    ⟨hnodup.2.1, hslot, fun p hp q hq hne => (hslot p hp).apart hi.apart (hslot q hq) hne⟩, fun chunk p s' hn => ?_,
    fun p hp => ?_⟩
  · obtain ⟨s₁, t, hi₁, hlive, rfl, ht, -⟩ := operatorNew_ok hi hn
    have hp : s₁.mFreeList = p := hi₁.chain.1
    have hdisj := (List.nodup_append.1 hi₁.nodup).2.2 p List.mem_cons_self
    refine ⟨fun hp => hdisj p (hlive ▸ hp) rfl, ht.slot p (List.mem_append_right t ?_), ?_⟩
    · rw [take, hp]
      exact List.mem_cons_self
    · rw [take, hp, hlive]
  · have hlen := List.length_pos_of_mem hp
    have hpos : 0 < s.mCurrentUseCount := by
      rw [Int32.lt_iff_toInt_lt, huse, Int32.toInt_zero]
      omega
    rw [operatorDelete, if_pos hpos]
    rfl

theorem kept_step {x : Action} (hk : ∃ free, Kept c s free) (hx : Room c s x) (hs : s.step c x = some s') :
    ∃ free, Kept c s' free := by
  obtain ⟨free, hi, hlt⟩ := hk
  cases x with
  | new chunk =>
    obtain ⟨⟨p, s₁⟩, hn, rfl⟩ := Option.map_eq_some_iff.1 hs
    obtain ⟨s₀, t, -, hlive, rfl, ht, hlen⟩ := operatorNew_ok hi hn
    refine ⟨t, ht, ?_⟩
    have htake : (take c s₀).2.live.length = s.live.length + 1 := congrArg (·.length + 1) hlive
    rw [htake]
    split at hlen
    next h0 =>
      have := hx h0
      have := hlen.2
      rw [List.length_cons] at this
      omega
    · rw [← hlen, List.length_cons] at hlt
      omega
  | delete obj =>
    simp only [State.step] at hs
    split at hs
    next hp =>
      refine ⟨_, hi.delete hp hs, ?_⟩
      unfold operatorDelete at hs
      split at hs <;> cases hs
      have := List.length_erase_add_one hp
      rw [List.length_cons]
      dsimp only
      omega
    · cases hs
  | write a byte =>
    simp only [State.step] at hs
    split at hs
    next ha =>
      cases hs
      exact ⟨free, hi.write ha byte, hlt⟩
    · cases hs

/-- In every state of a run the slots are separate and counted if and only if no
chunk takes their number to 2^31. -/
theorem slots_separate_iff (c : ObjectClass) {memory : Nat → UInt8} {xs : List Action} {s : State}
    (hr : run (State.step c) (State.init memory) xs = some s) :
    (∀ xs' s', xs' <+: xs → run (State.step c) (State.init memory) xs' = some s' → Separate c s') ↔
      Meets (State.step c) (Room c) (State.init memory) xs := by
  constructor
  · intro hall
    refine meets_of_split fun xs₁ x xs₂ s₁ he hr₁ => ?_
    obtain ⟨s₁', hr₁', hr₂⟩ := run_append.1 (he ▸ hr)
    cases hr₁.symm.trans hr₁'
    obtain ⟨s₂, hs, -⟩ := run_cons.1 hr₂
    have hsep := hall (xs₁ ++ [x]) s₂ ⟨xs₂, by rw [he, List.append_assoc, List.singleton_append]⟩
      (run_append.2 ⟨s₁, hr₁, run_cons.2 ⟨s₂, hs, run_nil s₂⟩⟩)
    cases x with
    | delete | write => trivial
    | new chunk =>
      intro h0
      obtain ⟨free, hi⟩ := inv_run hr₁
      obtain ⟨⟨p, s₂⟩, hn, rfl⟩ := Option.map_eq_some_iff.1 hs
      obtain ⟨s₀, t, -, hlive, rfl, ht, hlen⟩ := operatorNew_ok hi hn
      rw [if_pos h0, List.length_cons] at hlen
      obtain ⟨free', hchain, -, -, htotal⟩ := hsep.free
      obtain rfl := hchain.unique ht.chain
      have htake : (take c s₀).2.live.length = s₁.live.length + 1 := congrArg (·.length + 1) hlive
      simp only [htake] at htotal
      have := (take c s₀).2.mTotalAllocCount.toInt_lt
      omega
  · intro hm xs' s' ⟨ys, he⟩ hr'
    obtain ⟨free, hk⟩ := inv_of_meets (I := fun s => ∃ free, Kept c s free) (fun _ _ _ => kept_step)
      ⟨[], inv_init memory, Nat.pow_pos (by decide)⟩ (meets_append (he ▸ hm) hr').1 hr'
    exact hk.separate

/-- A pool of three objects of twelve bytes, on Win32. -/
def three : ObjectClass := ⟨4, 12, 3, by decide, by decide, by decide, by decide⟩

theorem slots_separate_iff_reused : ∃ s, run (State.step three) (State.init fun _ => 7)
    [.new 4096, .new 0, .write 4100 255, .delete 4096, .new 0, .new 0, .new 8192] = some s ∧
    s.live = [8192, 4120, 4096, 4108] ∧ s.mTotalAllocCount = 6 ∧ Separate three s := by
  have hmap : (run (State.step three) (State.init fun _ => 7)
      [.new 4096, .new 0, .write 4100 255, .delete 4096, .new 0, .new 0, .new 8192]).map
        (fun s => (s.live, s.mTotalAllocCount)) = some ([8192, 4120, 4096, 4108], 6) := by
    decide +kernel
  obtain ⟨s, hr, hs⟩ := Option.map_eq_some_iff.1 hmap
  simp only [Prod.mk.injEq] at hs
  exact ⟨s, hr, hs.1, hs.2, (slots_separate_iff _ hr).2 (by decide +kernel) _ s (List.prefix_refl _) hr⟩

/-! ## Too many slots -/

/-- Objects are made until `n` chunks from `a` on are used up. -/
def fill (c : ObjectClass) (a n : Nat) : List Action :=
  (List.range n).flatMap fun i => List.replicate c.allocCount (.new (a + i * chunkSize c))

/-- From a list of free slots objects can be made one after the other. -/
theorem exists_news (hi : Inv c s free) (chunk : Nat) {k : Nat} (hk : k ≤ free.length) :
    ∃ s' t, run (State.step c) s (List.replicate k (.new chunk)) = some s' ∧ Inv c s' t ∧ t.length + k = free.length ∧
      s'.live.length = s.live.length + k ∧ s'.chunks = s.chunks := by
  induction k generalizing s free with
  | zero => exact ⟨s, free, rfl, hi, rfl, rfl, rfl⟩
  | succ k ih =>
    have h0 : s.mFreeList ≠ 0 := by
      intro h0
      have hnil : free = [] := Chain.eq_nil (h0 ▸ hi.chain)
      rw [hnil] at hk
      cases hk
    obtain ⟨t, rfl, ht⟩ := hi.take h0
    have hs : s.step c (.new chunk) = some (take c s).2 := by simp [State.step, operatorNew, h0]
    obtain ⟨s', t', hr, hi', hlen, hlive, hchunks⟩ := ih ht (Nat.le_of_succ_le_succ hk)
    refine ⟨s', t', run_cons.2 ⟨_, hs, hr⟩, hi', ?_, ?_, hchunks⟩
    · rw [List.length_cons, ← hlen]
      omega
    · rw [hlive, take, List.length_cons]
      omega

/-- So do chunks one behind the other. -/
theorem exists_fill (memory : Nat → UInt8) (ha : a ≠ 0) {n : Nat} (hb : a + n * chunkSize c ≤ 256 ^ c.sizeofPointer) :
    ∃ s, run (State.step c) (State.init memory) (fill c a n) = some s ∧ Inv c s [] ∧
      s.live.length = n * c.allocCount ∧ ∀ b ∈ s.chunks, b + chunkSize c ≤ a + n * chunkSize c := by
  induction n with
  | zero => exact ⟨_, rfl, inv_init memory, (Nat.zero_mul _).symm, by simp [State.init]⟩
  | succ n ih =>
    rw [Nat.succ_mul] at hb
    simp only [Nat.succ_mul]
    obtain ⟨s, hr, hi, hlive, hchunks⟩ := ih (by omega)
    have hfits : Fits c s.chunks (a + n * chunkSize c) :=
      ⟨by omega, by omega, fun b hb => .inr (hchunks b hb)⟩
    have h0 : s.mFreeList = 0 := hi.chain
    obtain ⟨t, he, ht⟩ := (hi.refill hfits).take hfits.1
    have hs : s.step c (.new (a + n * chunkSize c)) = some (take c (refill c s (a + n * chunkSize c))).2 := by
      simp [State.step, operatorNew, h0, hfits]
    obtain ⟨k, hk⟩ : ∃ k, c.allocCount = k + 1 := ⟨c.allocCount - 1, by have := c.count_pos; omega⟩
    have htlen : t.length = k := by
      have hlen := congrArg List.length he
      rw [length_slotsOf, List.length_cons] at hlen
      omega
    obtain ⟨s', t', hr', hi', hlen', hlive', hchunks'⟩ := exists_news ht (a + n * chunkSize c) htlen.ge
    obtain rfl : t' = [] := List.eq_nil_of_length_eq_zero (by omega)
    refine ⟨s', ?_, hi', ?_, fun b hb => ?_⟩
    · rw [fill, List.range_succ, List.flatMap_append, run_append]
      refine ⟨s, hr, ?_⟩
      rw [List.flatMap_singleton, hk, List.replicate_succ]
      exact run_cons.2 ⟨_, hs, hr'⟩
    · have htake : (take c (refill c s (a + n * chunkSize c))).2.live.length = s.live.length + 1 := rfl
      rw [hlive', htake, hlive]
      omega
    · rw [hchunks'] at hb
      rcases List.mem_cons.1 hb with rfl | hb
      · omega
      · have := hchunks b hb
        omega

/-- A pool of a hundred objects of eight bytes, on x64. -/
def hundred : ObjectClass := ⟨8, 8, 100, by decide, by decide, by decide, by decide⟩

/-- 2147483700 live objects, and none can be deleted. -/
theorem not_separate_full : ∃ s, run (State.step hundred) (State.init fun _ => 0) (fill hundred 4096 21474837) = some s ∧
    ¬ Separate hundred s ∧ ∀ p, operatorDelete hundred s p = none := by
  obtain ⟨s, hr, hi, hlive, -⟩ := exists_fill (c := hundred) (a := 4096) (n := 21474837) (fun _ => 0) (by decide) (by decide)
  have huse : s.mCurrentUseCount = Int32.ofNat 2147483700 := by rw [hi.useCount, hlive]; rfl
  refine ⟨s, hr, fun hsep => ?_, fun p => ?_⟩
  · have hcount := hsep.useCount
    have := s.mCurrentUseCount.toInt_lt
    have hall : s.live.length = 2147483700 := hlive
    omega
  · rw [operatorDelete, huse, if_neg (by decide)]

end GameServer.ObjectPool
