import Mathlib.Algebra.Order.Ring.Int
import Mathlib.Data.Finset.Max
import Mathlib.Logic.Relation
import Mathlib.Data.Int.ConditionallyCompleteOrder
import Mathlib.Order.ConditionallyCompleteLattice.Basic
import GameServer.FastSpinlock.Progress
import GameServer.Lib.Entries
import GameServer.LockOrderChecker
/-!
# No deadlock under the order check

A thread inside an enter function has that lock on top of its stack, and every
lock it holds or claims is on the stack. The check makes the stack strictly
ordered, so along `WaitsFor` the awaited lock goes up, or stays while the claim
is passed from a thread without to the one with it. Two claims of one lock take
2049 threads: the write field of the flag has eleven bits, so with 2048 write
adds in it the next one looks like the only one.
-/

namespace GameServer

open Lib

namespace LockOrderChecker

open FastSpinlock (Phase)

variable {Λ : Type*} {mLockOrder : Λ → Int} {st st' : List Λ} {lock : Λ} {i j n : Nat}
  {f f' : Λ → BitVec 32} {t t' u : Thread Λ} {c : Call Λ}

/-! ## The stack -/

theorem push_eq_some : push mLockOrder st lock = some st' ↔
    st.length < maxLockDepth ∧ (∀ top ∈ st.head?, mLockOrder top < mLockOrder lock) ∧ st' = lock :: st := by
  unfold push
  cases st <;> simp [eq_comm]

/-- `Push` keeps the orders strictly increasing to the top. -/
theorem sorted_push (hs : st.Pairwise fun a b => mLockOrder b < mLockOrder a)
    (h : push mLockOrder st lock = some st') : st'.Pairwise fun a b => mLockOrder b < mLockOrder a := by
  obtain ⟨-, htop, rfl⟩ := push_eq_some.1 h
  refine List.pairwise_cons.2 ⟨fun b hb => ?_, hs⟩
  cases st with
  | nil => simp at hb
  | cons top rest =>
    have htop := htop top rfl
    rcases List.mem_cons.1 hb with rfl | hb
    · exact htop
    · exact lt_trans (List.rel_of_pairwise_cons hs hb) htop

theorem settle_phase : (t.settle lock).phase = t.phase := by
  unfold Thread.settle
  split <;> rfl

theorem settle_stack : (t.settle lock).mLockStack = t.mLockStack := by
  unfold Thread.settle
  split <;> rfl

theorem settle_pending :
    (t.settle lock).pending = if (t.phase lock).holds then none else t.pending := by
  unfold Thread.settle
  split <;> rfl

variable [DecidableEq Λ]

theorem pop_eq_some : pop st lock = some st' ↔ st = lock :: st' := by
  unfold pop
  cases st with
  | nil => simp
  | cons top rest => simp

/-! ## What a thread can do -/

/-- The thread takes the step `c` of `lock`. -/
def Moves (f : Λ → BitVec 32) (t : Thread Λ) (lock : Λ) (c : FastSpinlock.Call) (f' : Λ → BitVec 32)
    (t' : Thread Λ) : Prop :=
  ∃ r, FastSpinlock.act (f lock) (t.phase lock) c = some r ∧ f' = Function.update f lock r.1 ∧
    t'.phase = Function.update t.phase lock r.2

theorem on_eq {k : FastSpinlock.Call} (h : t.on f lock k = some (f', t')) :
    Moves f t lock k f' t' ∧ t'.pending = t.pending ∧ t'.mLockStack = t.mLockStack := by
  simp only [Thread.on, Option.map_eq_some_iff, Prod.mk.injEq] at h
  obtain ⟨r, hr, rfl, rfl⟩ := h
  exact ⟨⟨r, hr, rfl, rfl⟩, rfl, rfl⟩

/-- A step of a thread: an enter function begins, goes on, a lock is left, or is popped. -/
inductive Does (mLockOrder : Λ → Int) (f : Λ → BitVec 32) (t : Thread Λ) (f' : Λ → BitVec 32) (t' : Thread Λ) :
    Call Λ → Prop
  | enter {c : Call Λ} (lock : Λ) (k : FastSpinlock.Call) : c.enters = true → t.pending = none →
      push mLockOrder t.mLockStack lock = some t'.mLockStack → k = .enterWriteLock ∨ k = .enterReadLock →
      Moves f t lock k f' t' → t'.pending = some (.enter lock) → Does mLockOrder f t f' t' c
  | advance (lock : Λ) : t.pending = some (.enter lock) → Moves f t lock .advance f' t' →
      t'.mLockStack = t.mLockStack →
      t'.pending = (if (t'.phase lock).holds then none else some (.enter lock)) →
      Does mLockOrder f t f' t' .advance
  | leave {c : Call Λ} (lock : Λ) (k : FastSpinlock.Call) : t.pending = none →
      k = .leaveWriteLock ∨ k = .leaveReadLock → Moves f t lock k f' t' →
      t'.mLockStack = t.mLockStack → t'.pending = some (.pop lock) → Does mLockOrder f t f' t' c
  | pop (lock : Λ) : t.pending = some (.pop lock) → f' = f → t'.phase = t.phase →
      t.mLockStack = lock :: t'.mLockStack → t'.pending = none → Does mLockOrder f t f' t' .advance

section
variable (ho : ∀ lock, mLockOrder lock ≠ loDontCare)

include ho in
theorem does_enter {k : FastSpinlock.Call} (hc : c.enters = true) (hk : k = .enterWriteLock ∨ k = .enterReadLock)
    (h : t.enter mLockOrder f lock k = some (f', t')) : Does mLockOrder f t f' t' c := by
  simp only [Thread.enter, if_neg (ho lock), Option.ite_none_right_eq_some, Option.bind_eq_some_iff] at h
  obtain ⟨hp, st, hst, h⟩ := h
  obtain ⟨hm, hp', hs⟩ := on_eq h
  exact .enter lock k hc hp (hs ▸ hst) hk hm hp'

include ho in
theorem does_leave {k : FastSpinlock.Call} (hk : k = .leaveWriteLock ∨ k = .leaveReadLock)
    (h : t.leave mLockOrder f lock k = some (f', t')) : Does mLockOrder f t f' t' c := by
  simp only [Thread.leave, if_neg (ho lock), Option.ite_none_right_eq_some] at h
  obtain ⟨hp, h⟩ := h
  obtain ⟨hm, hp', hs⟩ := on_eq h
  exact .leave lock k hp hk hm hs hp'

include ho in
theorem act_does (h : t.act mLockOrder f c = some (f', t')) : Does mLockOrder f t f' t' c := by
  cases c with
  | enterWriteLock lock => exact does_enter ho rfl (.inl rfl) h
  | enterReadLock lock => exact does_enter ho rfl (.inr rfl) h
  | leaveWriteLock lock => exact does_leave ho (.inl rfl) h
  | leaveReadLock lock => exact does_leave ho (.inr rfl) h
  | advance =>
    simp only [Thread.act] at h
    split at h
    · cases h
    · obtain ⟨⟨f₁, t₁⟩, h₁, h⟩ := Option.map_eq_some_iff.1 h
      obtain ⟨rfl, rfl⟩ := Prod.mk.inj h
      obtain ⟨hm, hp, hs⟩ := on_eq h₁
      refine .advance _ ‹_› ?_ (settle_stack.trans hs) ?_
      · obtain ⟨r, hr, hf, ht⟩ := hm
        exact ⟨r, hr, hf, settle_phase.trans ht⟩
      · rw [settle_pending, settle_phase, hp, ‹t.pending = _›]
    · obtain ⟨st, hst, h⟩ := Option.map_eq_some_iff.1 h
      obtain ⟨rfl, rfl⟩ := Prod.mk.inj h
      exact .pop _ ‹_› rfl rfl (pop_eq_some.1 hst) rfl

end

/-! ## One thread -/

omit [DecidableEq Λ] in
/-- The stack is strictly ordered and holds every lock the thread is not outside
of; the lock of a pending enter call is on top of it. -/
structure Thread.Ordered (mLockOrder : Λ → Int) (t : Thread Λ) : Prop where
  sorted : t.mLockStack.Pairwise fun a b => mLockOrder b < mLockOrder a
  inside : ∀ l, t.phase l ≠ .outside → l ∈ t.mLockStack
  entering : ∀ l, (t.phase l).entering = true → t.pending = some (.enter l)
  top : ∀ l, t.pending = some (.enter l) → t.mLockStack.head? = some l ∧ (t.phase l).entering = true
  left : ∀ l, t.pending = some (.pop l) → t.phase l = .outside

theorem ordered_does (ht : t.Ordered mLockOrder) (h : Does mLockOrder f t f' t' c) : t'.Ordered mLockOrder := by
  cases h with
  | enter lock k _ hp hst hk hm hp' =>
    obtain ⟨r, hr, -, hph⟩ := hm
    obtain ⟨-, hre, -⟩ := FastSpinlock.phase_enter hk hr
    obtain ⟨-, -, hs⟩ := push_eq_some.1 hst
    refine ⟨sorted_push ht.sorted hst, fun l hl => ?_, fun l hl => ?_, fun l hl => ?_, fun l hl => ?_⟩
    · by_cases hll : l = lock
      · simp [hs, hll]
      · rw [hph, Function.update_of_ne hll] at hl
        exact hs ▸ List.mem_cons_of_mem _ (ht.inside l hl)
    · by_cases hll : l = lock
      · exact hll ▸ hp'
      · rw [hph, Function.update_of_ne hll] at hl
        simp [ht.entering l hl] at hp
    · rw [hp'] at hl
      cases hl
      exact ⟨by rw [hs]; rfl, by rw [hph, Function.update_self]; exact hre⟩
    · simp [hp'] at hl
  | advance lock hp hm hs hp' =>
    obtain ⟨r, hr, -, hph⟩ := hm
    obtain ⟨hpe, hro, hrh⟩ := FastSpinlock.phase_advance hr
    have hat : t'.phase lock = r.2 := by rw [hph, Function.update_self]
    refine ⟨hs ▸ ht.sorted, fun l hl => ?_, fun l hl => ?_, fun l hl => ?_, fun l hl => ?_⟩
    · rw [hs]
      by_cases hll : l = lock
      · exact ht.inside l (by rw [hll]; rintro ho; simp [ho, Phase.entering] at hpe)
      · rw [hph, Function.update_of_ne hll] at hl
        exact ht.inside l hl
    · by_cases hll : l = lock
      · subst hll
        rw [hat, hrh, Bool.not_eq_true'] at hl
        rw [hp', hat, hl]
        rfl
      · rw [hph, Function.update_of_ne hll] at hl
        have := ht.entering l hl
        simp only [hp, Option.some.injEq, Pending.enter.injEq] at this
        exact absurd this.symm hll
    · rw [hp', Option.ite_none_left_eq_some] at hl
      obtain ⟨hh, hl⟩ := hl
      cases hl
      rw [hat, Bool.not_eq_true] at hh
      exact ⟨hs ▸ (ht.top _ hp).1, by rw [hat, hrh, hh]; rfl⟩
    · rw [hp', Option.ite_none_left_eq_some] at hl
      simp at hl
  | leave lock k hp hk hm hs hp' =>
    obtain ⟨r, hr, -, hph⟩ := hm
    obtain ⟨-, hro⟩ := FastSpinlock.phase_leave hk hr
    have hat : t'.phase lock = .outside := by rw [hph, Function.update_self, hro]
    refine ⟨hs ▸ ht.sorted, fun l hl => ?_, fun l hl => ?_, fun l hl => ?_, fun l hl => ?_⟩
    · by_cases hll : l = lock
      · exact absurd (hll ▸ hat) hl
      · rw [hph, Function.update_of_ne hll] at hl
        exact hs ▸ ht.inside l hl
    · by_cases hll : l = lock
      · simp [hll, hat, Phase.entering] at hl
      · rw [hph, Function.update_of_ne hll] at hl
        simp [ht.entering l hl] at hp
    · simp [hp'] at hl
    · rw [hp'] at hl
      cases hl
      exact hat
  | pop lock hp _ hph hs hp' =>
    refine ⟨(List.pairwise_cons.1 (hs ▸ ht.sorted)).2, fun l hl => ?_, fun l hl => ?_, ?_, ?_⟩
    · rw [hph] at hl
      have hmem := ht.inside l hl
      rw [hs] at hmem
      rcases List.mem_cons.1 hmem with rfl | hmem
      · exact absurd (ht.left _ hp) hl
      · exact hmem
    · rw [hph] at hl
      simp [ht.entering l hl] at hp
    · simp [hp']
    · simp [hp']

/-! ## All threads -/

namespace Process

variable {s s' : Process Λ} {a : Nat × Call Λ}

/-- One lock with what every thread does at it. -/
def spinlock (s : Process Λ) (l : Λ) : FastSpinlock := ⟨s.mLockFlag l, s.threads.map (·.phase l)⟩

theorem step_eq (h : step mLockOrder s a = some s') :
    ∃ t r, s.threads[a.1]? = some t ∧ t.act mLockOrder s.mLockFlag a.2 = some r ∧
      s' = ⟨r.1, s.threads.set a.1 r.2⟩ := by
  simp only [step, Option.bind_eq_some_iff, Option.map_eq_some_iff] at h
  obtain ⟨t, ht, r, hr, rfl⟩ := h
  exact ⟨t, r, ht, hr, rfl⟩

omit [DecidableEq Λ] in
theorem spinlock_set {l : Λ} (ht : s.threads[i]? = some t) (hf : f' l = s.mLockFlag l)
    (hp : t'.phase l = t.phase l) : spinlock ⟨f', s.threads.set i t'⟩ l = s.spinlock l := by
  obtain ⟨hlt, rfl⟩ := List.getElem?_eq_some_iff.1 ht
  simp only [spinlock, List.map_set, hf, hp]
  rw [← List.map_set (f := fun u : Thread Λ => u.phase l), List.set_getElem_self]

theorem spinlock_moves {k : FastSpinlock.Call} (ht : s.threads[i]? = some t)
    (h : Moves s.mLockFlag t lock k f' t') (l : Λ) :
    spinlock ⟨f', s.threads.set i t'⟩ l = s.spinlock l ∨
      FastSpinlock.step (s.spinlock l) (i, k) = some (spinlock ⟨f', s.threads.set i t'⟩ l) := by
  obtain ⟨r, hr, rfl, hph⟩ := h
  by_cases hl : l = lock
  · subst hl
    right
    simp [FastSpinlock.step, spinlock, ht, hr, List.map_set, hph]
  · exact .inl (spinlock_set ht (Function.update_of_ne hl ..) (by rw [hph, Function.update_of_ne hl]))

section
variable (ho : ∀ lock, mLockOrder lock ≠ loDontCare)
include ho

/-- Each step is a step of one lock, or none at all, for every lock. -/
theorem step_spinlock (h : step mLockOrder s a = some s') (l : Λ) :
    s'.spinlock l = s.spinlock l ∨ ∃ k, FastSpinlock.step (s.spinlock l) (a.1, k) = some (s'.spinlock l) := by
  obtain ⟨i, c⟩ := a
  obtain ⟨t, r, ht, hr, rfl⟩ := step_eq h
  cases act_does ho hr with
  | enter lock k _ _ _ _ hm _ => exact (spinlock_moves ht hm l).imp_right (⟨k, ·⟩)
  | advance lock _ hm _ _ => exact (spinlock_moves ht hm l).imp_right (⟨.advance, ·⟩)
  | leave lock k _ _ hm _ _ => exact (spinlock_moves ht hm l).imp_right (⟨k, ·⟩)
  | pop lock _ hf hph _ _ => exact .inl (spinlock_set ht (by rw [hf]) (by rw [hph]))

/-- What the steps of a lock keep is kept for each lock of the process. -/
theorem inv_spinlock {I : FastSpinlock → Prop}
    (hI : ∀ s a s', I s → FastSpinlock.step s a = some s' → I s') (h0 : ∀ l, I ((start Λ n).spinlock l))
    {as : List (Nat × Call Λ)} (hr : run (step mLockOrder) (start Λ n) as = some s) : ∀ l, I (s.spinlock l) := by
  refine inv_of_run (I := fun s => ∀ l, I (s.spinlock l)) (fun s a s' hs h l => ?_) h0 hr
  rcases step_spinlock ho h l with heq | ⟨k, hk⟩
  · exact heq ▸ hs l
  · exact hI _ _ _ (hs l) hk

theorem step_ordered (hs : ∀ t ∈ s.threads, t.Ordered mLockOrder) (h : step mLockOrder s a = some s') :
    ∀ t ∈ s'.threads, t.Ordered mLockOrder := by
  obtain ⟨t, r, ht, hr, rfl⟩ := step_eq h
  exact forall_set hs (ordered_does (hs t (List.mem_of_getElem? ht)) (act_does ho hr))

theorem run_ordered {as : List (Nat × Call Λ)} (hr : run (step mLockOrder) (start Λ n) as = some s) :
    ∀ t ∈ s.threads, t.Ordered mLockOrder := by
  refine inv_of_run (I := fun s => ∀ t ∈ s.threads, t.Ordered mLockOrder) (fun _ _ _ => step_ordered ho) ?_ hr
  intro t ht
  obtain rfl := List.eq_of_mem_replicate ht
  constructor <;> simp [Phase.entering]

end

omit [DecidableEq Λ] in
theorem spinlock_start (n : Nat) (l : Λ) : (start Λ n).spinlock l = FastSpinlock.start n := by
  simp [spinlock, start, FastSpinlock.start]

/-! ## Waiting -/

omit [DecidableEq Λ] in
theorem Waits.unique {l l' : Λ} (h : s.Waits i l) (h' : s.Waits i l') : l = l' := by
  obtain ⟨t, ht, hl⟩ := h
  obtain ⟨t', ht', hl'⟩ := h'
  cases ht.symm.trans ht'
  simpa [hl] using hl'

omit [DecidableEq Λ] in
/-- Where one claim is counted, it is one thread's. -/
theorem Claims.unique {l : Λ} (hone : (s.spinlock l).threads.countP Phase.claims ≤ 1) (hi : s.Claims i l)
    (hj : s.Claims j l) : i = j := by
  by_contra hij
  obtain ⟨t, ht, htc⟩ := hi
  obtain ⟨u, hu, huc⟩ := hj
  have hset := countP_set_add (p := Phase.claims) (b := .outside)
    (show (s.spinlock l).threads[i]? = some (t.phase l) by simp [spinlock, ht])
  have hother : 0 < ((s.spinlock l).threads.set i .outside).countP Phase.claims := by
    refine List.countP_pos_iff.2 ⟨u.phase l, List.mem_of_getElem? (i := j) ?_, huc⟩
    simp [spinlock, List.getElem?_set_ne hij, hu]
  rw [htc] at hset
  simp only [Bool.toNat_true, Phase.claims, Bool.toNat_false] at hset
  omega

omit [DecidableEq Λ] in
/-- A thread that waits has entered only locks of a lower order, and the awaited
one only as a writer that waits for the readers. -/
theorem lower_of_waits {l l' : Λ} (hs : ∀ t ∈ s.threads, t.Ordered mLockOrder) (hw : s.Waits i l')
    (hh : s.Holds i l ∨ s.Claims i l) : mLockOrder l < mLockOrder l' ∨ l = l' ∧ ¬ s.Holds i l := by
  obtain ⟨t, ht, hp⟩ := hw
  have hord := hs t (List.mem_of_getElem? ht)
  obtain ⟨htop, henter⟩ := hord.top l' hp
  have hin : l ∈ t.mLockStack := by
    refine hord.inside l fun hout => ?_
    rcases hh with ⟨u, hu, hl⟩ | ⟨u, hu, hl⟩ <;> cases ht.symm.trans hu
    · simp [hout, Phase.holds] at hl
    · simp [hout, Phase.claims] at hl
  by_cases hll : l = l'
  · refine .inr ⟨hll, ?_⟩
    rintro ⟨u, hu, hl⟩
    cases ht.symm.trans hu
    rw [hll] at hl
    cases hph : t.phase l' <;> simp [hph, Phase.holds, Phase.entering] at hl henter
  · obtain ⟨rest, hrest⟩ := List.head?_eq_some_iff.1 htop
    rw [hrest] at hin
    have hsorted := hord.sorted
    rw [hrest] at hsorted
    exact .inl (List.rel_of_pairwise_cons hsorted ((List.mem_cons.1 hin).resolve_left hll))

/-- The order of the awaited lock, with a writer that has its claim above the
others, and any thread that does not wait above those. -/
def rank (mLockOrder : Λ → Int) (s : Process Λ) (i : Nat) : WithTop Int :=
  match s.threads[i]? with
  | some ⟨phase, some (.enter l), _⟩ => ((2 * mLockOrder l + if (phase l).claims then 1 else 0 : Int) : WithTop Int)
  | _ => ⊤

open Classical in
omit [DecidableEq Λ] in
theorem rank_of_waits {l : Λ} (h : s.Waits i l) :
    rank mLockOrder s i = ((2 * mLockOrder l + if s.Claims i l then 1 else 0 : Int) : WithTop Int) := by
  obtain ⟨⟨phase, pending, st⟩, ht, rfl⟩ := h
  have hc : s.Claims i l ↔ (phase l).claims = true := by simp [Claims, ht]
  simp only [rank, ht, hc]

omit [DecidableEq Λ] in
theorem rank_of_not_waits (h : ∀ l, ¬ s.Waits i l) : rank mLockOrder s i = ⊤ := by
  unfold rank
  split
  · exact absurd ⟨_, ‹_›, rfl⟩ (h _)
  · rfl

omit [DecidableEq Λ] in
/-- Along `WaitsFor` the rank goes up, where a lock is claimed by one thread at most. -/
theorem rank_lt (hs : ∀ t ∈ s.threads, t.Ordered mLockOrder) (hone : ∀ l, (s.spinlock l).threads.countP Phase.claims ≤ 1)
    (h : s.WaitsFor i j) : rank mLockOrder s i < rank mLockOrder s j := by
  classical
  obtain ⟨hij, l, hw, hh⟩ := h
  by_cases hj : ∃ l', s.Waits j l'
  · obtain ⟨l', hj⟩ := hj
    rw [rank_of_waits hw, rank_of_waits hj, WithTop.coe_lt_coe]
    rcases lower_of_waits hs hj hh with hlt | ⟨rfl, hnh⟩
    · split <;> split <;> omega
    · have hc := hh.resolve_left hnh
      rw [if_neg fun hi => hij (Claims.unique (hone l) hi hc), if_pos hc]
      omega
  · rw [rank_of_waits hw, rank_of_not_waits (not_exists.1 hj)]
    exact WithTop.coe_lt_top _

omit [DecidableEq Λ] in
theorem acyclic (hs : ∀ t ∈ s.threads, t.Ordered mLockOrder) (hone : ∀ l, (s.spinlock l).threads.countP Phase.claims ≤ 1)
    (i : Nat) : ¬ Relation.TransGen s.WaitsFor i i := by
  intro h
  have hlt := h.lift (p := (· < ·)) (rank mLockOrder s) fun _ _ => rank_lt hs hone
  rw [Relation.transGen_eq_self] at hlt
  exact lt_irrefl _ hlt

/-- A step of an enter function at one lock is a step of the process. -/
theorem step_of_advance {l : Λ} {x : FastSpinlock} (hs : ∀ t ∈ s.threads, t.Ordered mLockOrder)
    (h : FastSpinlock.step (s.spinlock l) (i, .advance) = some x) :
    ∃ s', step mLockOrder s (i, .advance) = some s' ∧ s'.spinlock l = x := by
  obtain ⟨p, f', p', hp, ha, rfl⟩ := FastSpinlock.step_eq h
  simp only [spinlock, List.getElem?_map, Option.map_eq_some_iff] at hp
  obtain ⟨t, ht, rfl⟩ := hp
  have hpend := (hs t (List.mem_of_getElem? ht)).entering l (FastSpinlock.phase_advance ha).1
  have hact : FastSpinlock.act (s.mLockFlag l) (t.phase l) .advance = some (f', p') := ha
  refine ⟨_, by simp only [step, ht, Option.bind_some, Thread.act, hpend, Thread.on, hact]; rfl, ?_⟩
  simp [spinlock, List.map_set, settle_phase]

theorem run_of_advances {l : Λ} {x : FastSpinlock} (ho : ∀ lock, mLockOrder lock ≠ loDontCare)
    (hs : ∀ t ∈ s.threads, t.Ordered mLockOrder) (h : (s.spinlock l).Advances x) :
    ∃ (ids : List Nat) (s' : Process Λ),
      run (step mLockOrder) s (ids.map (·, .advance)) = some s' ∧ s'.spinlock l = x := by
  obtain ⟨ids, hr⟩ := h
  induction ids generalizing s with
  | nil => exact ⟨[], s, rfl, Option.some.inj hr⟩
  | cons id ids ih =>
    obtain ⟨x₁, h₁, hr⟩ := run_cons.1 hr
    obtain ⟨s₁, hs₁, rfl⟩ := step_of_advance hs h₁
    obtain ⟨ids', s', hr', hx⟩ := ih (step_ordered ho hs hs₁) hr
    exact ⟨id :: ids', s', run_cons.2 ⟨s₁, hs₁, hr'⟩, hx⟩

omit [DecidableEq Λ] in
/-- Some thread waits for a lock of the highest order any thread waits for. -/
theorem exists_highest (mLockOrder : Λ → Int) (h : ∃ i l, s.Waits i l) :
    ∃ i l, s.Waits i l ∧ ∀ j l', s.Waits j l' → mLockOrder l' ≤ mLockOrder l := by
  classical
  let f (i : Nat) : Int := if h : ∃ l, s.Waits i l then mLockOrder h.choose else 0
  have hf {i : Nat} {l : Λ} (hw : s.Waits i l) : f i = mLockOrder l := by
    have hex : ∃ l, s.Waits i l := ⟨l, hw⟩
    simp only [f, dif_pos hex, hex.choose_spec.unique hw]
  have hmem {i : Nat} {l : Λ} (hw : s.Waits i l) :
      i ∈ (Finset.range s.threads.length).filter fun i => ∃ l, s.Waits i l := by
    obtain ⟨t, ht, -⟩ := id hw
    exact Finset.mem_filter.2 ⟨Finset.mem_range.2 (List.getElem?_eq_some_iff.1 ht).1, l, hw⟩
  obtain ⟨i₀, l₀, h₀⟩ := h
  obtain ⟨i, hi, hmax⟩ := Finset.exists_max_image _ f ⟨i₀, hmem h₀⟩
  obtain ⟨l, hw⟩ := (Finset.mem_filter.1 hi).2
  refine ⟨i, l, hw, fun j l' hj => ?_⟩
  rw [← hf hw, ← hf hj]
  exact hmax j (hmem hj)

/-- Where all threads that hold a lock wait, one that waits for a lock of the
highest order finds it free. -/
theorem exists_completion (ho : ∀ lock, mLockOrder lock ≠ loDontCare)
    (hs : ∀ t ∈ s.threads, t.Ordered mLockOrder) (hc : ∀ l, (s.spinlock l).Counted)
    (hw : ∃ i l, s.Waits i l) (hall : ∀ i l, s.Holds i l → ∃ l', s.Waits i l') :
    ∃ i l as s', s.Waits i l ∧ (∀ a ∈ as, Call.enters (Prod.snd a) = false) ∧
      run (step mLockOrder) s as = some s' ∧ s'.Holds i l := by
  obtain ⟨i, l, hw, hmax⟩ := exists_highest mLockOrder hw
  have hfree : ∀ p ∈ (s.spinlock l).threads, p.holds = false := by
    intro p hp
    obtain ⟨j, hj⟩ := List.getElem?_of_mem hp
    simp only [spinlock, List.getElem?_map, Option.map_eq_some_iff] at hj
    obtain ⟨t, ht, rfl⟩ := hj
    by_contra hh
    have hh : s.Holds j l := ⟨t, ht, Bool.eq_true_of_not_eq_false hh⟩
    obtain ⟨l', hj⟩ := hall j l hh
    rcases lower_of_waits hs hj (.inl hh) with hlt | ⟨-, hnh⟩
    · exact absurd (hmax j l' hj) (not_le.2 hlt)
    · exact hnh hh
  obtain ⟨t, ht, hp⟩ := hw
  obtain ⟨j, q, hj, hq, x, q', hadv, hx, hh⟩ := FastSpinlock.exists_acquires (hc l) hfree
    (show (s.spinlock l).threads[i]? = some (t.phase l) by simp [spinlock, ht])
    ((hs t (List.mem_of_getElem? ht)).top l hp).2
  obtain ⟨ids, s', hr, rfl⟩ := run_of_advances ho hs hadv
  simp only [spinlock, List.getElem?_map, Option.map_eq_some_iff] at hj hx
  obtain ⟨u, hu, rfl⟩ := hj
  obtain ⟨u', hu', rfl⟩ := hx
  refine ⟨j, l, ids.map (·, .advance), s', ⟨u, hu, (hs u (List.mem_of_getElem? hu)).entering l hq⟩, ?_, hr,
    u', hu', hh⟩
  intro a ha
  obtain ⟨id, -, rfl⟩ := List.mem_map.1 ha
  rfl

/-- Up to 2048 threads a lock is claimed by one of them at most. -/
theorem claimed_of_run (ho : ∀ lock, mLockOrder lock ≠ loDontCare) (hn : n ≤ 2048) {as : List (Nat × Call Λ)}
    (hr : run (step mLockOrder) (start Λ n) as = some s) (l : Λ) :
    (s.spinlock l).threads.countP Phase.claims ≤ 1 := by
  refine (inv_spinlock (I := fun x => x.threads.countP Phase.claims ≤ 1 ∧ x.Counted ∧ x.threads.length = n) ho
    (fun x a x' hx h => ?_) (fun l => ?_) hr l).1
  · obtain ⟨hone, hc, hlen⟩ := hx
    have hlen' := (FastSpinlock.length_step h).trans hlen
    have hc' := FastSpinlock.counted_step hc h
    exact ⟨FastSpinlock.claimed_step hone hc' (hlen' ▸ hn) h, hc', hlen'⟩
  · rw [spinlock_start]
    exact ⟨(FastSpinlock.exclusive_start n).claimed, FastSpinlock.counted_start n, List.length_replicate⟩

theorem progress_of_run (ho : ∀ lock, mLockOrder lock ≠ loDontCare) {as : List (Nat × Call Λ)}
    (hr : run (step mLockOrder) (start Λ n) as = some s) (hw : ∃ i l, s.Waits i l) :
    (∃ i l, s.Holds i l ∧ ∀ l', ¬ s.Waits i l') ∨
    ∃ i l as' s', s.Waits i l ∧ (∀ a ∈ as', Call.enters (Prod.snd a) = false) ∧
      run (step mLockOrder) s as' = some s' ∧ s'.Holds i l := by
  have hc := inv_spinlock ho (fun _ _ _ => FastSpinlock.counted_step)
    (fun l => spinlock_start (Λ := Λ) n l ▸ FastSpinlock.counted_start n) hr
  by_cases hall : ∀ i l, s.Holds i l → ∃ l', s.Waits i l'
  · exact .inr (exists_completion ho (run_ordered ho hr) hc hw hall)
  · simp only [not_forall, not_exists, exists_prop] at hall
    exact .inl hall

/-! ## 2049 writers at one lock -/

/-- A thread at `p` of its first lock. -/
def entering (l : Λ) (p : Phase) : Thread Λ := ⟨Function.update (fun _ => .outside) l p, some (.enter l), [l]⟩

/-- `m` threads find the lock free and come to their `InterlockedAdd`s. -/
def arrive (l : Λ) (m : Nat) : List (Nat × Call Λ) :=
  (List.range m).flatMap fun i => [(i, .enterWriteLock l), (i, .advance)]

/-- They add one after the other. -/
def add (m : Nat) : List (Nat × Call Λ) := (List.range m).map (·, .advance)

theorem run_arrive (ho : ∀ lock, mLockOrder lock ≠ loDontCare) (l : Λ) {m : Nat} (hm : m ≤ n) :
    run (step mLockOrder) (start Λ n) (arrive l m) =
      some ⟨fun _ => 0, List.replicate m (entering l .addWrite) ++
        List.replicate (n - m) ⟨fun _ => .outside, none, []⟩⟩ := by
  induction m with
  | zero => rfl
  | succ m ih =>
    rw [arrive, List.range_succ, List.flatMap_append, run_append]
    refine ⟨_, ih (by omega), ?_⟩
    obtain ⟨r, hr⟩ : ∃ r, n - m = r + 1 := ⟨n - m - 1, by omega⟩
    rw [show n - (m + 1) = r by omega, hr, List.replicate_succ (n := r)]
    have hpush : push mLockOrder [] l = some [l] := rfl
    simp [run, step, Thread.act, Thread.enter, Thread.on, Thread.settle, FastSpinlock.act, FastSpinlock.advance,
      hpush, ho l, Phase.entering, Phase.holds, List.replicate_succ', entering]

/-- The first and the 2049th see one write add, their own. -/
def added (l : Λ) (i : Nat) : Thread Λ := entering l (if i % 2048 = 0 then .drain else .backOutWrite)

theorem advance_addWrite (m : Nat) :
    FastSpinlock.advance (BitVec.ofNat 32 (2 ^ 20 * m)) .addWrite =
      (BitVec.ofNat 32 (2 ^ 20 * (m + 1)), if m % 2048 = 0 then .drain else .backOutWrite) := by
  have hsum : BitVec.ofNat 32 (2 ^ 20 * m) + FastSpinlock.lfWriteFlag = BitVec.ofNat 32 (2 ^ 20 * (m + 1)) := by
    rw [← BitVec.toNat_inj, BitVec.toNat_add, BitVec.toNat_ofNat, BitVec.toNat_ofNat,
      show FastSpinlock.lfWriteFlag.toNat = 2 ^ 20 from rfl]
    omega
  have hone : BitVec.ofNat 32 (2 ^ 20 * (m + 1)) &&& FastSpinlock.lfWriteMask = FastSpinlock.lfWriteFlag ↔
      m % 2048 = 0 := by
    rw [FastSpinlock.writeMask_eq_flag, BitVec.toNat_ofNat]
    omega
  simp only [FastSpinlock.advance, hsum, hone]

theorem act_addWrite (l : Λ) (m : Nat) :
    (entering l .addWrite).act mLockOrder (Function.update (fun _ => 0) l (BitVec.ofNat 32 (2 ^ 20 * m))) .advance =
      some (Function.update (fun _ => 0) l (BitVec.ofNat 32 (2 ^ 20 * (m + 1))), added l m) := by
  have hact : FastSpinlock.act (BitVec.ofNat 32 (2 ^ 20 * m)) .addWrite .advance =
      some (BitVec.ofNat 32 (2 ^ 20 * (m + 1)), if m % 2048 = 0 then .drain else .backOutWrite) := by
    rw [← advance_addWrite]
    rfl
  simp only [Thread.act, entering, Thread.on, Function.update_self, hact, Option.map_some, Function.update_idem,
    Prod.map, id]
  split <;> simp [Thread.settle, added, entering, Phase.holds, *]

theorem run_add (l : Λ) (ts : List (Thread Λ)) {m k : Nat} (hm : m ≤ k) :
    run (step mLockOrder) ⟨fun _ => 0, List.replicate k (entering l .addWrite) ++ ts⟩ (add m) =
      some ⟨Function.update (fun _ => 0) l (BitVec.ofNat 32 (2 ^ 20 * m)),
        (List.range m).map (added l) ++ (List.replicate (k - m) (entering l .addWrite) ++ ts)⟩ := by
  induction m with
  | zero => simp [add]
  | succ m ih =>
    rw [add, List.range_succ, List.map_append, run_append]
    refine ⟨_, ih (by omega), run_cons.2 ⟨_, ?_, rfl⟩⟩
    obtain ⟨r, hr⟩ : ∃ r, k - m = r + 1 := ⟨k - m - 1, by omega⟩
    rw [show k - (m + 1) = r by omega, hr, List.replicate_succ (n := r), step]
    have hat : ((List.range m).map (added l) ++
        (entering l .addWrite :: List.replicate r (entering l .addWrite) ++ ts))[m]? =
        some (entering l .addWrite) := by simp
    rw [hat, Option.bind_some, act_addWrite, Option.map_some]
    simp

/-- Of 2049 threads that come together, the first and the last claim the lock. -/
theorem exists_two_claims (ho : ∀ lock, mLockOrder lock ≠ loDontCare) (l : Λ) (hn : 2049 ≤ n) :
    ∃ s, run (step mLockOrder) (start Λ n) (arrive l 2049 ++ add 2049) = some s ∧
      s.WaitsFor 0 2048 ∧ s.WaitsFor 2048 0 := by
  refine ⟨_, run_append.2 ⟨_, run_arrive ho l hn, run_add l _ le_rfl⟩, ?_⟩
  have hclaims {f : Λ → BitVec 32} {ts : List (Thread Λ)} {i : Nat} (hi : i < 2049) (hm : i % 2048 = 0) :
      Waits ⟨f, (List.range 2049).map (added l) ++ ts⟩ i l ∧ Claims ⟨f, (List.range 2049).map (added l) ++ ts⟩ i l := by
    have hat : ((List.range 2049).map (added l) ++ ts)[i]? = some (added l i) := by
      rw [List.getElem?_append_left (by simpa using hi), List.getElem?_map, List.getElem?_range hi, Option.map_some]
    refine ⟨⟨_, hat, rfl⟩, _, hat, ?_⟩
    simp [added, entering, hm, Phase.claims]
  obtain ⟨hw, hc⟩ := hclaims (i := 0) (by decide) rfl
  obtain ⟨hw', hc'⟩ := hclaims (i := 2048) (by decide) rfl
  exact ⟨⟨by decide, l, hw, .inr hc'⟩, by decide, l, hw', .inr hc⟩

/-- Whatever the threads enter and leave, as long as no check of the lock order
fails, there is no deadlock: up to 2048 threads. -/
theorem deadlockFree_iff [Nonempty Λ] (ho : ∀ lock, mLockOrder lock ≠ loDontCare) :
    (∀ as s, run (step mLockOrder) (start Λ n) as = some s → s.DeadlockFree mLockOrder) ↔ n ≤ 2048 := by
  refine ⟨fun h => ?_, fun hn as s hr => ⟨acyclic (run_ordered ho hr) (claimed_of_run ho hn hr), progress_of_run ho hr⟩⟩
  by_contra hn
  obtain ⟨s, hr, h₁, h₂⟩ := exists_two_claims ho (Classical.arbitrary Λ) (Nat.lt_of_not_le hn)
  exact (h _ s hr).acyclic 0 (.head h₁ (.single h₂))

/-- Thread 0 reads the first lock and writes the second; thread 1 has the claim
of the first and waits for thread 0. -/
def crossing : List (Nat × Call Bool) :=
  [(0, .enterReadLock false), (0, .advance), (0, .advance), (1, .enterWriteLock false), (1, .advance),
   (1, .advance), (1, .advance), (0, .enterWriteLock true), (0, .advance)]

theorem deadlockFree_iff_crossing :
    ∃ s, run (step fun l => if l then 2 else 1) (start Bool 2) crossing = some s ∧
      s.Waits 1 false ∧ s.Waits 0 true ∧ s.DeadlockFree fun l => if l then 2 else 1 := by
  have hmap : (run (step fun l => if l then 2 else 1) (start Bool 2) crossing).map
      (·.threads.map (·.pending)) = some [some (.enter true), some (.enter false)] := by decide +kernel
  obtain ⟨s, hr, hs⟩ := Option.map_eq_some_iff.1 hmap
  have hw (i : Nat) : s.threads[i]?.map (·.pending) = [some (Pending.enter true), some (.enter false)][i]? := by
    rw [← hs, List.getElem?_map]
  exact ⟨s, hr, Option.map_eq_some_iff.1 (hw 1), Option.map_eq_some_iff.1 (hw 0),
    (deadlockFree_iff (by decide)).2 (by decide) _ s hr⟩

/-- One lock and 2049 threads that come to write it. -/
theorem not_deadlockFree_crowd :
    ∃ s, run (step fun _ : Unit => 1) (start Unit 2049) (arrive () 2049 ++ add 2049) = some s ∧
      ¬ s.DeadlockFree fun _ => 1 := by
  have ho : ∀ lock : Unit, (fun _ => 1 : Unit → Int) lock ≠ loDontCare := by decide
  obtain ⟨s, hr, h₁, h₂⟩ := exists_two_claims ho () le_rfl
  exact ⟨s, hr, fun h => h.acyclic 0 (.head h₁ (.single h₂))⟩

end Process

end LockOrderChecker

end GameServer
