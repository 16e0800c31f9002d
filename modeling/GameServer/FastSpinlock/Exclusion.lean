import Mathlib.Algebra.BigOperators.Group.List.Basic
import GameServer.FastSpinlock
import GameServer.Lib.Tally
/-!
# What the flag counts

`mLockFlag` is the sum of what the threads have added to it and not taken back,
whatever the number of threads. Below 2048 threads the sum does not leave its
bit fields, so the masked tests count writers and readers exactly and the lock
is exclusive.
-/

namespace GameServer

open Lib

namespace FastSpinlock

variable {f f' : BitVec 32} {p p' : Phase} {ps : List Phase} {c : Call} {i n : Nat}

/-! ## The masks -/

theorem toNat_writeMask (x : BitVec 32) : (x &&& lfWriteMask).toNat = 2 ^ 20 * (x.toNat / 2 ^ 20 % 2048) := by
  have hm : lfWriteMask.toNat = (2 ^ 11 - 1) * 2 ^ 20 := rfl
  rw [BitVec.toNat_and, hm, Nat.mul_comm (2 ^ 20), show 2048 = 2 ^ 11 from rfl]
  refine Nat.eq_of_testBit_eq fun j => ?_
  rw [Nat.testBit_and, Nat.testBit_mul_two_pow, Nat.testBit_mul_two_pow, Nat.testBit_two_pow_sub_one,
    Nat.testBit_mod_two_pow, Nat.testBit_div_two_pow]
  by_cases hj : 20 ≤ j
  · simp [hj, Bool.and_comm]
  · simp [hj]

/-- No write add is seen. -/
theorem writeMask_eq_zero {x : BitVec 32} : x &&& lfWriteMask = 0 ↔ x.toNat / 2 ^ 20 % 2048 = 0 := by
  rw [← BitVec.toNat_inj, toNat_writeMask]
  simp

/-- Exactly one write add is seen. -/
theorem writeMask_eq_flag {x : BitVec 32} : x &&& lfWriteMask = lfWriteFlag ↔ x.toNat / 2 ^ 20 % 2048 = 1 := by
  rw [← BitVec.toNat_inj, toNat_writeMask, show lfWriteFlag.toNat = 2 ^ 20 from rfl]
  omega

/-- No read add is seen. -/
theorem readMask_eq_zero {x : BitVec 32} : x &&& lfReadMask = 0 ↔ x.toNat % 2 ^ 20 = 0 := by
  rw [← BitVec.toNat_inj, BitVec.toNat_and, show lfReadMask.toNat = 2 ^ 20 - 1 from rfl,
    Nat.and_two_pow_sub_one_eq_mod]
  simp

/-! ## One step -/

/-- A step changes the flag by what it changes of the thread's own part. -/
theorem act_added (h : act f p c = some (f', p')) : f' = f - p.added + p'.added := by
  cases c with
  | advance =>
    simp only [act, Option.ite_none_right_eq_some, Option.some.injEq] at h
    obtain ⟨-, h⟩ := h
    cases p <;> simp only [advance, Prod.mk.injEq] at h <;> obtain ⟨rfl, rfl⟩ := h
    case addWrite | addRead => split <;> simp [Phase.added, Phase.wrote, Phase.read]
    case spinWrite | spinRead | drain => split <;> simp [Phase.added, Phase.wrote, Phase.read]
    case backOutWrite | backOutRead => simp [Phase.added, Phase.wrote, Phase.read, sub_eq_add_neg]
    all_goals exact (sub_add_cancel _ _).symm
  | _ =>
    simp only [act, Option.ite_none_right_eq_some, Option.some.injEq, Prod.mk.injEq] at h
    obtain ⟨rfl, rfl, rfl⟩ := h
    simp [Phase.added, Phase.wrote, Phase.read, sub_eq_add_neg]

/-- A thread comes to claim the lock by a sum that shows one write add. -/
theorem act_claims (h : act f p c = some (f', p')) (hc : p'.claims) (hp : ¬ p.claims) :
    p.wrote = false ∧ f' = f + lfWriteFlag ∧ f' &&& lfWriteMask = lfWriteFlag := by
  cases c with
  | advance =>
    simp only [act, Option.ite_none_right_eq_some, Option.some.injEq] at h
    obtain ⟨-, h⟩ := h
    cases p <;> simp only [advance, Prod.mk.injEq] at h <;> obtain ⟨rfl, rfl⟩ := h
    case addWrite =>
      split at hc
      · exact ⟨rfl, rfl, ‹_›⟩
      · simp [Phase.claims] at hc
    case spinWrite | spinRead | addRead => split at hc <;> simp [Phase.claims] at hc
    all_goals simp [Phase.claims] at hc hp
  | _ =>
    simp only [act, Option.ite_none_right_eq_some, Option.some.injEq, Prod.mk.injEq] at h
    obtain ⟨rfl, rfl, rfl⟩ := h
    simp [Phase.claims] at hc

/-- The write section is entered from `drain`, with no read add in the flag. -/
theorem act_inWrite (h : act f p c = some (f', .inWrite)) :
    p = .drain ∧ f' = f ∧ f &&& lfReadMask = 0 := by
  cases c with
  | advance =>
    simp only [act, Option.ite_none_right_eq_some, Option.some.injEq] at h
    obtain ⟨he, h⟩ := h
    cases p <;> simp only [advance, Prod.mk.injEq, reduceCtorEq, and_false] at h
    case drain =>
      obtain ⟨rfl, h⟩ := h
      split at h
      · exact ⟨rfl, rfl, ‹_›⟩
      · simp at h
    case inWrite => simp [Phase.entering] at he
    all_goals split at h <;> simp at h
  | _ => simp [act] at h

/-- The read section is entered by a sum that shows no write add. -/
theorem act_inRead (h : act f p c = some (f', .inRead)) :
    p = .addRead ∧ f' = f + 1 ∧ f' &&& lfWriteMask = 0 := by
  cases c with
  | advance =>
    simp only [act, Option.ite_none_right_eq_some, Option.some.injEq] at h
    obtain ⟨he, h⟩ := h
    cases p <;> simp only [advance, Prod.mk.injEq, reduceCtorEq, and_false] at h
    case addRead =>
      obtain ⟨rfl, h⟩ := h
      split at h
      · exact ⟨rfl, rfl, ‹_›⟩
      · simp at h
    case inRead => simp [Phase.entering] at he
    all_goals split at h <;> simp at h
  | _ => simp [act] at h

/-! ## What the flag counts -/

theorem sum_set_added (hi : ps[i]? = some p) :
    ((ps.set i p').map Phase.added).sum = (ps.map Phase.added).sum - p.added + p'.added := by
  obtain ⟨hlt, rfl⟩ := List.getElem?_eq_some_iff.1 hi
  rw [List.map_set, List.sum_set', dif_pos (by simpa using hlt), List.getElem_map,
    sub_eq_add_neg, add_assoc]

theorem sum_added (ps : List Phase) :
    (ps.map Phase.added).sum = BitVec.ofNat 32 (2 ^ 20 * ps.countP Phase.wrote + ps.countP Phase.read) := by
  induction ps with
  | nil => rfl
  | cons p ps ih =>
    rw [List.map_cons, List.sum_cons, ih, List.countP_cons, List.countP_cons]
    cases p <;>
      simp only [Phase.added, Phase.wrote, Phase.read, Bool.false_eq_true, if_true, if_false, add_zero, zero_add]
    all_goals rw [← BitVec.toNat_inj, BitVec.toNat_add]; simp [lfWriteFlag]; omega

theorem step_eq {s s' : FastSpinlock} {a : Nat × Call} (h : step s a = some s') :
    ∃ p f' p', s.threads[a.1]? = some p ∧ act s.mLockFlag p a.2 = some (f', p') ∧
      s' = ⟨f', s.threads.set a.1 p'⟩ := by
  simp only [step, Option.bind_eq_some_iff, Option.map_eq_some_iff] at h
  obtain ⟨p, hp, ⟨f', p'⟩, ha, rfl⟩ := h
  exact ⟨p, f', p', hp, ha, rfl⟩

/-- The flag is the sum of what the threads have added, for any number of them. -/
def Counted (s : FastSpinlock) : Prop := s.mLockFlag = (s.threads.map Phase.added).sum

theorem counted_start (n : Nat) : Counted (start n) := by
  have hz : Phase.outside.added = 0 := rfl
  simp [Counted, start, hz]

theorem counted_step {s s' : FastSpinlock} {a : Nat × Call} (hs : Counted s) (h : step s a = some s') :
    Counted s' := by
  obtain ⟨p, f', p', hp, ha, rfl⟩ := step_eq h
  rw [Counted, sum_set_added hp, act_added ha, hs]

theorem Counted.flag_eq {s : FastSpinlock} (hs : Counted s) :
    s.mLockFlag = BitVec.ofNat 32 (2 ^ 20 * s.threads.countP Phase.wrote + s.threads.countP Phase.read) :=
  Eq.trans hs (sum_added _)

theorem length_step {s s' : FastSpinlock} {a : Nat × Call} (h : step s a = some s') :
    s'.threads.length = s.threads.length := by
  obtain ⟨p, f', p', -, -, rfl⟩ := step_eq h
  exact List.length_set

/-! ## Exclusion -/

theorem wrote_add_read_le (ps : List Phase) : ps.countP Phase.wrote + ps.countP Phase.read ≤ ps.length := by
  induction ps with
  | nil => rfl
  | cons p ps ih =>
    rw [List.countP_cons, List.countP_cons, List.length_cons]
    cases p <;> simp only [Phase.wrote, Phase.read, Bool.false_eq_true, if_true, if_false] <;> omega

theorem claims_le_wrote (ps : List Phase) : ps.countP Phase.claims ≤ ps.countP Phase.wrote :=
  List.countP_mono_left fun p _ => by cases p <;> simp [Phase.claims, Phase.wrote]

/-- Below 4096 threads the sum is below 2^32. -/
theorem Counted.toNat_flag {s : FastSpinlock} (hs : Counted s) (hn : s.threads.length < 4096) :
    s.mLockFlag.toNat = 2 ^ 20 * s.threads.countP Phase.wrote + s.threads.countP Phase.read := by
  have hle := wrote_add_read_le s.threads
  rw [hs.flag_eq, BitVec.toNat_ofNat]
  omega

/-- The write field of the flag counts the write adds, up to its eleven bits. -/
theorem Counted.writeField {s : FastSpinlock} (hs : Counted s) (hn : s.threads.length < 4096) :
    s.mLockFlag.toNat / 2 ^ 20 % 2048 = s.threads.countP Phase.wrote % 2048 := by
  have hle := wrote_add_read_le s.threads
  rw [hs.toNat_flag hn]
  omega

/-- Below 2048 threads the write field does not overflow. -/
theorem Counted.writeMask {s : FastSpinlock} (hs : Counted s) (hn : s.threads.length < 2048) :
    s.mLockFlag.toNat / 2 ^ 20 % 2048 = s.threads.countP Phase.wrote := by
  have hle := wrote_add_read_le s.threads
  rw [hs.writeField (by omega), Nat.mod_eq_of_lt (by omega)]

/-- The read field of the flag counts the read adds. -/
theorem Counted.readMask {s : FastSpinlock} (hs : Counted s) (hn : s.threads.length < 2048) :
    s.mLockFlag.toNat % 2 ^ 20 = s.threads.countP Phase.read := by
  have hle := wrote_add_read_le s.threads
  rw [hs.toNat_flag (by omega)]
  omega

/-- One thread at most has claimed the lock, and no reader is beside a writer. -/
structure Exclusive (s : FastSpinlock) : Prop where
  claimed : s.threads.countP Phase.claims ≤ 1
  alone : .inWrite ∈ s.threads → .inRead ∉ s.threads

theorem exclusive_start (n : Nat) : Exclusive (start n) where
  claimed := by simp [start, List.countP_replicate, Phase.claims]
  alone h := by simp [start] at h

/-- Up to 2048 threads, where an overflown write field shows no write add. -/
theorem claimed_step {s s' : FastSpinlock} {a : Nat × Call} (hs : s.threads.countP Phase.claims ≤ 1)
    (hc : Counted s') (hn : s'.threads.length ≤ 2048) (h : step s a = some s') :
    s'.threads.countP Phase.claims ≤ 1 := by
  have hwrites := hc.writeField (by omega)
  have hle := wrote_add_read_le s'.threads
  obtain ⟨p, f', p', hp, ha, rfl⟩ := step_eq h
  have hset := countP_set_add (b := p') (p := Phase.claims) hp
  by_cases hnew : p'.claims = true ∧ ¬ p.claims = true
  · -- the sum that made the claim shows this thread's write add and no other
    have h1 := writeMask_eq_flag.1 (act_claims ha hnew.1 hnew.2).2.2
    have := claims_le_wrote (s.threads.set a.1 p')
    simp only at h1 hwrites hn hle ⊢
    omega
  · cases hp' : p'.claims <;> cases hpc : p.claims <;> simp [hp', hpc] at hset hnew ⊢ <;> omega

theorem exclusive_step {s s' : FastSpinlock} {a : Nat × Call} (hs : Exclusive s) (hc : Counted s')
    (hn : s'.threads.length < 2048) (h : step s a = some s') : Exclusive s' := by
  refine ⟨claimed_step hs.claimed hc hn.le h, ?_⟩
  have hwrites := hc.writeMask hn
  have hreads := hc.readMask hn
  obtain ⟨p, f', p', hp, ha, rfl⟩ := step_eq h
  intro hw hr
  rcases List.mem_or_eq_of_mem_set hw with hw' | rfl
  · rcases List.mem_or_eq_of_mem_set hr with hr' | rfl
    · exact hs.alone hw' hr'
    · have h0 := writeMask_eq_zero.1 (act_inRead ha).2.2
      simp only [hwrites] at h0
      exact List.countP_eq_zero.1 h0 _ hw rfl
  · obtain ⟨-, rfl, hm⟩ := act_inWrite ha
    have h0 := readMask_eq_zero.1 hm
    simp only [hreads] at h0
    exact List.countP_eq_zero.1 h0 _ hr rfl

/-- What the lock keeps with fewer than 2048 threads. -/
structure Sound (n : Nat) (s : FastSpinlock) : Prop where
  counted : Counted s
  exclusive : Exclusive s
  length : s.threads.length = n

theorem sound_start (n : Nat) : Sound n (start n) :=
  ⟨counted_start n, exclusive_start n, List.length_replicate⟩

theorem sound_step (hn : n < 2048) {s s' : FastSpinlock} {a : Nat × Call} (hs : Sound n s)
    (h : step s a = some s') : Sound n s' := by
  have hl : s'.threads.length = n := (length_step h).trans hs.length
  have hc := counted_step hs.counted h
  exact ⟨hc, exclusive_step hs.exclusive hc (hl ▸ hn) h, hl⟩

/-- Over every interleaving of fewer than 2048 threads, one thread at most is in
the write section, then with no thread in the read section, and `mLockFlag` is
`LF_WRITE_FLAG` for each write add and 1 for each read add: 0 with no thread inside. -/
theorem readerWriterLock (hn : n < 2048) {as : List (Nat × Call)} {s : FastSpinlock}
    (hr : run step (start n) as = some s) :
    s.threads.countP (· = .inWrite) ≤ 1 ∧
    (.inWrite ∈ s.threads → .inRead ∉ s.threads) ∧
    s.mLockFlag.toInt = lfWriteFlag.toInt * s.threads.countP Phase.wrote + s.threads.countP Phase.read ∧
    ((∀ p ∈ s.threads, p = .outside) → s.mLockFlag = 0) := by
  obtain ⟨hc, he, rfl⟩ := inv_of_run (fun _ _ _ => sound_step hn) (sound_start n) hr
  have hflag := hc.toNat_flag (by omega)
  refine ⟨le_trans (List.countP_mono_left fun p _ hp => ?_) he.claimed, he.alone, ?_, fun hout => ?_⟩
  · rw [of_decide_eq_true hp]
    rfl
  · have hle := wrote_add_read_le s.threads
    rw [BitVec.toInt_eq_toNat_of_lt (by omega), hflag, show lfWriteFlag.toInt = 2 ^ 20 from rfl]
    push_cast
    rfl
  · have hz : ∀ q : Phase → Bool, q .outside = false → s.threads.countP q = 0 := fun q hq =>
      List.countP_eq_zero.2 fun p hp => by simp [hout p hp, hq]
    rw [hc.flag_eq, hz _ rfl, hz _ rfl]
    rfl

/-- Thread 0 reads, thread 1 claims the lock and waits for it, thread 2 comes to read. -/
def contended : List (Nat × Call) :=
  [(0, .enterReadLock), (2, .enterReadLock), (2, .advance), (0, .advance), (0, .advance), (1, .enterWriteLock),
   (1, .advance), (1, .advance), (1, .advance), (2, .advance)]

def draining : FastSpinlock := ⟨0x00100002#32, [.inRead, .drain, .backOutRead]⟩

theorem readerWriterLock_contended :
    run step (start 3) contended = some draining ∧
    draining.threads.countP (· = .inWrite) ≤ 1 ∧ (.inWrite ∈ draining.threads → .inRead ∉ draining.threads) ∧
    draining.mLockFlag.toInt = lfWriteFlag.toInt * draining.threads.countP Phase.wrote +
      draining.threads.countP Phase.read ∧
    ((∀ p ∈ draining.threads, p = .outside) → draining.mLockFlag = 0) :=
  have hr : run step (start 3) contended = some draining := by decide +kernel
  ⟨hr, readerWriterLock (by decide) hr⟩

end FastSpinlock

end GameServer
