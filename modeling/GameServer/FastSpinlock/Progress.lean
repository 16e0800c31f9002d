import GameServer.FastSpinlock.Exclusion
/-!
# A lock nobody holds is taken

With no thread in a section of the lock, threads that back out take their part
of the flag with them, and what is left are claims. A writer with a claim then
finds no readers, and without a claim the flag is 0 for the next thread. No
bound on the number of threads is used: a claim adds nothing to the read field
even where the write field has overflowed.
-/

namespace GameServer

open Lib

namespace FastSpinlock

variable {s s' : FastSpinlock} {p : Phase} {i : Nat}

/-! ## Phases -/

theorem phase_enter {f : BitVec 32} {k : Call} {r : BitVec 32 × Phase} (hk : k = .enterWriteLock ∨ k = .enterReadLock)
    (h : act f p k = some r) : p = .outside ∧ r.2.entering = true ∧ r.2.claims = false := by
  rcases hk with rfl | rfl <;> simp only [act, Option.ite_none_right_eq_some, Option.some.injEq] at h <;>
  · obtain ⟨rfl, rfl⟩ := h
    exact ⟨rfl, rfl, rfl⟩

theorem phase_leave {f : BitVec 32} {k : Call} {r : BitVec 32 × Phase} (hk : k = .leaveWriteLock ∨ k = .leaveReadLock)
    (h : act f p k = some r) : p.holds = true ∧ r.2 = .outside := by
  rcases hk with rfl | rfl <;> simp only [act, Option.ite_none_right_eq_some, Option.some.injEq] at h <;>
  · obtain ⟨rfl, rfl⟩ := h
    exact ⟨rfl, rfl⟩

theorem phase_advance {f : BitVec 32} {r : BitVec 32 × Phase} (h : act f p .advance = some r) :
    p.entering = true ∧ r.2 ≠ .outside ∧ r.2.entering = !r.2.holds := by
  simp only [act, Option.ite_none_right_eq_some, Option.some.injEq] at h
  obtain ⟨he, rfl⟩ := h
  cases p <;> simp only [advance]
  case spinWrite | addWrite | drain | spinRead | addRead => split <;> exact ⟨rfl, by simp, rfl⟩
  case backOutWrite | backOutRead => exact ⟨rfl, by simp, rfl⟩
  all_goals simp [Phase.entering] at he

/-! ## Taking the adds back -/

/-- The thread has lost a race and is to take its add back. -/
def Phase.backsOut : Phase → Bool
  | .backOutWrite | .backOutRead => true
  | _ => false

/-- A run of enter calls only, by threads that are in one throughout. -/
def Advances (s s' : FastSpinlock) : Prop :=
  ∃ as : List Nat, run step s (as.map (·, .advance)) = some s'

theorem Advances.refl (s : FastSpinlock) : Advances s s := ⟨[], rfl⟩

theorem Advances.trans {s'' : FastSpinlock} (h : Advances s s') (h' : Advances s' s'') : Advances s s'' := by
  obtain ⟨as, hr⟩ := h
  obtain ⟨bs, hr'⟩ := h'
  exact ⟨as ++ bs, by rw [List.map_append]; exact run_append.2 ⟨s', hr, hr'⟩⟩

theorem Advances.single (hp : s.threads[i]? = some p) (he : p.entering = true) :
    Advances s ⟨(advance s.mLockFlag p).1, s.threads.set i (advance s.mLockFlag p).2⟩ :=
  ⟨[i], by simp [run, step, hp, act, he]⟩

theorem Advances.counted (h : Advances s s') (hs : Counted s) : Counted s' := by
  obtain ⟨as, hr⟩ := h
  exact inv_of_run (fun _ _ _ => counted_step) hs hr

/-- Whether the thread is in a section of the lock, and in an enter function. -/
def Phase.standing (p : Phase) : Bool × Bool := (p.holds, p.entering)

/-- All losers can take their adds back, and nobody enters or leaves by that. -/
theorem exists_backedOut (s : FastSpinlock) :
    ∃ s', Advances s s' ∧ s'.threads.map Phase.standing = s.threads.map Phase.standing ∧ s'.threads.countP Phase.backsOut = 0 := by
  generalize hn : s.threads.countP Phase.backsOut = n
  induction n generalizing s with
  | zero => exact ⟨s, .refl s, rfl, hn⟩
  | succ n ih =>
    have hpos : 0 < s.threads.countP Phase.backsOut := hn ▸ Nat.succ_pos n
    obtain ⟨p, hmem, hp⟩ := List.countP_pos_iff.1 hpos
    obtain ⟨i, hi⟩ := List.getElem?_of_mem hmem
    have he : p.entering = true := by cases p <;> simp_all [Phase.backsOut, Phase.entering]
    have hadv := Advances.single hi he
    obtain ⟨hback, hstand⟩ : (advance s.mLockFlag p).2.backsOut = false ∧
        (advance s.mLockFlag p).2.standing = p.standing := by
      cases p <;> simp_all [Phase.backsOut, advance, Phase.standing, Phase.holds, Phase.entering]
    have hcount := countP_set_add (b := (advance s.mLockFlag p).2) (p := Phase.backsOut) hi
    rw [hback, hp, hn] at hcount
    obtain ⟨s', h₁, h₂, h₃⟩ := ih ⟨(advance s.mLockFlag p).1, s.threads.set i (advance s.mLockFlag p).2⟩
      (Nat.succ.inj hcount)
    refine ⟨s', hadv.trans h₁, h₂.trans ?_, h₃⟩
    obtain ⟨hlt, rfl⟩ := List.getElem?_eq_some_iff.1 hi
    rw [List.map_set, hstand, ← List.map_set, List.set_getElem_self]

/-- Thread `i` comes to hold the lock by steps of enter functions. -/
def Acquires (s : FastSpinlock) (i : Nat) : Prop :=
  ∃ s' q, Advances s s' ∧ s'.threads[i]? = some q ∧ q.holds = true

theorem Acquires.advance (hp : s.threads[i]? = some p) (he : p.entering = true)
    (h : Acquires ⟨(advance s.mLockFlag p).1, s.threads.set i (advance s.mLockFlag p).2⟩ i) : Acquires s i := by
  obtain ⟨s', q, ha, hq⟩ := h
  exact ⟨s', q, (Advances.single hp he).trans ha, hq⟩

theorem acquires_of_holds (hp : s.threads[i]? = some p) (hh : p.holds = true) : Acquires s i :=
  ⟨s, p, .refl s, hp, hh⟩

/-- A writer with the claim is let in once no read add is left. -/
theorem acquires_of_drain (hp : s.threads[i]? = some .drain) (h0 : s.mLockFlag &&& lfReadMask = 0) :
    Acquires s i := by
  have hlt : i < s.threads.length := (List.getElem?_eq_some_iff.1 hp).1
  refine .advance hp rfl (acquires_of_holds (p := .inWrite) ?_ rfl)
  simp [FastSpinlock.advance, h0, hlt]

/-- With the flag at 0 the next to come is let in. -/
theorem acquires_of_zero (hp : s.threads[i]? = some p) (he : p.entering = true)
    (hb : p.backsOut = false) (hd : p ≠ .drain) (h0 : s.mLockFlag = 0) : Acquires s i := by
  have hlt : i < s.threads.length := (List.getElem?_eq_some_iff.1 hp).1
  have hadd {s : FastSpinlock} (hlt : i < s.threads.length) (hp : s.threads[i]? = some .addWrite)
      (h0 : s.mLockFlag = 0) : Acquires s i := by
    refine .advance hp rfl (acquires_of_drain ?_ ?_)
    · simp [FastSpinlock.advance, h0, hlt, lfWriteFlag, lfWriteMask]
    · simp [FastSpinlock.advance, h0, lfWriteFlag, lfReadMask]
  have hread {s : FastSpinlock} (hlt : i < s.threads.length) (hp : s.threads[i]? = some .addRead)
      (h0 : s.mLockFlag = 0) : Acquires s i := by
    refine .advance hp rfl (acquires_of_holds (p := .inRead) ?_ rfl)
    simp [FastSpinlock.advance, h0, hlt, lfWriteMask]
  cases p with
  | spinWrite => exact .advance hp rfl (hadd (by simpa) (by simp [FastSpinlock.advance, h0, hlt]) h0)
  | addWrite => exact hadd hlt hp h0
  | spinRead => exact .advance hp rfl (hread (by simpa) (by simp [FastSpinlock.advance, h0, hlt]) h0)
  | addRead => exact hread hlt hp h0
  | drain => exact absurd rfl hd
  | outside | inWrite | inRead => simp [Phase.entering] at he
  | backOutWrite | backOutRead => simp [Phase.backsOut] at hb

theorem countP_eq_zero_of_standing (hh : ∀ p ∈ s.threads, p.holds = false)
    (hb : s.threads.countP Phase.backsOut = 0) : s.threads.countP Phase.read = 0 := by
  refine List.countP_eq_zero.2 fun p hp hr => ?_
  have h₁ := hh p hp
  have h₂ := List.countP_eq_zero.1 hb p hp
  cases p <;> simp_all [Phase.read, Phase.holds, Phase.backsOut]

/-- If threads wait and none holds the lock, one of them can get it by steps of
enter functions alone. -/
theorem exists_acquires (hs : Counted s) (hh : ∀ p ∈ s.threads, p.holds = false)
    (hp : s.threads[i]? = some p) (he : p.entering = true) :
    ∃ j q, s.threads[j]? = some q ∧ q.entering = true ∧ Acquires s j := by
  obtain ⟨t, hadv, hst, hback⟩ := exists_backedOut s
  have hstands (j : Nat) : t.threads[j]?.map Phase.standing = s.threads[j]?.map Phase.standing := by
    rw [← List.getElem?_map, ← List.getElem?_map]
    exact congrArg (·[j]?) hst
  have hback' (j : Nat) (q : Phase) (hq : t.threads[j]? = some q) : q.holds = false ∧ q.backsOut = false ∧
      ∃ p, s.threads[j]? = some p ∧ q.entering = p.entering := by
    have h := hstands j
    rw [hq] at h
    obtain ⟨p, hp, hpq⟩ := Option.map_eq_some_iff.1 h.symm
    simp only [Phase.standing, Prod.mk.injEq] at hpq
    refine ⟨hpq.1.symm.trans (hh p (List.mem_of_getElem? hp)), ?_, p, hp, hpq.2.symm⟩
    exact Bool.eq_false_iff.2 (List.countP_eq_zero.1 hback q (List.mem_of_getElem? hq))
  have hacq {j : Nat} {q : Phase} (hj : t.threads[j]? = some q) (hqe : q.entering = true)
      (ha : Acquires t j) : ∃ j q, s.threads[j]? = some q ∧ q.entering = true ∧ Acquires s j := by
    obtain ⟨-, -, p, hp, hpq⟩ := hback' j q hj
    obtain ⟨u, q', hu, hq'⟩ := ha
    exact ⟨j, p, hp, hpq ▸ hqe, u, q', hadv.trans hu, hq'⟩
  have hflag := (hadv.counted hs).flag_eq
  have hread : t.threads.countP Phase.read = 0 := by
    refine countP_eq_zero_of_standing (fun q hq => ?_) hback
    obtain ⟨j, hj⟩ := List.getElem?_of_mem hq
    exact (hback' j q hj).1
  rw [hread, Nat.add_zero] at hflag
  by_cases hdrain : Phase.drain ∈ t.threads
  · -- whoever has the claim finds the read field empty
    obtain ⟨j, hj⟩ := List.getElem?_of_mem hdrain
    refine hacq hj rfl (acquires_of_drain hj (readMask_eq_zero.2 ?_))
    rw [hflag, BitVec.toNat_ofNat]
    omega
  · -- nobody has added to the flag: the thread given goes through
    have hwrote : t.threads.countP Phase.wrote = 0 := by
      refine List.countP_eq_zero.2 fun q hq hw => ?_
      obtain ⟨j, hj⟩ := List.getElem?_of_mem hq
      obtain ⟨h₁, h₂, -⟩ := hback' j q hj
      cases q <;> simp_all [Phase.wrote, Phase.holds, Phase.backsOut]
    have h := hstands i
    rw [hp] at h
    obtain ⟨q, hq, hqp⟩ := Option.map_eq_some_iff.1 h
    simp only [Phase.standing, Prod.mk.injEq] at hqp
    have hqe : q.entering = true := hqp.2.trans he
    refine hacq hq hqe (acquires_of_zero hq hqe (hback' i q hq).2.1 ?_ ?_)
    · rintro rfl
      exact hdrain (List.mem_of_getElem? hq)
    · rw [hflag, hwrote]
      rfl

end FastSpinlock

end GameServer
