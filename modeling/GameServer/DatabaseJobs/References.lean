import GameServer.DatabaseJobs.Once
import GameServer.Lib.Tally
/-!
# A job of Homework6 holds its session

As long as every reference is taken of a session that has one and the others
release only what they took, the reference count is that of the references, so a
session with a job left is not on its way to the pool, and nobody else is issued it
(`owned_run`).
-/

namespace GameServer.DatabaseJobs

open Lib

namespace Pool

variable {p p' : Pool} {live live' : Nat → Nat} {s x : Nat} {u : Use}

/-- The references of a session: those of the others and one for each job left. -/
def refs (p : Pool) (live : Nat → Nat) (s : Nat) : Nat := (p.session s).others + live s

/-- How often a session is in the pool or on its way there. -/
def places (p : Pool) (s : Nat) : Nat :=
  p.mFreeSessionList.count s + p.returning.count s + p.resetting.toList.count s

/-- The session is in the pool or on its way there, or it has references, and its
count is that of the references. -/
def CountedAt (p : Pool) (live : Nat → Nat) (s : Nat) : Prop :=
  (p.session s).mRefCount = p.refs live s ∧ p.places s + min 1 (p.refs live s) ≤ 1

def Counted (p : Pool) (live : Nat → Nat) : Prop := ∀ s, p.CountedAt live s

/-- What the others have to keep to. -/
def Fair (p : Pool) : Use → Prop
  | .addRef s => 0 < (p.session s).mRefCount
  | .releaseRef s => 0 < (p.session s).others
  | _ => True

/-- Nothing happened to session `x`. -/
def Same (p p' : Pool) (x : Nat) : Prop := p'.session x = p.session x ∧ p'.places x = p.places x

@[simp] theorem session_modify_self (f : Session → Session) : (p.modify s f).session s = f (p.session s) := by
  simp [modify]

@[simp] theorem session_modify_of_ne (f : Session → Session) (hx : x ≠ s) :
    (p.modify s f).session x = p.session x := by
  simp [modify, hx]

@[simp] theorem places_modify (f : Session → Session) : (p.modify s f).places x = p.places x := rfl

theorem same_modify (f : Session → Session) (hx : x ≠ s) : Same p (p.modify s f) x :=
  ⟨session_modify_of_ne f hx, rfl⟩

theorem Same.trans {p'' : Pool} (h : Same p p' x) (h' : Same p' p'' x) : Same p p'' x :=
  ⟨h'.1.trans h.1, h'.2.trans h.2⟩

theorem Counted.change (hc : p.Counted live) (hx : ∀ x, x ≠ s → Same p p' x ∧ live' x = live x)
    (hs : p'.CountedAt live' s) : p'.Counted live' := by
  intro x
  by_cases he : x = s
  · exact he ▸ hs
  · obtain ⟨⟨hses, hpl⟩, hl⟩ := hx x he
    have hc := hc x
    unfold CountedAt refs at hc ⊢
    rwa [hses, hpl, hl]

theorem addRef_eq (h : p.addRef s = some p') :
    p' = p.modify s fun ses => { ses with mRefCount := ses.mRefCount + 1 } := by
  rw [addRef] at h
  split at h <;> cases h
  rfl

/-- A reference less, and the session on its way to the pool if it was the last one. -/
theorem releaseRef_spec (h : p.releaseRef s = some p') :
    0 < (p.session s).mRefCount ∧
      p'.session s = { p.session s with mRefCount := (p.session s).mRefCount - 1 } ∧
      p'.places s = p.places s + (if (p.session s).mRefCount = 1 then 1 else 0) ∧ ∀ x, x ≠ s → Same p p' x := by
  rw [releaseRef] at h
  split at h
  case isTrue => cases h
  by_cases h1 : (p.session s).mRefCount = 1
  · rw [if_pos (by omega)] at h
    cases h
    refine ⟨by omega, by simp [modify], ?_, fun x hx => ⟨by simp [modify, hx], ?_⟩⟩
    · simp [places, modify, h1]
      omega
    · simp [places, modify, hx.symm]
  · rw [if_neg (by omega)] at h
    cases h
    exact ⟨by omega, by simp [modify], by simp [places, modify, h1], fun x hx => ⟨by simp [modify, hx], rfl⟩⟩

theorem counted_addRef (hc : p.Counted live) (hp : 0 < (p.session s).mRefCount)
    (hl : ∀ x, live' x = live x + if x = s then 1 else 0) (h : p.addRef s = some p') : p'.Counted live' := by
  rw [addRef_eq h]
  refine hc.change (s := s) (fun x hx => ⟨same_modify _ hx, by simp [hl, hx]⟩) ?_
  obtain ⟨hcount, hplace⟩ := hc s
  have hl := hl s
  simp only [if_true] at hl
  simp only [CountedAt, refs, session_modify_self, places_modify, hl] at hcount hplace ⊢
  omega

theorem counted_releaseRef (hc : p.Counted live) (hl : ∀ x, live x = live' x + if x = s then 1 else 0)
    (h : p.releaseRef s = some p') : p'.Counted live' := by
  obtain ⟨hpos, hses, hpl, hsame⟩ := releaseRef_spec h
  refine hc.change (s := s) (fun x hx => ⟨hsame x hx, by simp [hl, hx]⟩) ?_
  obtain ⟨hcount, hplace⟩ := hc s
  have hl := hl s
  simp only [if_true] at hl
  simp only [CountedAt, refs, hses, hpl] at hcount hplace ⊢
  split <;> omega

/-- A fair use keeps the books, and issues no session that a job is left of. -/
theorem counted_use (hc : p.Counted live) (hf : p.Fair u) (h : p.use u = some p') :
    p'.Counted live ∧ ∀ s, 0 < live s → (p'.session s).issued = (p.session s).issued := by
  -- every other use leaves `issued` alone
  have frame {s : Nat} (hs : (p'.session s).issued = (p.session s).issued) (hx : ∀ x, x ≠ s → Same p p' x) :
      ∀ x, 0 < live x → (p'.session x).issued = (p.session x).issued := by
    intro x _
    by_cases he : x = s
    · exact he ▸ hs
    · rw [(hx x he).1]
  cases u with
  | issue =>
    rw [use, issue] at h
    split at h <;> cases h
    rename_i s rest hres hfree
    obtain ⟨hcount, hplace⟩ := hc s
    have hlisted : p.places s = rest.count s + 1 + p.returning.count s + p.resetting.toList.count s := by
      simp [places, hfree]
    refine ⟨hc.change (s := s) (fun x hx => ⟨⟨session_modify_of_ne _ hx, ?_⟩, rfl⟩) ?_, fun x hx => ?_⟩
    · simp [places, modify, hfree, hx.symm]
    · simp only [CountedAt, refs, session_modify_self, places_modify] at hcount hplace ⊢
      simp only [places] at hplace hlisted ⊢
      omega
    · have hne : x ≠ s := by
        rintro rfl
        simp only [refs] at hplace
        omega
      rw [session_modify_of_ne _ hne]
  | addRef s =>
    obtain ⟨p₁, ha, rfl⟩ := Option.map_eq_some_iff.1 h
    rw [addRef_eq ha] at frame ⊢
    refine ⟨hc.change (s := s) (fun x hx => ⟨(same_modify _ hx).trans (same_modify _ hx), rfl⟩) ?_,
      frame (s := s) (by simp) fun x hx => (same_modify _ hx).trans (same_modify _ hx)⟩
    obtain ⟨hcount, hplace⟩ := hc s
    simp only [Fair] at hf
    simp only [CountedAt, refs, session_modify_self, places_modify] at hcount hplace ⊢
    omega
  | releaseRef s =>
    obtain ⟨hpos, hses, hpl, hsame⟩ := releaseRef_spec h
    have hsame : ∀ x, x ≠ s → Same p p' x := fun x hx => (same_modify _ hx).trans (hsame x hx)
    refine ⟨hc.change (s := s) (fun x hx => ⟨hsame x hx, rfl⟩) ?_, frame (by simp [hses]) hsame⟩
    obtain ⟨hcount, hplace⟩ := hc s
    simp only [Fair] at hf
    simp only [session_modify_self, places_modify] at hses hpl hpos
    simp only [CountedAt, refs, hses, hpl] at hcount hplace ⊢
    split <;> omega
  | setConnected s connected =>
    cases h
    refine ⟨hc.change (s := s) (fun x hx => ⟨same_modify _ hx, rfl⟩) ?_,
      frame (s := s) (by simp) fun x hx => same_modify _ hx⟩
    simpa [CountedAt, refs] using hc s
  | enterReturn s =>
    rw [use, enterReturn] at h
    split at h
    case isFalse => cases h
    rename_i hg
    cases h
    have hpl (x : Nat) : p.returning.count x = (p.returning.erase s).count x + if x = s then 1 else 0 := by
      have : 0 < p.returning.count s := List.count_pos_iff.2 hg.1
      by_cases hx : x = s
      · subst hx
        simp [List.count_erase_self]
        omega
      · simp [List.count_erase_of_ne hx, hx]
    refine ⟨fun x => ?_, fun x _ => rfl⟩
    obtain ⟨hcount, hplace⟩ := hc x
    have hpl := hpl x
    simp only [CountedAt, refs, places, hg.2.1, Option.toList_none, Option.toList_some, List.count_nil,
      List.count_singleton, beq_iff_eq, eq_comm (a := s)] at hcount hplace ⊢
    omega
  | sessionReset =>
    obtain ⟨s, hs, rfl⟩ := Option.map_eq_some_iff.1 h
    have hses (x : Nat) (hx : x ≠ s) := session_modify_of_ne (p := p)
      (fun ses => { ses with mConnected := false, mRefCount := 0 }) hx
    refine ⟨hc.change (s := s) (fun x hx => ⟨⟨hses x hx, ?_⟩, rfl⟩) ?_, fun x _ => ?_⟩
    · simp [places, modify, hs, hx.symm]
    · obtain ⟨hcount, hplace⟩ := hc s
      simp only [CountedAt, refs, places, modify, Function.update_self, hs, Option.toList_some, Option.toList_none,
        List.count_cons_self, List.count_nil] at hcount hplace ⊢
      omega
    · by_cases hx : x = s
      · simp [hx, modify]
      · rw [hses x hx]

end Pool

namespace Machine

variable {n : Nat} {m m' : Machine} {a : Action} {job : Job}

/-- How many jobs of a session are left. -/
def live (m : Machine) (s : Nat) : Nat :=
  m.jobs.countP fun job => job.mSessionObject = s ∧ .deleted ∉ job.history

/-- A job that is left belongs to whom its session is issued to, and so does a
result that was handled. -/
structure Owned (m : Machine) : Prop where
  counted : m.pool.Counted m.live
  issued : ∀ job ∈ m.jobs, .deleted ∉ job.history → job.issued = (m.pool.session job.mSessionObject).issued
  handled : ∀ job ∈ m.jobs, ∀ t k, .onSuccess t k ∈ job.history ∨ .onFail t k ∈ job.history → k = job.issued

theorem live_pos (hj : job ∈ m.jobs) (hd : .deleted ∉ job.history) : 0 < m.live job.mSessionObject :=
  List.countP_pos_iff.2 ⟨job, hj, by simp [hd]⟩

theorem owned_step (hc : m.InCustody n) (ho : m.Owned) (hr : m.Releases a) (ht : m.Takes a)
    (hs : step .homework6 n m a = some m') : m'.Owned := by
  cases moves_of_step (known_of_custody hc) hs with
  | stay hj hh hp =>
    have hlive : m'.live = m.live := by unfold live; rw [hj]
    rcases hp with hp | ⟨u, rfl, hu⟩
    · exact ⟨hp ▸ hlive ▸ ho.counted, hj ▸ hp ▸ ho.issued, hj ▸ ho.handled⟩
    · have hf : m.pool.Fair u := by
        cases u <;> first | exact hr _ rfl | exact ht _ rfl | trivial
      obtain ⟨hcounted, hissued⟩ := Pool.counted_use ho.counted hf hu
      refine ⟨hlive ▸ hcounted, fun job hm hd => ?_, hj ▸ ho.handled⟩
      rw [hj] at hm
      rw [hissued _ (live_pos hm hd), ho.issued job hm hd]
  | new owner k hk hj hh hp =>
    have hpos : 0 < (m.pool.session owner).mRefCount := by
      rcases hk with ⟨rfl, -⟩ | ⟨hh, -⟩
      · exact ht owner rfl
      · cases hh
    have hlive (x : Nat) : m'.live x = m.live x + if x = owner then 1 else 0 := by
      simp [live, hj, List.countP_append, eq_comm]
    have hissued (x : Nat) : (m'.pool.session x).issued = (m.pool.session x).issued := by
      rw [Pool.addRef_eq hp]
      by_cases hx : x = owner
      · simp [hx]
      · rw [Pool.session_modify_of_ne _ hx]
    refine ⟨Pool.counted_addRef ho.counted hpos hlive hp, fun job hm hd => ?_, fun job hm => ?_⟩
    · rw [hissued]
      rcases List.mem_append.1 (hj ▸ hm) with hm | hm
      · exact ho.issued job hm hd
      · cases List.mem_singleton.1 hm
        rfl
    · rcases List.mem_append.1 (hj ▸ hm) with hm | hm
      · exact ho.handled job hm
      · cases List.mem_singleton.1 hm
        simp
  | turn j job job' k k' rest ha ht hj hr hh hp =>
    have hleft := not_deleted_of_fits (fits_of_held hc hr ha)
    obtain ⟨hobj, hiss, es, hhist, hdel, hes, -⟩ := turn_keeps ht
    have hmem : job ∈ m.jobs := List.mem_of_getElem? ha
    have hlive : m'.live = m.live := by
      funext x
      unfold live
      rw [hj]
      exact countP_set_of_eq ha (by simp [hobj, hhist, hdel])
    refine ⟨hp ▸ hlive ▸ ho.counted, fun job₁ hm hd => ?_, fun job₁ hm t i he => ?_⟩
    · rw [hp]
      rcases List.mem_or_eq_of_mem_set (hj ▸ hm) with hm | rfl
      · exact ho.issued job₁ hm hd
      · rw [hobj, hiss]
        exact ho.issued job hmem (by simp_all)
    · rcases List.mem_or_eq_of_mem_set (hj ▸ hm) with hm | rfl
      · exact ho.handled job₁ hm t i he
      · rw [hiss]
        simp only [hhist, List.mem_append] at he
        rcases he with (he | he) | he | he
        · exact ho.handled job hmem t i (.inl he)
        · rw [hes t i (.inl he), ho.issued job hmem hleft]
        · exact ho.handled job hmem t i (.inr he)
        · rw [hes t i (.inr he), ho.issued job hmem hleft]
  | delete j job t rest ha hj hr hh hp =>
    have hleft := not_deleted_of_fits (fits_of_held hc hr ha)
    have hmem : job ∈ m.jobs := List.mem_of_getElem? ha
    have hlive (x : Nat) : m.live x = m'.live x + if x = job.mSessionObject then 1 else 0 := by
      have hset := countP_set_add (p := fun job : Job => decide (job.mSessionObject = x ∧ .deleted ∉ job.history))
        (b := job.record .deleted) ha
      rw [← hj] at hset
      by_cases hx : job.mSessionObject = x
      · simp [Job.record, hleft, hx] at hset
        simp [live, hset, hx]
      · simp [Job.record, hx] at hset
        simp [live, hset, Ne.symm hx]
    have hissued (x : Nat) : (m'.pool.session x).issued = (m.pool.session x).issued := by
      obtain ⟨-, hses, -, hsame⟩ := Pool.releaseRef_spec hp
      by_cases hx : x = job.mSessionObject
      · rw [hx, hses]
      · rw [(hsame x hx).1]
    refine ⟨Pool.counted_releaseRef ho.counted hlive hp, fun job₁ hm hd => ?_, fun job₁ hm t i he => ?_⟩
    · rw [hissued]
      rcases List.mem_or_eq_of_mem_set (hj ▸ hm) with hm | rfl
      · exact ho.issued job₁ hm hd
      · simp [Job.record] at hd
    · rcases List.mem_or_eq_of_mem_set (hj ▸ hm) with hm | rfl
      · exact ho.handled job₁ hm t i he
      · exact ho.handled job hmem t i (by simpa [Job.record] using he)

theorem owned_start (d i c : Nat) : (start d i c).Owned where
  counted s := by
    have hcount : (List.range c).reverse.count s ≤ 1 := List.nodup_iff_count_le_one.1 (List.nodup_reverse.2 List.nodup_range) s
    refine ⟨rfl, ?_⟩
    simpa [start, Pool.places, Pool.refs, live] using hcount
  issued job hm := absurd hm (List.not_mem_nil)
  handled job hm := absurd hm (List.not_mem_nil)

/-- Jobs belong to whom their session is issued to throughout a run. -/
theorem owned_run {d i c : Nat} {as : List Action} (hr : run (step .homework6 d) (start d i c) as = some m)
    (hm : Meets (step .homework6 d) (fun m a => m.Releases a ∧ m.Takes a) (start d i c) as) : m.Owned := by
  have hboth := inv_of_meets (I := fun m => m.InCustody d ∧ m.Owned)
    (fun _ _ _ hI hP hs => ⟨inCustody_step hI.1 hs, owned_step hI.1 hI.2 hP.1 hP.2 hs⟩)
    ⟨inCustody_start d i c, owned_start d i c⟩ hm hr
  exact hboth.2

/-- Whatever happens, what is done with a job is the beginning of its course, and at
rest the whole of it. As long as every reference is taken of a session that has one
and the others release only what they took, the session of a job keeps a reference
until the job is deleted, and its result goes to whom it was issued to. -/
theorem processed_once {d i c : Nat} {as : List Action} (hr : run (step .homework6 d) (start d i c) as = some m) :
    (∀ job ∈ m.jobs, InOrder d job) ∧
      (m.AtRest → ∀ job ∈ m.jobs, .posted ∈ job.history → Done d job) ∧
      (Meets (step .homework6 d) (fun m a => m.Releases a ∧ m.Takes a) (start d i c) as → ∀ job ∈ m.jobs,
        (.deleted ∉ job.history → 1 ≤ (m.pool.session job.mSessionObject).mRefCount ∧
          m.pool.places job.mSessionObject = 0 ∧ job.issued = (m.pool.session job.mSessionObject).issued) ∧
        ∀ t k, .onSuccess t k ∈ job.history ∨ .onFail t k ∈ job.history → k = job.issued) := by
  refine ⟨inOrder hr, done_of_atRest hr, fun hm job hj => ⟨fun hd => ?_, (owned_run hr hm).handled job hj⟩⟩
  have ho := owned_run hr hm
  obtain ⟨hcount, hplace⟩ := ho.counted job.mSessionObject
  have := live_pos hj hd
  simp only [Pool.refs] at hcount hplace
  exact ⟨by omega, by omega, ho.issued job hj hd⟩

/-- A client has a job done and leaves. -/
def oneJob : List Action :=
  [.use .issue, .request 0, .postDatabsaseRequest 0, .dequeue 0 0, .work 0 true, .use (.releaseRef 0), .work 0 true,
    .dequeue 1 0, .work 1 true, .work 1 true, .use (.enterReturn 0), .use .sessionReset]

theorem processed_once_oneJob : ∃ m, run (step .homework6 1) (start 1 1 1) oneJob = some m ∧ m.AtRest ∧
    (∀ job ∈ m.jobs, .posted ∈ job.history → Done 1 job) ∧
    ∀ job ∈ m.jobs, ∀ t k, .onSuccess t k ∈ job.history ∨ .onFail t k ∈ job.history → k = job.issued := by
  have hmap : (run (step .homework6 1) (start 1 1 1) oneJob).map
      (fun m => (m.mDbCompletionPort, m.mCompletionPort, m.workers)) =
        some ([], [], [⟨⟨.dbWorker, 0⟩, .idle⟩, ⟨⟨.ioWorker, 1⟩, .idle⟩]) := by
    decide +kernel
  obtain ⟨m, hr, hm⟩ := Option.map_eq_some_iff.1 hmap
  simp only [Prod.mk.injEq] at hm
  have hrest : m.AtRest := ⟨hm.1, hm.2.1, by simp [hm.2.2]⟩
  have hmeets : Meets (step .homework6 1) (fun m a => m.Releases a ∧ m.Takes a) (start 1 1 1) oneJob := by
    decide +kernel
  obtain ⟨-, hdone, hheld⟩ := processed_once hr
  exact ⟨m, hr, hrest, hdone hrest, fun job hj => (hheld hmeets job hj).2⟩

/-- While the session is being reset, `FlushSend` takes a reference for its context.
The reset forgets it, and when it is released the next client is left without one. -/
def forgotten : List Action :=
  [.use .issue, .use (.releaseRef 0), .use (.enterReturn 0), .use (.addRef 0), .use .sessionReset, .use .issue,
    .request 0, .postDatabsaseRequest 0, .use (.releaseRef 0), .use (.releaseRef 0)]

theorem not_held_forgotten : ¬ ∀ (d i c : Nat) (as : List Action) (m : Machine),
    run (step .homework6 d) (start d i c) as = some m → Meets (step .homework6 d) Releases (start d i c) as →
      ∀ job ∈ m.jobs, .deleted ∉ job.history → 1 ≤ (m.pool.session job.mSessionObject).mRefCount ∧
        m.pool.places job.mSessionObject = 0 := by
  intro hall
  have hmap : (run (step .homework6 1) (start 1 1 1) forgotten).map
      (fun m => (m.jobs, (m.pool.session 0).mRefCount)) = some ([⟨0, false, 2, [.posted]⟩], 0) := by
    decide +kernel
  obtain ⟨m, hr, hm⟩ := Option.map_eq_some_iff.1 hmap
  simp only [Prod.mk.injEq] at hm
  have hpos := hall 1 1 1 forgotten m hr (by decide +kernel) _ (by rw [hm.1]; exact List.mem_singleton_self _) (by simp)
  rw [hm.2] at hpos
  exact absurd hpos.1 (by decide)

end Machine

end GameServer.DatabaseJobs
