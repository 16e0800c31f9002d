import GameServer.DatabaseJobs.Places
/-!
# A job of Homework6 is processed once

Whatever the order, a posted job is executed by a DB thread, then its result is
handled by an IO thread, then it is deleted (`inOrder`), and none stays behind
once the ports are empty and the threads idle (`course_of_atRest`).
-/

namespace GameServer.DatabaseJobs

open Lib

/-- Everything that is done with a job, in its order. -/
def course (t t' : Thread) (success : Bool) (issued : Nat) : List Event :=
  [.posted, .executed t success, if success then .onSuccess t' issued else .onFail t' issued, .deleted]

/-- What a job looks like in a place. -/
inductive Fits (maxDbThread : Nat) (job : Job) : Place → Prop
  | request (hh : job.history = []) : Fits maxDbThread job .request
  | dbPort (hh : job.history = [.posted]) : Fits maxDbThread job (.dbPort .dbRequest)
  | sqlExecute (t : Thread) (hh : job.history = [.posted]) : Fits maxDbThread job (.thread t .sqlExecute)
  | postDatabaseResult (t : Thread) {d : Thread} (hd : d.IsDb maxDbThread)
    (hh : job.history = [.posted, .executed d job.mSuccess]) : Fits maxDbThread job (.thread t .postDatabaseResult)
  | ioPort {d : Thread} (hd : d.IsDb maxDbThread) (hh : job.history = [.posted, .executed d job.mSuccess]) :
    Fits maxDbThread job (.ioPort .dbResult)
  | onResult (t : Thread) {d : Thread} (hd : d.IsDb maxDbThread)
    (hh : job.history = [.posted, .executed d job.mSuccess]) : Fits maxDbThread job (.thread t .onResult)
  | delete (t : Thread) {d i : Thread} (hd : d.IsDb maxDbThread) (hi : i.IsIo maxDbThread) (issued : Nat)
    (hh : job.history = (course d i job.mSuccess issued).take 3) : Fits maxDbThread job (.thread t .delete)

def Done (maxDbThread : Nat) (job : Job) : Prop :=
  ∃ d i issued, d.IsDb maxDbThread ∧ i.IsIo maxDbThread ∧ job.history = course d i job.mSuccess issued

/-- What was done with the job is the beginning of its course, done by threads of
the right kind. -/
structure InOrder (maxDbThread : Nat) (job : Job) : Prop where
  course : ∃ t t' success issued, job.history <+: course t t' success issued
  db : ∀ t success, .executed t success ∈ job.history → t.IsDb maxDbThread
  io : ∀ t issued, .onSuccess t issued ∈ job.history ∨ .onFail t issued ∈ job.history → t.IsIo maxDbThread

variable {n : Nat} {m m' : Machine} {a : Machine.Action} {job job' : Job} {k : Place} {k' : Option Place}

/-! ## One step -/

theorem fits_turn (hf : Fits n job k) (ht : Turn .homework6 n m job k job' k') :
    ∃ k₁, k' = some k₁ ∧ Fits n job' k₁ := by
  cases ht with
  | post =>
    cases hf with | request hh => exact ⟨_, rfl, .dbPort (by simp [Job.record, hh])⟩
  | doDatabaseJob t =>
    cases hf with | dbPort hh => exact ⟨_, rfl, .sqlExecute t hh⟩
  | doIocpJob t =>
    cases hf with | ioPort hd hh => exact ⟨_, rfl, .onResult t hd hh⟩
  | misread t hk =>
    cases hf with | ioPort => exact absurd rfl hk
  | keep ht answer =>
    cases hf with | sqlExecute _ hh => exact ⟨_, rfl, .postDatabaseResult _ ht (by simp [Job.record, hh])⟩
  | branch ht answer hh => cases hh
  | postDatabaseResult t =>
    cases hf with | postDatabaseResult _ hd hh => exact ⟨_, rfl, .ioPort hd hh⟩
  | onResult hi =>
    cases hf with
    | onResult _ hd hh =>
      exact ⟨_, rfl, .delete _ hd hi (m.pool.session job.mSessionObject).issued (by simp [Job.record, course, hh])⟩
  | postBack | onSuccess | onFail => cases hf

theorem done_record_deleted {t : Thread} (hf : Fits n job (.thread t .delete)) : Done n (job.record .deleted) := by
  cases hf with
  | delete _ hd hi issued hh => exact ⟨_, _, issued, hd, hi, by simp [Job.record, hh, course]⟩

theorem stages (n : Nat) : Stages .homework6 n (fun k job => Fits n job k) (Done n) where
  request _ hh := .request hh
  feed hh := nomatch hh
  turn hf ht := .inl (fits_turn hf ht)
  deleted := done_record_deleted

theorem not_deleted_of_fits {k : Place} (hf : Fits n job k) : .deleted ∉ job.history := by
  cases hf with
  | delete _ _ _ issued hh => cases hs : job.mSuccess <;> simp [hh, hs, course]
  | _ => simp [*]

namespace Machine

def InCustody (n : Nat) (m : Machine) : Prop :=
  Custody (fun k job => Fits n job k) (Done n) m.jobs m.held

theorem inCustody_step (hc : m.InCustody n) (hs : step .homework6 n m a = some m') : m'.InCustody n :=
  custody_step (stages n) hc hs

/-! ## Runs -/

theorem inCustody_start (d i c : Nat) : (start d i c).InCustody d := custody_start d i c

theorem inCustody_run {d i c : Nat} {as : List Action} (hr : run (step .homework6 d) (start d i c) as = some m) :
    m.InCustody d :=
  inv_of_run (fun _ _ _ => inCustody_step) (inCustody_start d i c) hr

end Machine

theorem inOrder_of_take {d i : Thread} (hd : d.IsDb n) (hi : i.IsIo n) (issued k : Nat)
    (hh : job.history = (course d i job.mSuccess issued).take k) : InOrder n job := by
  have hp : job.history <+: course d i job.mSuccess issued := hh ▸ List.take_prefix k _
  refine ⟨⟨d, i, job.mSuccess, issued, hp⟩, fun t success hm => ?_, fun t issued hm => ?_⟩
  · have hm := hp.subset hm
    cases hs : job.mSuccess <;> simp [course, hs] at hm <;> exact hm.1 ▸ hd
  · have hm := hm.imp (hp.subset ·) (hp.subset ·)
    cases hs : job.mSuccess <;> simp [course, hs] at hm <;> exact hm.1 ▸ hi

theorem Fits.inOrder (hf : Fits n job k) : InOrder n job := by
  cases hf with
  | request hh =>
    exact ⟨⟨⟨.main, 0⟩, ⟨.main, 0⟩, true, 0, hh ▸ List.nil_prefix⟩, by simp [hh], by simp [hh]⟩
  | dbPort hh | sqlExecute _ hh =>
    exact ⟨⟨⟨.main, 0⟩, ⟨.main, 0⟩, true, 0, hh ▸ ⟨_, rfl⟩⟩, by simp [hh], by simp [hh]⟩
  | postDatabaseResult _ hd hh | ioPort hd hh | onResult _ hd hh =>
    exact inOrder_of_take hd (⟨rfl, le_rfl⟩ : Thread.IsIo n ⟨.ioWorker, n⟩) 0 2 hh
  | delete _ hd hi issued hh => exact inOrder_of_take hd hi issued 3 hh

theorem Done.inOrder (hd : Done n job) : InOrder n job := by
  obtain ⟨d, i, issued, hd, hi, hh⟩ := hd
  exact inOrder_of_take hd hi issued 4 hh

namespace Machine

variable {d i c : Nat} {as : List Action}

theorem inOrder (hr : run (step .homework6 d) (start d i c) as = some m) : ∀ job ∈ m.jobs, InOrder d job := by
  intro job hj
  obtain ⟨j, hj⟩ := List.getElem?_of_mem hj
  have hc := inCustody_run hr
  rcases hc.held_or_done j job hj with ⟨k, hm⟩ | hd
  · obtain ⟨job', hj', hf⟩ := hc.fits j k hm
    cases hj.symm.trans hj'
    exact hf.inOrder
  · exact hd.inOrder

/-- At rest only requests hold jobs. -/
theorem eq_request_of_atRest {j : Nat} (hm : m.AtRest) (hh : (j, k) ∈ m.held) : k = .request := by
  obtain ⟨hdb, hio, hw⟩ := hm
  have hws : m.workers.filterMap Worker.place = [] := by
    rw [List.filterMap_eq_nil_iff]
    rintro ⟨t, handler⟩ hm
    cases hw _ hm
    rfl
  rw [held, heldIn, hdb, hio, hws] at hh
  simp only [List.map_nil, List.filterMap_nil, Multiset.coe_nil, Multiset.add_zero, Multiset.mem_coe,
    List.mem_map, Prod.mk.injEq] at hh
  obtain ⟨_, -, -, hk⟩ := hh
  exact hk.symm

/-- At rest every posted job has run its course. -/
theorem done_of_atRest (hr : run (step .homework6 d) (start d i c) as = some m) (hm : m.AtRest) :
    ∀ job ∈ m.jobs, .posted ∈ job.history → Done d job := by
  intro job hj hp
  obtain ⟨j, hj⟩ := List.getElem?_of_mem hj
  have hc := inCustody_run hr
  rcases hc.held_or_done j job hj with ⟨k, hh⟩ | hd
  · obtain ⟨job', hj', hf⟩ := hc.fits j k hh
    cases hj.symm.trans hj'
    cases eq_request_of_atRest hm hh
    cases hf with
    | request hh => simp [hh] at hp
  · exact hd

end Machine

end GameServer.DatabaseJobs
