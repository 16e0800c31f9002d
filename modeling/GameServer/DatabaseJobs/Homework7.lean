import GameServer.DatabaseJobs.Once
/-!
# The jobs of Homework7

`DoDatabaseJob` of Homework7 handles a failed job itself and forgets it, and posts
any other back with the key it came with, so that `DoIocpJob` takes it for a
context of the sockets. No job that is posted to the database threads is ever
completed (`completes_iff`); those of the feed are.
-/

namespace GameServer.DatabaseJobs

open Lib

namespace Homework7

/-- What a job looks like in a place. -/
inductive Fits (n : Nat) (job : Job) : Place → Prop
  | request (hh : job.history = []) : Fits n job .request
  | dbPort (hh : job.history = [.posted]) : Fits n job (.dbPort .dbRequest)
  | sqlExecute (t : Thread) (hh : job.history = [.posted]) : Fits n job (.thread t .sqlExecute)
  | postBack (t d : Thread) (hh : job.history = [.posted, .executed d true]) : Fits n job (.thread t .postBack)
  | ioPort (d : Thread) (hh : job.history = [.posted, .executed d true]) : Fits n job (.ioPort .dbRequest)
  | onFail {d : Thread} (hd : d.IsDb n) (hh : job.history = [.posted, .executed d false]) :
    Fits n job (.thread d .onFail)
  -- those of the feed
  | feed (hh : job.history = []) : Fits n job (.ioPort .dbResult)
  | onSuccess (t : Thread) (hh : job.history = []) : Fits n job (.thread t .onSuccess)
  | delete (t i : Thread) (issued : Nat) (hh : job.history = [.onSuccess i issued]) :
    Fits n job (.thread t .delete)

/-- What has become of a job that is held nowhere. -/
inductive Gone (n : Nat) (job : Job) : Prop
  | misread (d t : Thread) (hh : job.history = [.posted, .executed d true, .misread t])
  | onFail {d : Thread} (hd : d.IsDb n) (issued : Nat)
    (hh : job.history = [.posted, .executed d false, .onFail d issued])
  | feed (i : Thread) (issued : Nat) (hh : job.history = [.onSuccess i issued, .deleted])

def isResult : Event → Bool
  | .onSuccess _ _ | .onFail _ _ => true
  | .posted | .executed _ _ | .misread _ | .deleted => false

/-- Exactly one of `OnSuccess` and `OnFail` was run, on an IO thread, and the job
was deleted once, which releases its reference. -/
structure Completed (n : Nat) (job : Job) : Prop where
  once : job.history.countP isResult = 1
  io : ∀ t issued, .onSuccess t issued ∈ job.history ∨ .onFail t issued ∈ job.history → t.IsIo n
  deleted : job.history.count .deleted = 1

/-- No posted job is taken for another context, and at rest every one is completed. -/
structure Completes (n : Nat) (m : Machine) : Prop where
  misread : ∀ job ∈ m.jobs, .posted ∈ job.history → ∀ t, .misread t ∉ job.history
  atRest : m.AtRest → ∀ job ∈ m.jobs, .posted ∈ job.history → Completed n job

/-- The action is a call of `PostDatabsaseRequest`. -/
def posts : Machine.Action → Bool
  | .postDatabsaseRequest _ => true
  | .use _ | .request _ | .sendFeedOnce _ | .ioCompletion _ | .dequeue _ _ | .work _ _ => false

variable {n : Nat} {m m' : Machine} {a : Machine.Action} {job job' : Job} {k : Place} {k' : Option Place}

/-! ## Where the jobs go -/

theorem fits_turn (hf : Fits n job k) (ht : Turn .homework7 n m job k job' k') :
    (∃ k₁, k' = some k₁ ∧ Fits n job' k₁) ∨ (k' = none ∧ Gone n job') := by
  cases ht with
  | post =>
    cases hf with | request hh => exact .inl ⟨_, rfl, .dbPort (by simp [Job.record, hh])⟩
  | doDatabaseJob t =>
    cases hf with | dbPort hh => exact .inl ⟨_, rfl, .sqlExecute t hh⟩
  | doIocpJob t =>
    cases hf with | feed hh => exact .inl ⟨_, rfl, .onSuccess t hh⟩
  | misread t hk =>
    cases hf with
    | ioPort d hh => exact .inr ⟨rfl, .misread d t (by simp [Job.record, hh])⟩
    | feed => exact absurd rfl hk
  | keep ht answer hh => cases hh
  | @branch t ht answer =>
    cases hf with
    | sqlExecute _ hh =>
      cases answer with
      | true => exact .inl ⟨_, rfl, .postBack t t (by simp [Job.record, hh])⟩
      | false => exact .inl ⟨_, rfl, .onFail ht (by simp [Job.record, hh])⟩
  | postBack t =>
    cases hf with | postBack _ d hh => exact .inl ⟨_, rfl, .ioPort d hh⟩
  | onSuccess t =>
    cases hf with | onSuccess _ hh => exact .inl ⟨_, rfl, .delete t t _ (by simp only [Job.record, hh]; rfl)⟩
  | onFail t =>
    cases hf with | onFail hd hh => exact .inr ⟨rfl, .onFail hd _ (by simp only [Job.record, hh]; rfl)⟩
  | postDatabaseResult | onResult => cases hf

theorem gone_record_deleted {t : Thread} (hf : Fits n job (.thread t .delete)) : Gone n (job.record .deleted) := by
  cases hf with
  | delete _ i issued hh => exact .feed i issued (by simp [Job.record, hh])

def InCustody (n : Nat) (m : Machine) : Prop := Custody (fun k job => Fits n job k) (Gone n) m.jobs m.held

theorem stages (n : Nat) : Stages .homework7 n (fun k job => Fits n job k) (Gone n) where
  request _ hh := .request hh
  feed _ _ hh := .feed hh
  turn := fits_turn
  deleted := gone_record_deleted

theorem inCustody_step (hc : InCustody n m) (hs : Machine.step .homework7 n m a = some m') : InCustody n m' :=
  Machine.custody_step (stages n) hc hs

theorem inCustody_start (d i c : Nat) : InCustody d (Machine.start d i c) := Machine.custody_start d i c

theorem inCustody_run {d i c : Nat} {as : List Machine.Action}
    (hr : run (Machine.step .homework7 d) (Machine.start d i c) as = some m) : InCustody d m :=
  inv_of_run (fun _ _ _ => inCustody_step) (inCustody_start d i c) hr

/-! ## Which jobs are posted -/

def Posted (m : Machine) : Prop := ∃ job ∈ m.jobs, .posted ∈ job.history

theorem posted_set {j : Nat} (es : List Event) (ha : m.jobs[j]? = some job) (hj : m'.jobs = m.jobs.set j job')
    (he : job'.history = job.history ++ es) : Posted m' ↔ Posted m ∨ .posted ∈ es := by
  have hlt : j < m.jobs.length := (List.getElem?_eq_some_iff.1 ha).1
  have hself : job' ∈ m'.jobs := List.mem_of_getElem? (hj ▸ List.getElem?_set_self hlt)
  constructor
  · rintro ⟨job₁, hm, hp⟩
    rcases List.mem_or_eq_of_mem_set (hj ▸ hm) with hm | rfl
    · exact .inl ⟨job₁, hm, hp⟩
    · rw [he, List.mem_append] at hp
      exact hp.imp_left fun hp => ⟨job, List.mem_of_getElem? ha, hp⟩
  · rintro (⟨job₁, hm, hp⟩ | hp)
    · obtain ⟨i, hi⟩ := List.getElem?_of_mem hm
      by_cases hij : j = i
      · cases (hij ▸ ha).symm.trans hi
        exact ⟨job', hself, he ▸ List.mem_append_left _ hp⟩
      · exact ⟨job₁, List.mem_of_getElem? (hj ▸ (List.getElem?_set_ne hij).trans hi), hp⟩
    · exact ⟨job', hself, he ▸ List.mem_append_right _ hp⟩

/-- Only a post makes a posted job, and it stays one. -/
theorem posted_step (hc : InCustody n m) (hs : Machine.step .homework7 n m a = some m') :
    (Posted m → Posted m') ∧ (Posted m' → Posted m ∨ posts a) := by
  cases Machine.moves_of_step (Machine.known_of_custody hc) hs with
  | stay hj hh hp =>
    unfold Posted
    rw [hj]
    exact ⟨id, .inl⟩
  | new owner k hk hj hh =>
    constructor
    · rintro ⟨job, hm, hp⟩
      exact ⟨job, hj ▸ List.mem_append_left _ hm, hp⟩
    · rintro ⟨job, hm, hp⟩
      rcases List.mem_append.1 (hj ▸ hm) with hm | hm
      · exact .inl ⟨job, hm, hp⟩
      · cases List.mem_singleton.1 hm
        cases hp
  | turn j job job' k k' rest ha ht hj hr hh hp hk =>
    obtain ⟨-, -, es, hhist, -, -, hpost⟩ := turn_keeps ht
    rw [posted_set es ha hj hhist]
    refine ⟨.inl, .imp_right fun hp => ?_⟩
    rw [hk.1 (hpost.1 hp)]
    rfl
  | delete j job t rest ha hj hr hh =>
    rw [posted_set [.deleted] ha hj rfl]
    exact ⟨.inl, .imp_right fun hp => by simp at hp⟩

theorem posted_of_posts (hp : posts a) (hs : Machine.step .homework7 n m a = some m') : Posted m' := by
  cases a with
  | postDatabsaseRequest j =>
    rw [Machine.step, Machine.postDatabsaseRequest] at hs
    split at hs
    case h_2 => cases hs
    rename_i job hj
    split at hs
    case isFalse => cases hs
    cases hs
    exact (posted_set [.posted] hj rfl rfl).2 (.inr (List.mem_singleton_self _))
  | _ => cases hp

theorem posted_iff {d i c : Nat} {as : List Machine.Action}
    (hr : run (Machine.step .homework7 d) (Machine.start d i c) as = some m) : Posted m ↔ ∃ a ∈ as, posts a := by
  constructor
  · intro hp
    by_contra hn
    have hm : Meets (Machine.step .homework7 d) (fun _ a => ¬ posts a) (Machine.start d i c) as :=
      meets_of_forall fun a ha hpa => hn ⟨a, ha, hpa⟩
    have h0 : InCustody d (Machine.start d i c) ∧ ¬ Posted (Machine.start d i c) :=
      ⟨inCustody_start d i c, fun ⟨_, hm, _⟩ => absurd hm List.not_mem_nil⟩
    have hinv := inv_of_meets (I := fun m => InCustody d m ∧ ¬ Posted m)
      (fun _ _ _ hI hP hs => ⟨inCustody_step hI.1 hs, fun hp => ((posted_step hI.1 hs).2 hp).elim hI.2 hP⟩) h0 hm hr
    exact hinv.2 hp
  · rintro ⟨a, ha, hpa⟩
    obtain ⟨as₁, as₂, rfl⟩ := List.append_of_mem ha
    obtain ⟨m₁, hr₁, hr₂⟩ := run_append.1 hr
    obtain ⟨m₂, hs, hr₂⟩ := run_cons.1 hr₂
    have hc := inCustody_step (inCustody_run hr₁) hs
    have hinv := inv_of_run (I := fun m => InCustody d m ∧ Posted m)
      (fun _ _ _ hI hs => ⟨inCustody_step hI.1 hs, (posted_step hI.1 hs).1 hI.2⟩) ⟨hc, posted_of_posts hpa hs⟩ hr₂
    exact hinv.2

/-- At rest, no posted job is completed and free of being misread. -/
theorem not_completed (hc : InCustody n m) (hm : m.AtRest) (hj : job ∈ m.jobs) (hp : .posted ∈ job.history)
    (ht : ∀ t, .misread t ∉ job.history) : ¬ Completed n job := by
  obtain ⟨j, hj⟩ := List.getElem?_of_mem hj
  rcases hc.held_or_done j job hj with ⟨k, hh⟩ | hg
  · obtain ⟨job', hj', hf⟩ := hc.fits j k hh
    cases hj.symm.trans hj'
    cases Machine.eq_request_of_atRest hm hh
    cases hf with
    | request hh => simp [hh] at hp
  · cases hg with
    | misread d t hh => exact absurd (by simp [hh]) (ht t)
    | onFail hd issued hh => exact fun hcomp => absurd hcomp.deleted (by simp [hh])
    | feed i issued hh => simp [hh] at hp

/-- A run without a post meets the claim throughout, and one that has come to rest
meets it only if there was none. -/
theorem completes_iff {d i c : Nat} {as : List Machine.Action}
    (hr : run (Machine.step .homework7 d) (Machine.start d i c) as = some m) :
    ((∀ a ∈ as, ¬ posts a) → Completes d m) ∧ (m.AtRest → (Completes d m ↔ ∀ a ∈ as, ¬ posts a)) := by
  have hnone (hn : ∀ a ∈ as, ¬ posts a) : ∀ job ∈ m.jobs, .posted ∉ job.history := by
    intro job hj hp
    obtain ⟨a, ha, hpa⟩ := (posted_iff hr).1 ⟨job, hj, hp⟩
    exact hn a ha hpa
  have hif (hn : ∀ a ∈ as, ¬ posts a) : Completes d m :=
    ⟨fun job hj hp => absurd hp (hnone hn job hj), fun _ job hj hp => absurd hp (hnone hn job hj)⟩
  refine ⟨hif, fun hm => ⟨fun hcomp a ha hpa => ?_, hif⟩⟩
  obtain ⟨job, hj, hp⟩ := (posted_iff hr).2 ⟨a, ha, hpa⟩
  exact not_completed (inCustody_run hr) hm hj hp (hcomp.misread job hj hp) (hcomp.atRest hm job hj hp)

/-- A job that fails, and one of the feed. -/
def failedAndFeed : List Machine.Action :=
  [.use .issue, .request 0, .postDatabsaseRequest 0, .dequeue 0 0, .work 0 false, .work 0 false, .sendFeedOnce 0,
    .dequeue 1 0, .work 1 false, .work 1 false]

theorem completes_iff_failedAndFeed : ∃ m, run (Machine.step .homework7 1) (Machine.start 1 1 1) failedAndFeed = some m ∧
    m.AtRest ∧ (Completes 1 m ↔ ∀ a ∈ failedAndFeed, ¬ posts a) := by
  have hmap : (run (Machine.step .homework7 1) (Machine.start 1 1 1) failedAndFeed).map
      (fun m => (m.mDbCompletionPort, m.mCompletionPort, m.workers)) =
        some ([], [], [⟨⟨.dbWorker, 0⟩, .idle⟩, ⟨⟨.ioWorker, 1⟩, .idle⟩]) := by
    decide +kernel
  obtain ⟨m, hr, hm⟩ := Option.map_eq_some_iff.1 hmap
  simp only [Prod.mk.injEq] at hm
  have hrest : m.AtRest := ⟨hm.1, hm.2.1, by simp [hm.2.2]⟩
  exact ⟨m, hr, hrest, (completes_iff hr).2 hrest⟩

/-- A job that succeeds comes back with the key it went with. -/
def succeeds : List Machine.Action :=
  [.use .issue, .request 0, .postDatabsaseRequest 0, .dequeue 0 0, .work 0 true, .work 0 true, .dequeue 1 0]

theorem not_completes_succeeds : ¬ ∀ (d i c : Nat) (as : List Machine.Action) (m : Machine),
    run (Machine.step .homework7 d) (Machine.start d i c) as = some m → Completes d m := by
  intro hall
  have hmap : (run (Machine.step .homework7 1) (Machine.start 1 1 1) succeeds).map Machine.jobs =
      some [⟨0, false, 1, [.posted, .executed ⟨.dbWorker, 0⟩ true, .misread ⟨.ioWorker, 1⟩]⟩] := by
    decide +kernel
  obtain ⟨m, hr, hm⟩ := Option.map_eq_some_iff.1 hmap
  have hread := (hall 1 1 1 succeeds m hr).misread _ (by rw [hm]; exact List.mem_singleton_self _) (by simp)
  exact hread ⟨.ioWorker, 1⟩ (by simp)

end Homework7

end GameServer.DatabaseJobs
