import GameServer.DatabaseJobs
import GameServer.Lib.Custody
import GameServer.Lib.Entries
/-!
# Where a job is

A job that is not done is in one place: with the `Request` that made it, in a
port, or in the hands of a thread. `moves_of_step`: a step leaves every job where
it is, adds a new one, or makes one `Turn` of one job or deletes it.
-/

namespace GameServer.DatabaseJobs

open Lib

inductive Place where
  | request
  | dbPort (key : CompletionKey)
  | ioPort (key : CompletionKey)
  | thread (t : Thread) (next : Instr)

def Packet.place : Packet → Option (Nat × Place)
  | ⟨key, .job j⟩ => some (j, .ioPort key)
  | ⟨_, .ioContext⟩ => none

def Worker.place : Worker → Option (Nat × Place)
  | ⟨t, .job j next⟩ => some (j, .thread t next)
  | ⟨_, .idle⟩ | ⟨_, .ioContext⟩ => none

/-- What becomes of a job in a place, its deletion apart, and where it is then, if
anywhere. -/
inductive Turn (h : Homework) (n : Nat) (m : Machine) (job : Job) : Place → Job → Option Place → Prop
  | post : Turn h n m job .request (job.record .posted) (some (.dbPort .dbRequest))
  | doDatabaseJob (t : Thread) : Turn h n m job (.dbPort .dbRequest) job (some (.thread t .sqlExecute))
  | doIocpJob (t : Thread) :
    Turn h n m job (.ioPort .dbResult) job (some (.thread t (if h = .homework6 then .onResult else .onSuccess)))
  | misread (t : Thread) {key : CompletionKey} (hk : key ≠ .dbResult) :
    Turn h n m job (.ioPort key) (job.record (.misread t)) none
  | keep {t : Thread} (ht : t.IsDb n) (answer : Bool) (hh : h = .homework6) :
    Turn h n m job (.thread t .sqlExecute) { job.record (.executed t answer) with mSuccess := answer }
      (some (.thread t .postDatabaseResult))
  | branch {t : Thread} (ht : t.IsDb n) (answer : Bool) (hh : h = .homework7) :
    Turn h n m job (.thread t .sqlExecute) (job.record (.executed t answer))
      (some (.thread t (if answer then .postBack else .onFail)))
  | postDatabaseResult (t : Thread) :
    Turn h n m job (.thread t .postDatabaseResult) job (some (.ioPort .dbResult))
  | postBack (t : Thread) : Turn h n m job (.thread t .postBack) job (some (.ioPort .dbRequest))
  | onResult {t : Thread} (ht : t.IsIo n) :
    Turn h n m job (.thread t .onResult)
      (job.record (if job.mSuccess then .onSuccess t (m.pool.session job.mSessionObject).issued
        else .onFail t (m.pool.session job.mSessionObject).issued)) (some (.thread t .delete))
  | onSuccess (t : Thread) :
    Turn h n m job (.thread t .onSuccess)
      (job.record (.onSuccess t (m.pool.session job.mSessionObject).issued)) (some (.thread t .delete))
  | onFail (t : Thread) :
    Turn h n m job (.thread t .onFail)
      (job.record (.onFail t (m.pool.session job.mSessionObject).issued)) none

/-- A turn leaves the owner, and the history grows. -/
theorem turn_keeps {h : Homework} {n : Nat} {m : Machine} {job job' : Job} {k : Place} {k' : Option Place}
    (ht : Turn h n m job k job' k') :
    job'.mSessionObject = job.mSessionObject ∧ job'.issued = job.issued ∧
      ∃ es, job'.history = job.history ++ es ∧ .deleted ∉ es ∧
        (∀ t i, .onSuccess t i ∈ es ∨ .onFail t i ∈ es → i = (m.pool.session job.mSessionObject).issued) ∧
        (.posted ∈ es ↔ k = .request) := by
  cases ht with
  | doDatabaseJob | doIocpJob | postDatabaseResult | postBack =>
    exact ⟨rfl, rfl, [], (List.append_nil _).symm, by simp, by simp, by simp⟩
  | onResult =>
    refine ⟨rfl, rfl, [_], rfl, ?_, ?_, ?_⟩ <;> split <;> simp
  | post | misread | keep | branch | onSuccess | onFail => exact ⟨rfl, rfl, [_], rfl, by simp, by simp, by simp⟩

/-- What is held in the four kinds of places. -/
def heldIn (requests : List Nat) (db : List (CompletionKey × Nat)) (io : List Packet) (workers : List Worker) :
    Multiset (Nat × Place) :=
  requests.map (·, Place.request) + db.map (fun p => (p.2, Place.dbPort p.1)) + io.filterMap Packet.place +
    workers.filterMap Worker.place

section
variable {rs : List Nat} {db : List (CompletionKey × Nat)} {io : List Packet} {ws : List Worker} {i j : Nat}

theorem heldIn_requests_append : heldIn (rs ++ [j]) db io ws = (j, .request) ::ₘ heldIn rs db io ws := by
  simp only [heldIn, List.map_append, List.map_cons, List.map_nil, ← Multiset.coe_add, Multiset.coe_singleton,
    ← Multiset.singleton_add]
  ac_rfl

theorem heldIn_requests_erase (hj : j ∈ rs) : heldIn rs db io ws = (j, .request) ::ₘ heldIn (rs.erase j) db io ws := by
  have hp : (rs.map (·, Place.request) : Multiset (Nat × Place)) =
      (j, Place.request) ::ₘ ((rs.erase j).map (·, Place.request) : List (Nat × Place)) := by
    rw [Multiset.cons_coe, Multiset.coe_eq_coe]
    exact (List.perm_cons_erase hj).map _
  simp only [heldIn, hp, Multiset.cons_add]

theorem heldIn_db_append {key : CompletionKey} :
    heldIn rs (db ++ [(key, j)]) io ws = (j, .dbPort key) ::ₘ heldIn rs db io ws := by
  simp only [heldIn, List.map_append, List.map_cons, List.map_nil, ← Multiset.coe_add, Multiset.coe_singleton,
    ← Multiset.singleton_add]
  ac_rfl

theorem heldIn_db_erase {key : CompletionKey} (h : db[i]? = some (key, j)) :
    heldIn rs db io ws = (j, .dbPort key) ::ₘ heldIn rs (db.eraseIdx i) io ws := by
  have hp := coe_filterMap_erase (fun p => some (p.2, Place.dbPort p.1)) h
  simp only [List.filterMap_eq_map', Option.toList_some, Multiset.coe_singleton] at hp
  simp only [heldIn, hp, ← Multiset.singleton_add]
  ac_rfl

theorem heldIn_io_append (p : Packet) : heldIn rs db (io ++ [p]) ws = p.place.toList + heldIn rs db io ws := by
  have hp : ([p].filterMap Packet.place : Multiset (Nat × Place)) = p.place.toList := by
    rw [List.filterMap_cons]
    cases p.place <;> rfl
  simp only [heldIn, List.filterMap_append, ← Multiset.coe_add, hp]
  ac_rfl

theorem heldIn_io_erase {p : Packet} (h : io[i]? = some p) :
    heldIn rs db io ws = p.place.toList + heldIn rs db (io.eraseIdx i) ws := by
  simp only [heldIn, coe_filterMap_erase Packet.place h]
  ac_rfl

theorem heldIn_io_job {key : CompletionKey} (h : io[i]? = some ⟨key, .job j⟩) :
    heldIn rs db io ws = (j, .ioPort key) ::ₘ heldIn rs db (io.eraseIdx i) ws := heldIn_io_erase h

theorem heldIn_worker {w : Worker} (hw : ws[i]? = some w) :
    heldIn rs db io ws = w.place.toList + heldIn rs db io (ws.eraseIdx i) := by
  simp only [heldIn, coe_filterMap_erase Worker.place hw]
  ac_rfl

theorem heldIn_set {w : Worker} (hw : ws[i]? = some w) (w' : Worker) :
    heldIn rs db io (ws.set i w') = w'.place.toList + heldIn rs db io (ws.eraseIdx i) := by
  simp only [heldIn, coe_filterMap_set Worker.place hw]
  ac_rfl

end

namespace Machine

variable {h : Homework} {n : Nat} {m m' : Machine} {a : Action}

def held (m : Machine) : Multiset (Nat × Place) := heldIn m.requests m.mDbCompletionPort m.mCompletionPort m.workers

inductive Moves (h : Homework) (n : Nat) (m : Machine) (a : Action) (m' : Machine) : Prop where
  | stay (hj : m'.jobs = m.jobs) (hh : m'.held = m.held)
    (hp : m'.pool = m.pool ∨ ∃ u, a = .use u ∧ m.pool.use u = some m'.pool)
  | new (owner : Nat) (k : Place) (hk : a = .request owner ∧ k = .request ∨ h = .homework7 ∧ k = .ioPort .dbResult)
    (hj : m'.jobs = m.jobs ++ [⟨owner, false, (m.pool.session owner).issued, []⟩])
    (hh : m'.held = (m.jobs.length, k) ::ₘ m.held) (hp : m.pool.addRef owner = some m'.pool)
  | turn (j : Nat) (job job' : Job) (k : Place) (k' : Option Place) (rest : Multiset (Nat × Place))
    (ha : m.jobs[j]? = some job) (ht : Turn h n m job k job' k') (hj : m'.jobs = m.jobs.set j job')
    (hr : m.held = (j, k) ::ₘ rest) (hh : m'.held = (k'.map (j, ·)).toList + rest) (hp : m'.pool = m.pool)
    (hk : k = .request ↔ a = .postDatabsaseRequest j)
  | delete (j : Nat) (job : Job) (t : Thread) (rest : Multiset (Nat × Place)) (ha : m.jobs[j]? = some job)
    (hj : m'.jobs = m.jobs.set j (job.record .deleted)) (hr : m.held = (j, .thread t .delete) ::ₘ rest)
    (hh : m'.held = rest) (hp : m.pool.releaseRef job.mSessionObject = some m'.pool)

/-- Only jobs that exist are held. -/
def Known (m : Machine) : Prop := ∀ j k, (j, k) ∈ m.held → ∃ job, m.jobs[j]? = some job

theorem moves_dequeue {i k : Nat} (hk : m.Known) (hs : step h n m (.dequeue i k) = some m') :
    Moves h n m (.dequeue i k) m' := by
  rw [step] at hs
  split at hs
  case h_2 => cases hs
  rename_i t hw
  have hm : m.held = heldIn m.requests m.mDbCompletionPort m.mCompletionPort (m.workers.eraseIdx i) := by
    rw [held, heldIn_worker hw]
    exact Multiset.zero_add _
  split at hs
  · rw [doDatabaseJob] at hs
    split at hs
    case h_2 => cases hs
    rename_i j hp
    cases hs
    rw [heldIn_db_erase hp] at hm
    obtain ⟨job, hj⟩ := hk j _ (hm ▸ Multiset.mem_cons_self _ _)
    exact .turn j job job _ _ _ hj (.doDatabaseJob t) (set_of_getElem? hj).symm hm (heldIn_set hw _) rfl (by simp)
  · rw [doIocpJob] at hs
    split at hs
    case h_2 | h_5 => cases hs
    case h_1 j hp =>
      cases hs
      rw [heldIn_io_job hp] at hm
      obtain ⟨job, hj⟩ := hk j _ (hm ▸ Multiset.mem_cons_self _ _)
      exact .turn j job job _ _ _ hj (.doIocpJob t) (set_of_getElem? hj).symm hm (heldIn_set hw _) rfl (by simp)
    case h_3 key j hne hp =>
      obtain ⟨job, hj, rfl⟩ := Option.map_eq_some_iff.1 hs
      rw [heldIn_io_job hp] at hm
      exact .turn j job _ _ _ _ hj (.misread t hne) rfl hm (heldIn_set hw _) rfl (by simp)
    case h_4 key _ hp =>
      cases hs
      refine .stay rfl ?_ (.inl rfl)
      rw [hm, heldIn_io_erase hp]
      exact heldIn_set hw _

theorem held_worker {i j : Nat} {t : Thread} {next : Instr} (hw : m.workers[i]? = some ⟨t, .job j next⟩) :
    m.held = (j, .thread t next) ::ₘ
      heldIn m.requests m.mDbCompletionPort m.mCompletionPort (m.workers.eraseIdx i) := heldIn_worker hw

theorem moves_work {i : Nat} {answer : Bool} (hs : step h n m (.work i answer) = some m') :
    Moves h n m (.work i answer) m' := by
  rw [step] at hs
  split at hs
  case h_3 => cases hs
  case h_1 t hw =>
    cases hs
    refine .stay rfl ?_ (.inl rfl)
    rw [held, held, heldIn_worker hw]
    exact heldIn_set hw _
  case h_2 t j instr hw =>
    obtain ⟨job, hj, hs⟩ := Option.bind_eq_some_iff.1 hs
    obtain ⟨⟨m₁, next⟩, he, rfl⟩ := Option.map_eq_some_iff.1 hs
    have hm := held_worker hw
    cases instr with
    | sqlExecute =>
      rw [exec] at he
      split at he
      case isFalse => cases he
      rename_i ht
      cases h with
      | homework6 =>
        cases he
        exact .turn j job _ _ _ _ hj (.keep ht answer rfl) rfl hm (heldIn_set hw _) rfl (by simp)
      | homework7 =>
        cases he
        exact .turn j job _ _ _ _ hj (.branch ht answer rfl) rfl hm (heldIn_set hw _) rfl (by simp)
    | postDatabaseResult =>
      cases he
      refine .turn j job job _ _ _ hj (.postDatabaseResult t) (set_of_getElem? hj).symm hm ?_ rfl (by simp)
      exact (heldIn_set hw _).trans (by rw [heldIn_io_append]; rfl)
    | postBack =>
      cases he
      refine .turn j job job _ _ _ hj (.postBack t) (set_of_getElem? hj).symm hm ?_ rfl (by simp)
      exact (heldIn_set hw _).trans (by rw [heldIn_io_append]; rfl)
    | onResult =>
      rw [exec] at he
      split at he
      case isFalse => cases he
      rename_i ht
      cases he
      exact .turn j job _ _ _ _ hj (.onResult ht) rfl hm (heldIn_set hw _) rfl (by simp)
    | onSuccess =>
      cases he
      exact .turn j job _ _ _ _ hj (.onSuccess t) rfl hm (heldIn_set hw _) rfl (by simp)
    | onFail =>
      cases he
      exact .turn j job _ _ _ _ hj (.onFail t) rfl hm (heldIn_set hw _) rfl (by simp)
    | delete =>
      obtain ⟨p, hp, he⟩ := Option.map_eq_some_iff.1 he
      cases he
      exact .delete j job t _ hj rfl hm ((heldIn_set hw _).trans (Multiset.zero_add _)) hp

/-- What a step does with the jobs. -/
theorem moves_of_step (hk : m.Known) (hs : step h n m a = some m') : Moves h n m a m' := by
  cases a with
  | use u =>
    obtain ⟨p, hp, rfl⟩ := Option.map_eq_some_iff.1 hs
    exact .stay rfl rfl (.inr ⟨u, rfl, hp⟩)
  | request owner =>
    obtain ⟨m₁, hc, rfl⟩ := Option.map_eq_some_iff.1 hs
    obtain ⟨p, hp, rfl⟩ := Option.map_eq_some_iff.1 hc
    exact .new owner .request (.inl ⟨rfl, rfl⟩) rfl heldIn_requests_append hp
  | postDatabsaseRequest j =>
    rw [step, postDatabsaseRequest] at hs
    split at hs
    case h_2 => cases hs
    rename_i job hj
    split at hs
    case isFalse => cases hs
    rename_i hr
    cases hs
    exact .turn j job _ _ _ _ hj .post rfl (heldIn_requests_erase hr) heldIn_db_append rfl (by simp)
  | sendFeedOnce owner =>
    rw [step, sendFeedOnce] at hs
    split at hs
    case isFalse => cases hs
    rename_i hh
    obtain ⟨m₁, hc, rfl⟩ := Option.map_eq_some_iff.1 hs
    obtain ⟨p, hp, rfl⟩ := Option.map_eq_some_iff.1 hc
    exact .new owner (.ioPort .dbResult) (.inr ⟨hh, rfl⟩) rfl (heldIn_io_append _) hp
  | ioCompletion s =>
    cases hs
    exact .stay rfl (heldIn_io_append _) (.inl rfl)
  | dequeue i k => exact moves_dequeue hk hs
  | work i answer => exact moves_work hs

theorem held_start (d i c : Nat) : (start d i c).held = 0 := by
  have hw : (start d i c).workers.filterMap Worker.place = [] := by
    rw [List.filterMap_eq_nil_iff]
    intro w hw
    rcases List.mem_append.1 hw with hw | hw <;> obtain ⟨_, -, rfl⟩ := List.mem_map.1 hw <;> rfl
  rw [held, heldIn, hw]
  rfl

end Machine

/-! ## Where a job is, by its history -/

/-- `fits` is what a job looks like in a place, and `done` what it looks like once it
is held nowhere. -/
structure Stages (h : Homework) (n : Nat) (fits : Place → Job → Prop) (done : Job → Prop) : Prop where
  request : ∀ job, job.history = [] → fits .request job
  feed : h = .homework7 → ∀ job, job.history = [] → fits (.ioPort .dbResult) job
  turn : ∀ {m job k job' k'}, fits k job → Turn h n m job k job' k' →
    (∃ k₁, k' = some k₁ ∧ fits k₁ job') ∨ (k' = none ∧ done job')
  deleted : ∀ {job t}, fits (.thread t .delete) job → done (job.record .deleted)

namespace Machine

variable {h : Homework} {n : Nat} {m m' : Machine} {a : Action} {fits : Place → Job → Prop} {done : Job → Prop}

theorem known_of_custody (hc : Custody fits done m.jobs m.held) : m.Known :=
  fun j k hm => (hc.fits j k hm).imp fun _ hj => hj.1

theorem fits_of_held {j : Nat} {k : Place} {job : Job} {rest : Multiset (Nat × Place)}
    (hc : Custody fits done m.jobs m.held) (hr : m.held = (j, k) ::ₘ rest) (ha : m.jobs[j]? = some job) : fits k job := by
  rw [hr] at hc
  exact hc.fits_head ha

theorem custody_step (hst : Stages h n fits done) (hc : Custody fits done m.jobs m.held)
    (hs : step h n m a = some m') : Custody fits done m'.jobs m'.held := by
  cases moves_of_step (known_of_custody hc) hs with
  | stay hj hh => rwa [hj, hh]
  | new owner k hk hj hh =>
    rw [hj, hh]
    rcases hk with ⟨-, rfl⟩ | ⟨hh7, rfl⟩
    · exact hc.add (hst.request _ rfl)
    · exact hc.add (hst.feed hh7 _ rfl)
  | turn j job job' k k' rest ha ht hj hr hh =>
    have hf := hst.turn (fits_of_held hc hr ha) ht
    rw [hr] at hc
    rw [hj, hh]
    rcases hf with ⟨k₁, rfl, hf⟩ | ⟨rfl, hd⟩
    · exact hc.move hf
    · exact (Multiset.zero_add rest).symm ▸ hc.retire hd
  | delete j job t rest ha hj hr hh =>
    have hd := hst.deleted (fits_of_held hc hr ha)
    rw [hr] at hc
    rw [hj, hh]
    exact hc.retire hd

theorem custody_start (d i c : Nat) : Custody fits done (start d i c).jobs (start d i c).held := by
  rw [held_start]
  exact .nil

end Machine

end GameServer.DatabaseJobs
