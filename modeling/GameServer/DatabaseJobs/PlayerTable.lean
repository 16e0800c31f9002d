import GameServer.DatabaseJobs.Once
import GameServer.Lib.LastWrite
import GameServer.Lib.Tally
/-!
# The player and its row

What the update jobs of Homework6 do: `PlayerDBContext.cpp`, `Player.cpp` and the
procedures of `GameDB.sql`. `OnSQLExecute` updates the row, later `OnSuccess` the
player in memory. The server may have performed an update though `OnSQLExecute`
returns false: its answer is lost, or `FetchRow` fails. Nothing keeps two jobs of
a player in order either, so the two agree at rest if and only if, for each
field, the same value came last (`agree_iff`). The coordinates may be of any type.
-/

namespace GameServer.DatabaseJobs

open Lib

def MAX_COMMENT_LEN : Nat := 256

/-- A text that `wcscpy_s` copies; a longer one ends the process. -/
def Comment : Type := { text : List UInt16 // text.length < MAX_COMMENT_LEN }
  deriving DecidableEq

/-- `UpdatePlayerPositionContext`, `UpdatePlayerCommentContext` and
`UpdatePlayerValidContext`. -/
inductive Update (F : Type) where
  | position (x y z : F)
  | comment (comment : Comment)
  | validation (isValid : Bool)
  deriving DecidableEq

inductive Field where
  | position
  | comment
  | validation
  deriving DecidableEq

namespace Update

variable {F : Type}

def field : Update F → Field
  | .position _ _ _ => .position
  | .comment _ => .comment
  | .validation _ => .validation

end Update

structure Player (F : Type) where
  mPosX : F
  mPosY : F
  mPosZ : F
  mIsValid : Bool
  mComment : Comment

/-- A row of `PlayerTable`. -/
structure Row (F : Type) where
  currentPosX : F
  currentPosY : F
  currentPosZ : F
  isValid : UInt8
  comment : Comment

variable {F : Type}

namespace Player

/-- `ResponseUpdatePosition`, `ResponseUpdateComment` and `ResponseUpdateValidation`. -/
def response (p : Player F) : Update F → Player F
  | .position x y z => { p with mPosX := x, mPosY := y, mPosZ := z }
  | .comment comment => { p with mComment := comment }
  | .validation isValid => { p with mIsValid := isValid }

/-- The update that sets what the field holds. -/
def read (p : Player F) : Field → Update F
  | .position => .position p.mPosX p.mPosY p.mPosZ
  | .comment => .comment p.mComment
  | .validation => .validation p.mIsValid

theorem read_response (p : Player F) (u : Update F) (f : Field) :
    (p.response u).read f = if u.field = f then u else p.read f := by
  cases u <;> cases f <;> rfl

end Player

namespace Row

/-- `spUpdatePlayerPosition`, `spUpdatePlayerComment` and `spUpdatePlayerValid`. -/
def execute (r : Row F) : Update F → Row F
  | .position x y z => { r with currentPosX := x, currentPosY := y, currentPosZ := z }
  | .comment comment => { r with comment := comment }
  | .validation isValid => { r with isValid := isValid.toUInt8 }

def read (r : Row F) : Field → Update F
  | .position => .position r.currentPosX r.currentPosY r.currentPosZ
  | .comment => .comment r.comment
  | .validation => .validation (r.isValid != 0)

theorem read_execute (r : Row F) (u : Update F) (f : Field) :
    (r.execute u).read f = if u.field = f then u else r.read f := by
  cases u <;> cases f <;> try rfl
  case validation.validation isValid => cases isValid <;> rfl

end Row

/-- The player in memory holds what its row does. -/
structure Agree (p : Player F) (r : Row F) : Prop where
  posX : p.mPosX = r.currentPosX
  posY : p.mPosY = r.currentPosY
  posZ : p.mPosZ = r.currentPosZ
  isValid : p.mIsValid = (r.isValid != 0)
  comment : p.mComment = r.comment

theorem agree_iff_read {p : Player F} {r : Row F} : Agree p r ↔ ∀ f, p.read f = r.read f := by
  constructor
  · intro h f
    cases f <;> simp [Player.read, Row.read, h.posX, h.posY, h.posZ, h.comment, h.isValid]
  · intro h
    have hp := h .position
    have hc := h .comment
    have hv := h .validation
    simp only [Player.read, Row.read, Update.position.injEq, Update.comment.injEq, Update.validation.injEq] at hp hc hv
    exact ⟨hp.1, hp.2.1, hp.2.2, hv, hc⟩

/-- The player of session `s` and its row, beside the machine. `executed`, `lost`
and `handled` are ghost: its jobs in the order of their updates of the row, those of
them whose `OnSQLExecute` returned false, and its jobs in the order of their calls of
`OnSuccess`. -/
structure World (F : Type) where
  machine : Machine
  row : Row F
  player : Player F
  executed : List Nat
  lost : List Nat
  handled : List Nat

namespace Machine

/-- What worker `i` is to do next, and with which job. -/
def atWork (m : Machine) (i : Nat) : Option (Instr × Nat × Job) :=
  match m.workers[i]? with
  | some ⟨_, .job j next⟩ => m.jobs[j]?.map (next, j, ·)
  | _ => none

/-- The job of session `s` whose `OnSQLExecute` returns `success`. -/
def executes (m : Machine) (s : Nat) (success : Bool) : Action → Option Nat
  | .work i answer =>
    match m.atWork i with
    | some (.sqlExecute, j, job) => if answer = success ∧ job.mSessionObject = s then some j else none
    | _ => none
  | _ => none

/-- The job of session `s` whose `OnSuccess` is called. -/
def handles (m : Machine) (s : Nat) : Action → Option Nat
  | .work i _ =>
    match m.atWork i with
    | some (.onResult, j, job) => if job.mSuccess ∧ job.mSessionObject = s then some j else none
    | _ => none
  | _ => none

/-- No job of session `s` is outstanding. -/
def Settled (m : Machine) (s : Nat) : Prop := ∀ job ∈ m.jobs, job.mSessionObject = s → .deleted ∈ job.history

end Machine

namespace World

/-- Job `j` carries `update j`. The player of session `s` stays loaded and its row
exists, so an answer of yes says that the update was performed; with `performed` it
was also where `OnSQLExecute` returns false. -/
def step (n s : Nat) (update : Nat → Update F) (w : World F) (a : Machine.Action × Bool) : Option (World F) :=
  let (a, performed) := a
  if a = .use .sessionReset ∧ w.machine.pool.resetting = some s then none
  else
    let loses := if performed then (w.machine.executes s false a).toList else []
    let executes := (w.machine.executes s true a).toList ++ loses
    let handles := (w.machine.handles s a).toList
    (w.machine.step .homework6 n a).map fun m =>
      { machine := m
        row := (executes.map update).foldl Row.execute w.row
        player := (handles.map update).foldl Player.response w.player
        executed := w.executed ++ executes
        lost := w.lost ++ loses
        handled := w.handled ++ handles }

end World

/-! ## What a step adds to the histories -/

def Event.isUpdate : Event → Bool
  | .executed _ success => success
  | _ => false

def Event.isOnSuccess : Event → Bool
  | .onSuccess _ _ => true
  | _ => false

namespace Machine

variable {n s j : Nat} {m m' : Machine} {a : Action} {job job' : Job} {q : Event → Bool}

/-- How many such events there were with job `j`, if it is one of session `s`. -/
def count (q : Event → Bool) (m : Machine) (s j : Nat) : Nat :=
  match m.jobs[j]? with
  | some job => if job.mSessionObject = s then job.history.countP q else 0
  | none => 0

theorem count_of_jobs (hj : m'.jobs = m.jobs) : m'.count q s j = m.count q s j := by
  rw [count, count, hj]

theorem count_record {i : Nat} (e : Event) (success : Bool) (ha : m.jobs[i]? = some job)
    (hj : m'.jobs = m.jobs.set i { job.record e with mSuccess := success }) :
    m'.count q s j = m.count q s j + if q e ∧ job.mSessionObject = s ∧ i = j then 1 else 0 := by
  rw [count, count, hj]
  by_cases hij : i = j
  · subst hij
    rw [List.getElem?_set_self (List.getElem?_eq_some_iff.1 ha).1, ha]
    by_cases hs : job.mSessionObject = s <;> simp [Job.record, hs, List.countP_append, List.countP_singleton]
  · rw [List.getElem?_set_ne hij]
    simp [hij]

theorem count_new {owner issued : Nat} (hj : m'.jobs = m.jobs ++ [⟨owner, false, issued, []⟩]) :
    m'.count q s j = m.count q s j := by
  rw [count, count, hj]
  by_cases hlt : j < m.jobs.length
  · rw [List.getElem?_append_left hlt]
  · have hnone : m.jobs[j]? = none := List.getElem?_eq_none (by omega)
    rw [List.getElem?_append_right (by omega), hnone]
    by_cases he : j - m.jobs.length = 0 <;> simp [he]

/-- A step of a worker records what it does with its job. -/
theorem count_work {i : Nat} {answer : Bool} (hc : m.InCustody n) (hs : step .homework6 n m (.work i answer) = some m') :
    m'.count Event.isUpdate s j = m.count Event.isUpdate s j + (if m.executes s true (.work i answer) = some j then 1 else 0) ∧
      m'.count Event.isOnSuccess s j =
        m.count Event.isOnSuccess s j + if m.handles s (.work i answer) = some j then 1 else 0 := by
  rw [step] at hs
  split at hs
  case h_3 => cases hs
  case h_1 t hw =>
    cases hs
    have hnone : m.atWork i = none := by rw [atWork, hw]
    simp only [executes, handles, hnone]
    exact ⟨count_of_jobs rfl, count_of_jobs rfl⟩
  case h_2 t k next hw =>
    obtain ⟨job, hj, hs⟩ := Option.bind_eq_some_iff.1 hs
    obtain ⟨⟨m₁, next'⟩, he, rfl⟩ := Option.map_eq_some_iff.1 hs
    have hat : m.atWork i = some (next, k, job) := by rw [atWork, hw]; simp [hj]
    simp only [executes, handles, hat]
    cases next with
    | sqlExecute =>
      rw [exec] at he
      split at he <;> cases he
      refine ⟨(count_record (.executed t answer) answer hj rfl).trans ?_,
        (count_record (.executed t answer) answer hj rfl).trans ?_⟩
      · cases answer with
        | false => simp [Event.isUpdate]
        | true => by_cases hs : job.mSessionObject = s <;> simp [Event.isUpdate, hs]
      · simp [Event.isOnSuccess]
    | postDatabaseResult | postBack =>
      cases he
      exact ⟨count_of_jobs rfl, count_of_jobs rfl⟩
    | onResult =>
      rw [exec] at he
      split at he <;> cases he
      refine ⟨(count_record _ job.mSuccess hj rfl).trans ?_, (count_record _ job.mSuccess hj rfl).trans ?_⟩
      · cases job.mSuccess <;> simp [Event.isUpdate]
      · cases hb : job.mSuccess with
        | false => simp [Event.isOnSuccess, hb]
        | true => by_cases hs : job.mSessionObject = s <;> simp [Event.isOnSuccess, hb, hs]
    | onSuccess | onFail =>
      cases fits_of_held hc (held_worker hw) hj
    | delete =>
      obtain ⟨p, -, he⟩ := Option.map_eq_some_iff.1 he
      cases he
      exact ⟨count_record .deleted job.mSuccess hj rfl, count_record .deleted job.mSuccess hj rfl⟩

theorem count_step (hc : m.InCustody n) (hs : step .homework6 n m a = some m') :
    m'.count Event.isUpdate s j = m.count Event.isUpdate s j + (if m.executes s true a = some j then 1 else 0) ∧
      m'.count Event.isOnSuccess s j =
        m.count Event.isOnSuccess s j + if m.handles s a = some j then 1 else 0 := by
  cases a with
  | use u =>
    obtain ⟨p, -, rfl⟩ := Option.map_eq_some_iff.1 hs
    exact ⟨count_of_jobs rfl, count_of_jobs rfl⟩
  | request owner =>
    obtain ⟨m₁, hr, rfl⟩ := Option.map_eq_some_iff.1 hs
    obtain ⟨p, -, rfl⟩ := Option.map_eq_some_iff.1 hr
    exact ⟨count_new rfl, count_new rfl⟩
  | postDatabsaseRequest k =>
    rw [step, postDatabsaseRequest] at hs
    split at hs
    case h_2 => cases hs
    rename_i job hj
    split at hs <;> cases hs
    exact ⟨count_record .posted job.mSuccess hj rfl, count_record .posted job.mSuccess hj rfl⟩
  | sendFeedOnce owner => cases hs
  | ioCompletion s =>
    cases hs
    exact ⟨count_of_jobs rfl, count_of_jobs rfl⟩
  | dequeue i k =>
    rw [step] at hs
    split at hs
    case h_2 => cases hs
    rename_i t hw
    split at hs
    · rw [doDatabaseJob] at hs
      split at hs <;> cases hs
      exact ⟨count_of_jobs rfl, count_of_jobs rfl⟩
    · rw [doIocpJob] at hs
      split at hs
      case h_3 =>
        obtain ⟨job, hj, rfl⟩ := Option.map_eq_some_iff.1 hs
        exact ⟨count_record (.misread t) job.mSuccess hj rfl, count_record (.misread t) job.mSuccess hj rfl⟩
      all_goals
        cases hs
        try exact ⟨count_of_jobs rfl, count_of_jobs rfl⟩
  | work i answer => exact count_work hc hs

/-- A job that is settled was updated in memory as often as in the database. -/
theorem count_eq_of_settled (hc : m.InCustody n) (hs : m.Settled s) :
    m.count Event.isUpdate s j = m.count Event.isOnSuccess s j := by
  rw [count, count]
  cases hj : m.jobs[j]? with
  | none => rfl
  | some job =>
    by_cases ho : job.mSessionObject = s
    · have hdel := hs job (List.mem_of_getElem? hj) ho
      rcases hc.held_or_done j job hj with ⟨k, hm⟩ | ⟨d, i, issued, -, -, hh⟩
      · obtain ⟨job', hj', hf⟩ := hc.fits j k hm
        cases hj.symm.trans hj'
        exact absurd hdel (not_deleted_of_fits hf)
      · cases hb : job.mSuccess <;> simp [hh, course, hb, ho, Event.isUpdate, Event.isOnSuccess, List.countP_cons]
    · simp [ho]

end Machine

namespace World

variable {n s : Nat} {update : Nat → Update F} {w w' w₀ : World F} {a : Machine.Action × Bool}

/-- The logs are those of what happened since `w₀`, and the row and the player are
what they make of the ones there. -/
structure Logged (n s : Nat) (update : Nat → Update F) (w₀ w : World F) : Prop where
  custody : w.machine.InCustody n
  executed : ∀ j, w.machine.count Event.isUpdate s j + w.lost.count j =
    w₀.machine.count Event.isUpdate s j + w.executed.count j
  handled : ∀ j, w.machine.count Event.isOnSuccess s j = w₀.machine.count Event.isOnSuccess s j + w.handled.count j
  row : w.row = (w.executed.map update).foldl Row.execute w₀.row
  player : w.player = (w.handled.map update).foldl Player.response w₀.player

theorem logged_step (h : Logged n s update w₀ w) (hs : step n s update w a = some w') : Logged n s update w₀ w' := by
  rw [step] at hs
  split at hs
  case isTrue => cases hs
  obtain ⟨m, hm, rfl⟩ := Option.map_eq_some_iff.1 hs
  have hcount (o : Option Nat) (j : Nat) : o.toList.count j = if o = some j then 1 else 0 := by
    cases o <;> simp [List.count_singleton]
  constructor
  · exact Machine.inCustody_step h.custody hm
  · intro j
    have he := h.executed j
    simp only [(Machine.count_step h.custody hm).1, List.count_append, hcount]
    omega
  · intro j
    rw [(Machine.count_step h.custody hm).2, h.handled j, List.count_append, hcount, Nat.add_assoc]
  · simp only [h.row, List.map_append, List.foldl_append]
  · simp only [h.player, List.map_append, List.foldl_append]

/-- Once none of its jobs is outstanding, the player got the updates that its row
got, but for those that were lost. They agree if and only if the last update that
was performed of a field and the last that was handled give it the same value,
where there was none the one it had. -/
theorem agree_iff {d i c : Nat} {as₀ : List Machine.Action} {as : List (Machine.Action × Bool)} {m₀ : Machine}
    {row : Row F} {player : Player F}
    (hr₀ : run (Machine.step .homework6 d) (Machine.start d i c) as₀ = some m₀) (hs₀ : m₀.Settled s)
    (ha : Agree player row) (hr : run (step d s update) ⟨m₀, row, player, [], [], []⟩ as = some w)
    (hs : w.machine.Settled s) :
    w.executed.Perm (w.handled ++ w.lost) ∧ (Agree w.player w.row ↔
      ∀ f, (lastWrite Update.field f (w.executed.map update)).getD (player.read f) =
        (lastWrite Update.field f (w.handled.map update)).getD (player.read f)) := by
  have hc := Machine.inCustody_run hr₀
  have hl := inv_of_run (I := Logged d s update ⟨m₀, row, player, [], [], []⟩) (fun _ _ _ => logged_step)
    ⟨hc, by simp, by simp, rfl, rfl⟩ hr
  constructor
  · rw [List.perm_iff_count]
    intro j
    have he := hl.executed j
    have hh := hl.handled j
    rw [Machine.count_eq_of_settled hl.custody hs] at he
    have h₀ := Machine.count_eq_of_settled (j := j) hc hs₀
    simp only [List.count_append] at he hh ⊢
    omega
  · rw [agree_iff_read, hl.row, hl.player]
    refine forall_congr' fun f => ?_
    rw [read_foldl Player.read_response, read_foldl Row.read_execute, ← agree_iff_read.1 ha f]
    exact eq_comm

def issued : Machine where
  __ := Machine.start 1 2 1
  pool := ⟨Function.update (fun _ => ⟨false, 0, 0, 0⟩) 0 ⟨false, 1, 1, 1⟩, [], [], none⟩

def moves (j : Nat) : Update Nat := .position (j + 1) 0 0

def atOrigin : World Nat := ⟨issued, ⟨0, 0, 0, 1, ⟨[], by decide⟩⟩, ⟨0, 0, 0, true, ⟨[], by decide⟩⟩, [], [], []⟩

/-- The statement is performed, and the answer does not come. -/
def unanswered : List (Machine.Action × Bool) :=
  [.request 0, .postDatabsaseRequest 0, .dequeue 0 0, .work 0 false, .work 0 false, .dequeue 1 0, .work 1 false,
    .work 1 false].map (·, true)

/-- Two moves of a player, whose results two IO threads handle the other way round. -/
def crossed : List (Machine.Action × Bool) :=
  [.request 0, .request 0, .postDatabsaseRequest 0, .postDatabsaseRequest 1,
    .dequeue 0 0, .work 0 true, .work 0 true, .dequeue 0 0, .work 0 true, .work 0 true,
    .dequeue 1 0, .dequeue 2 0, .work 2 true, .work 1 true, .work 1 true, .work 2 true].map (·, false)

theorem run_issued : run (Machine.step .homework6 1) (Machine.start 1 2 1) [.use .issue] = some issued := rfl

theorem settled_issued : issued.Settled 0 := fun _ hm => absurd hm List.not_mem_nil

theorem agree_atOrigin : Agree atOrigin.player atOrigin.row := ⟨rfl, rfl, rfl, rfl, rfl⟩

theorem run_settled (as : List (Machine.Action × Bool)) (x y : Nat) (h : (run (step 1 0 moves) atOrigin as).map (fun w =>
    (w.machine.jobs.all (.deleted ∈ ·.history), w.player.mPosX, w.row.currentPosX)) = some (true, x, y)) :
    ∃ w, run (step 1 0 moves) atOrigin as = some w ∧ w.machine.Settled 0 ∧ w.player.mPosX = x ∧ w.row.currentPosX = y := by
  obtain ⟨w, hr, hw⟩ := Option.map_eq_some_iff.1 h
  simp only [Prod.mk.injEq] at hw
  exact ⟨w, hr, fun job hm _ => by simpa using List.all_eq_true.1 hw.1 job hm, hw.2⟩

theorem agree_iff_unanswered : ∃ w, run (step 1 0 moves) atOrigin unanswered = some w ∧ w.player.mPosX = 0 ∧
    w.row.currentPosX = 1 ∧ w.executed.Perm (w.handled ++ w.lost) ∧ (Agree w.player w.row ↔
      ∀ f, (lastWrite Update.field f (w.executed.map moves)).getD (atOrigin.player.read f) =
        (lastWrite Update.field f (w.handled.map moves)).getD (atOrigin.player.read f)) := by
  obtain ⟨w, hr, hs, hp, hrow⟩ := run_settled unanswered 0 1 (by decide +kernel)
  exact ⟨w, hr, hp, hrow, agree_iff run_issued settled_issued agree_atOrigin hr hs⟩

/-- Not even where no update is lost. -/
theorem not_agree_crossed : ¬ ∀ (d i c s : Nat) (update : Nat → Update Nat) (as₀ : List Machine.Action)
    (as : List (Machine.Action × Bool)) (m₀ : Machine) (row : Row Nat) (player : Player Nat) (w : World Nat),
    run (Machine.step .homework6 d) (Machine.start d i c) as₀ = some m₀ → m₀.Settled s → Agree player row →
      run (step d s update) ⟨m₀, row, player, [], [], []⟩ as = some w → w.machine.Settled s → (∀ a ∈ as, a.2 = false) →
        Agree w.player w.row := by
  intro hall
  obtain ⟨w, hr, hs, hp, hrow⟩ := run_settled crossed 1 2 (by decide +kernel)
  have ha := hall 1 2 1 0 moves _ crossed issued _ _ w run_issued settled_issued agree_atOrigin hr hs (by decide)
  exact absurd ha.posX (by rw [hp, hrow]; decide)

end World

end GameServer.DatabaseJobs
