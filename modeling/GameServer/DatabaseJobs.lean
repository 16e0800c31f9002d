import GameServer.Lib.Run
import Mathlib.Data.Int.Order.Basic
import Mathlib.Logic.Function.Basic
/-!
# Database jobs

The jobs of Homework6 and Homework7: `DBContext.cpp`, `DBThread.cpp`, the
database part of `DBManager.cpp`, `IocpManager.cpp` and `IOThread.cpp`, and what
`ClientSessionManager.cpp` and the reference count do to the owner. A job is
numbered by its construction. A step is one access to what threads share, so a
run is an interleaving; a post to a port succeeds, and a port may hand out its
packets in any order. Whatever else uses a session is left to the actions.
-/

namespace GameServer.DatabaseJobs

open Lib

inductive Homework where
  | homework6
  | homework7
  deriving DecidableEq

inductive ThreadType where
  | main
  | ioWorker
  | dbWorker
  deriving DecidableEq

/-- `LThreadType` and `LWorkerThreadId`. -/
structure Thread where
  type : ThreadType
  id : Nat
  deriving DecidableEq

namespace Thread

/-- What `SQLExecute` asserts. -/
def IsDb (maxDbThread : Nat) (t : Thread) : Prop := t.type = .dbWorker ∧ t.id < maxDbThread

/-- What `OnResult` asserts. -/
def IsIo (maxDbThread : Nat) (t : Thread) : Prop := t.type = .ioWorker ∧ maxDbThread ≤ t.id

instance {maxDbThread : Nat} {t : Thread} : Decidable (t.IsDb maxDbThread) := inferInstanceAs (Decidable (_ ∧ _))

instance {maxDbThread : Nat} {t : Thread} : Decidable (t.IsIo maxDbThread) := inferInstanceAs (Decidable (_ ∧ _))

end Thread

/-- `CK_DB_REQUEST`, `CK_DB_RESULT`, and the address of a session, which is
neither of them. -/
inductive CompletionKey where
  | dbRequest
  | dbResult
  | session (s : Nat)
  deriving DecidableEq

/-- What was done with a job. -/
inductive Event where
  | posted
  /-- `SQLExecute`, with the answer of `OnSQLExecute`. -/
  | executed (t : Thread) (success : Bool)
  /-- With the number of times the session was issued. -/
  | onSuccess (t : Thread) (issued : Nat)
  | onFail (t : Thread) (issued : Nat)
  /-- The thread takes it for an `OverlappedIOContext`. -/
  | misread (t : Thread)
  | deleted
  deriving DecidableEq

/-- A `DatabaseJobContext`. `issued` and `history` are ghost: how often its
session was issued when it was made, and what was done with it since. -/
structure Job where
  mSessionObject : Nat
  mSuccess : Bool
  issued : Nat
  history : List Event
  deriving DecidableEq

def Job.record (job : Job) (e : Event) : Job := { job with history := job.history ++ [e] }

/-- `others` and `issued` are ghost: the references taken by others than the
jobs, and how often the session was issued. -/
structure Session where
  mConnected : Bool
  mRefCount : Int
  others : Nat
  issued : Nat
  deriving DecidableEq

inductive Overlapped where
  | job (j : Nat)
  | ioContext
  deriving DecidableEq

structure Packet where
  completionKey : CompletionKey
  overlapped : Overlapped
  deriving DecidableEq

inductive Instr where
  | sqlExecute
  | postDatabaseResult
  /-- `PostQueuedCompletionStatus` of Homework7, with the key the job came with. -/
  | postBack
  | onResult
  | onSuccess
  | onFail
  | delete
  deriving DecidableEq

/-- What a thread is doing between two calls of `GetQueuedCompletionStatus`. -/
inductive Handler where
  | idle
  | ioContext
  | job (j : Nat) (next : Instr)
  deriving DecidableEq

def Handler.after (j : Nat) : Option Instr → Handler
  | some next => .job j next
  | none => .idle

structure Worker where
  thread : Thread
  handler : Handler
  deriving DecidableEq

/-- The client sessions and their manager. -/
structure Pool where
  session : Nat → Session
  /-- The back of the list first. -/
  mFreeSessionList : List Nat
  /-- The calls of `ReturnClientSession` that have not got mLock yet. -/
  returning : List Nat
  /-- The one that has it and passed its assertion. -/
  resetting : Option Nat

namespace Pool

def modify (p : Pool) (s : Nat) (f : Session → Session) : Pool :=
  { p with session := Function.update p.session s (f (p.session s)) }

/-- None where its assertion fails. -/
def addRef (p : Pool) (s : Nat) : Option Pool :=
  if 0 < (p.session s).mRefCount + 1 then
    some (p.modify s fun ses => { ses with mRefCount := ses.mRefCount + 1 })
  else none

/-- The last one calls `ReturnClientSession`. -/
def releaseRef (p : Pool) (s : Nat) : Option Pool :=
  let ret := (p.session s).mRefCount - 1
  if ret < 0 then none
  else
    some { p.modify s fun ses => { ses with mRefCount := ret } with
      returning := if ret = 0 then p.returning ++ [s] else p.returning }

/-- `ReturnClientSession` up to its assertion. -/
def enterReturn (p : Pool) (s : Nat) : Option Pool :=
  if s ∈ p.returning ∧ p.resetting = none ∧ (p.session s).mConnected = false ∧ (p.session s).mRefCount = 0 then
    some { p with returning := p.returning.erase s, resetting := some s }
  else none

/-- `SessionReset`, and the rest of `ReturnClientSession`. -/
def sessionReset (p : Pool) : Option Pool :=
  p.resetting.map fun s =>
    { p.modify s fun ses => { ses with mConnected := false, mRefCount := 0 } with
      mFreeSessionList := s :: p.mFreeSessionList, resetting := none }

/-- One round of `AcceptClientSessions`, up to its `AddRef`. -/
def issue (p : Pool) : Option Pool :=
  match p.resetting, p.mFreeSessionList with
  | none, s :: rest =>
    some ({ p with mFreeSessionList := rest }.modify s fun ses =>
      { ses with mRefCount := ses.mRefCount + 1, others := ses.others + 1, issued := ses.issued + 1 })
  | _, _ => none

/-- What is done with the sessions, the jobs apart. -/
inductive Use where
  /-- `AcceptClientSessions` issues a session. -/
  | issue
  | addRef (s : Nat)
  | releaseRef (s : Nat)
  | setConnected (s : Nat) (connected : Bool)
  | enterReturn (s : Nat)
  | sessionReset
  deriving DecidableEq

def use (p : Pool) : Use → Option Pool
  | .issue => p.issue
  | .addRef s => (p.addRef s).map fun p => p.modify s fun ses => { ses with others := ses.others + 1 }
  | .releaseRef s => (p.modify s fun ses => { ses with others := ses.others - 1 }).releaseRef s
  | .setConnected s connected => some (p.modify s fun ses => { ses with mConnected := connected })
  | .enterReturn s => p.enterReturn s
  | .sessionReset => p.sessionReset

end Pool

structure Machine where
  jobs : List Job
  /-- The jobs made by a `Request` that has not posted them yet. -/
  requests : List Nat
  mDbCompletionPort : List (CompletionKey × Nat)
  mCompletionPort : List Packet
  workers : List Worker
  pool : Pool

namespace Machine

def setJob (m : Machine) (j : Nat) (job : Job) : Machine := { m with jobs := m.jobs.set j job }

/-- The constructor of a `DatabaseJobContext` with that owner. -/
def construct (m : Machine) (owner : Nat) : Option Machine :=
  (m.pool.addRef owner).map fun p =>
    { m with pool := p, jobs := m.jobs ++ [⟨owner, false, (m.pool.session owner).issued, []⟩] }

/-- A `Request` of `Player.cpp`, up to its call of `PostDatabsaseRequest`. -/
def request (m : Machine) (owner : Nat) : Option Machine :=
  (m.construct owner).map fun m' => { m' with requests := m'.requests ++ [m.jobs.length] }

def postDatabsaseRequest (m : Machine) (j : Nat) : Option Machine :=
  match m.jobs[j]? with
  | some job =>
    if j ∈ m.requests then
      some { m.setJob j (job.record .posted) with
        requests := m.requests.erase j, mDbCompletionPort := m.mDbCompletionPort ++ [(.dbRequest, j)] }
    else none
  | none => none

/-- `SendFeedOnce` of Homework7, which posts to the other port. -/
def sendFeedOnce (h : Homework) (m : Machine) (owner : Nat) : Option Machine :=
  if h = .homework7 then
    (m.construct owner).map fun m' =>
      { m' with mCompletionPort := m'.mCompletionPort ++ [⟨.dbResult, .job m.jobs.length⟩] }
  else none

/-! ## The threads -/

/-- `DoDatabaseJob` once it has a packet. -/
def doDatabaseJob (m : Machine) (i : Nat) (t : Thread) (k : Nat) : Option Machine :=
  match m.mDbCompletionPort[k]? with
  | some (.dbRequest, j) =>
    some { m with
      mDbCompletionPort := m.mDbCompletionPort.eraseIdx k
      workers := m.workers.set i ⟨t, .job j .sqlExecute⟩ }
  | _ => none

/-- `DoIocpJob` once it has a packet. With any other key than `CK_DB_RESULT` it
takes the packet for a context of the sockets; what it does to a job then is
undefined, here it goes on. -/
def doIocpJob (h : Homework) (m : Machine) (i : Nat) (t : Thread) (k : Nat) : Option Machine :=
  let m' := { m with mCompletionPort := m.mCompletionPort.eraseIdx k }
  match m.mCompletionPort[k]? with
  | some ⟨.dbResult, .job j⟩ =>
    some { m' with
      workers := m.workers.set i ⟨t, .job j (if h = .homework6 then .onResult else .onSuccess)⟩ }
  | some ⟨.dbResult, .ioContext⟩ => none
  | some ⟨_, .job j⟩ =>
    m.jobs[j]?.map fun job =>
      { m'.setJob j (job.record (.misread t)) with workers := m.workers.set i ⟨t, .ioContext⟩ }
  | some ⟨_, .ioContext⟩ => some { m' with workers := m.workers.set i ⟨t, .ioContext⟩ }
  | none => none

/-- `OnSuccess` or `OnFail`. -/
def result (m : Machine) (t : Thread) (j : Nat) (job : Job) (success : Bool) : Machine :=
  let issued := (m.pool.session job.mSessionObject).issued
  m.setJob j (job.record (if success then .onSuccess t issued else .onFail t issued))

/-- One statement of the handling of job `j`, and what comes next; `answer` is that
of `OnSQLExecute`. None where an assertion fails. -/
def exec (h : Homework) (maxDbThread : Nat) (m : Machine) (t : Thread) (j : Nat) (job : Job) (answer : Bool) :
    Instr → Option (Machine × Option Instr)
  | .sqlExecute =>
    if t.IsDb maxDbThread then
      let job := job.record (.executed t answer)
      match h with
      | .homework6 => some (m.setJob j { job with mSuccess := answer }, some .postDatabaseResult)
      | .homework7 => some (m.setJob j job, some (if answer then .postBack else .onFail))
    else none
  | .postDatabaseResult => some ({ m with mCompletionPort := m.mCompletionPort ++ [⟨.dbResult, .job j⟩] }, none)
  | .postBack => some ({ m with mCompletionPort := m.mCompletionPort ++ [⟨.dbRequest, .job j⟩] }, none)
  | .onResult => if t.IsIo maxDbThread then some (m.result t j job job.mSuccess, some .delete) else none
  | .onSuccess => some (m.result t j job true, some .delete)
  -- returns with the job still there
  | .onFail => some (m.result t j job false, none)
  | .delete =>
    (m.pool.releaseRef job.mSessionObject).map fun p =>
      ({ m.setJob j (job.record .deleted) with pool := p }, none)

inductive Action where
  | use (u : Pool.Use)
  | request (owner : Nat)
  | postDatabsaseRequest (j : Nat)
  | sendFeedOnce (owner : Nat)
  /-- An operation on the socket of the session completes. -/
  | ioCompletion (s : Nat)
  /-- Worker `i` takes packet `k` of its port. -/
  | dequeue (i k : Nat)
  /-- Worker `i` goes on. -/
  | work (i : Nat) (answer : Bool)
  deriving DecidableEq

def step (h : Homework) (maxDbThread : Nat) (m : Machine) : Action → Option Machine
  | .use u => (m.pool.use u).map ({ m with pool := · })
  | .request owner => m.request owner
  | .postDatabsaseRequest j => m.postDatabsaseRequest j
  | .sendFeedOnce owner => sendFeedOnce h m owner
  | .ioCompletion s => some { m with mCompletionPort := m.mCompletionPort ++ [⟨.session s, .ioContext⟩] }
  | .dequeue i k =>
    match m.workers[i]? with
    | some ⟨t, .idle⟩ => if t.type = .dbWorker then m.doDatabaseJob i t k else doIocpJob h m i t k
    | _ => none
  | .work i answer =>
    match m.workers[i]? with
    | some ⟨t, .ioContext⟩ => some { m with workers := m.workers.set i ⟨t, .idle⟩ }
    | some ⟨t, .job j instr⟩ =>
      m.jobs[j]?.bind fun job => (exec h maxDbThread m t j job answer instr).map fun r =>
        { r.1 with workers := m.workers.set i ⟨t, .after j r.2⟩ }
    | _ => none

/-- `PrepareClientSessions`, `StartDatabaseThreads` and `StartIoThreads`. -/
def start (maxDbThread maxIoThread maxConnection : Nat) : Machine where
  jobs := []
  requests := []
  mDbCompletionPort := []
  mCompletionPort := []
  workers := (List.range maxDbThread).map (fun i => ⟨⟨.dbWorker, i⟩, .idle⟩) ++
    (List.range maxIoThread).map fun i => ⟨⟨.ioWorker, i + maxDbThread⟩, .idle⟩
  pool := ⟨fun _ => ⟨false, 0, 0, 0⟩, (List.range maxConnection).reverse, [], none⟩

/-- Both ports are empty and no thread handles anything. -/
def AtRest (m : Machine) : Prop :=
  m.mDbCompletionPort = [] ∧ m.mCompletionPort = [] ∧ ∀ w ∈ m.workers, w.handler = .idle

/-- The session that others release a reference of. -/
def Action.releases : Action → Option Nat
  | .use (.releaseRef s) => some s
  | _ => none

/-- The session that a reference is taken of, but for issuing it. -/
def Action.takes : Action → Option Nat
  | .use (.addRef s) | .request s => some s
  | _ => none

/-- Others release only references they took. -/
def Releases (m : Machine) (a : Action) : Prop := ∀ s ∈ a.releases, 0 < (m.pool.session s).others

/-- A reference is taken only of a session that has one. -/
def Takes (m : Machine) (a : Action) : Prop := ∀ s ∈ a.takes, 0 < (m.pool.session s).mRefCount

instance {m : Machine} {a : Action} : Decidable (m.Releases a) := inferInstanceAs (Decidable (∀ s ∈ a.releases, _))

instance {m : Machine} {a : Action} : Decidable (m.Takes a) := inferInstanceAs (Decidable (∀ s ∈ a.takes, _))

end Machine

end GameServer.DatabaseJobs
