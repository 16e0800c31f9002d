import GameServer.Lib.Run
import GameServer.Lib.Tally
/-!
# The life cycle of a session

The client sessions of Homework4, Homework6 and Homework7: the pool they are
issued from, their reference counts, the contexts in flight and the threads.
A handler is the list of steps it has left, `Instr`; a step is one access to
what threads share, so a run, a list of `Action`s, is an interleaving. What a
socket call or a socket option returns, and what a query of a session's
buffers answers, is left to the action. mRefCount is an `Int`: a `long` only
wraps after 2^31 live contexts of one session.
-/

namespace GameServer.Lifecycle

open Lib

inductive Homework where
  | homework4
  | homework6
  | homework7
  deriving DecidableEq

def MAX_CONNECTION : Nat := 10000

abbrev SessionId := Fin MAX_CONNECTION

inductive ThreadType where
  | main
  | ioWorker
  | feed
  deriving DecidableEq

inductive IoType where
  | send
  | recv
  | recvZero
  | accept
  | disconnect
  deriving DecidableEq

/-- A context outside the handlers: an `OverlappedIOContext` of a started call,
a `DatabaseJobContext` on its way to an IO thread or to a database thread. -/
inductive Job where
  | io (ioType : IoType) (s : SessionId)
  | db (s : SessionId)
  | dbRequest (s : SessionId)
  deriving DecidableEq

/-- The places that create a context. `PreRecv` is called by `AcceptCompletion`
too, which only prints when it fails. -/
inductive Call where
  | postAccept
  | acceptPreRecv
  | preRecv
  | postRecv
  | postSend
  | sendRequest
  | flushSend
  | disconnectRequest
  | sendFeedOnce
  | requestLoad
  deriving DecidableEq

/-- Where a thread is in `ReturnClientSession` and the `SessionReset` it calls. -/
inductive ReturnStep where
  | enter
  | assertConnected
  | assertRefCount
  | resetConnected
  | resetRefCount
  | enterSendLock
  | leaveSendLock
  | push
  deriving DecidableEq

inductive Instr where
  /-- `InterlockedExchange(&mConnected, 0)` of `DisconnectRequest`. -/
  | disconnectRequest (s : SessionId)
  /-- The `IsConnected` test at the head of the call. -/
  | isConnected (c : Call) (s : SessionId)
  | enterLock (s : SessionId)
  | leaveLock (s : SessionId)
  /-- The buffer queries of the call, and mSendPendingCount in `FlushSend`. -/
  | bufferTest (c : Call) (s : SessionId)
  /-- The constructor of the context, which calls `AddRef`. -/
  | newContext (c : Call) (s : SessionId)
  /-- The socket call, or `PostQueuedCompletionStatus`, on the new context. -/
  | startIo (c : Call) (s : SessionId)
  | sendStarted (s : SessionId)
  | sendCompletion (s : SessionId)
  | pushSendRequest (s : SessionId)
  | popSendRequest
  | echoBack (s : SessionId)
  /-- `InterlockedExchange(&mConnected, 1)` of `AcceptCompletion`. -/
  | acceptCompletion (s : SessionId)
  | socketSetup (s : SessionId)
  | subscribeFeed (s : SessionId)
  /-- `ReleaseRef` of `DisconnectCompletion`. -/
  | disconnectCompletion (s : SessionId)
  /-- `ReleaseRef` of `DeleteIoContext` or of `~DatabaseJobContext`. -/
  | deleteContext (s : SessionId)
  | returning (p : ReturnStep) (s : SessionId)
  | leaveManagerLock
  /-- The loop of `StartAccept`, up to the lock of the next `AcceptSessions`. -/
  | startAccept
  /-- One round of the loop of `AcceptSessions`, up to the `pop_back`. -/
  | acceptSession
  | issueAddRef (s : SessionId)
  /-- The loop of `FeedGenerationThread`. -/
  | feedGeneration
  /-- Its loop over the first `n` sessions of mSessionVector, from the last. -/
  | feedLoop (n : Nat)
  /-- Its `IsConnected` test of the session at `i`. -/
  | feedTest (i : Nat) (s : SessionId)
  deriving DecidableEq

structure ClientSession where
  mRefCount : Int
  mConnected : Bool
  /-- mBufferLock in Homework4. -/
  mSendBufferLock : Bool
  mSendPendingCount : Int
  /-- The references taken by issuing the session and not released yet. -/
  issueRef : Nat
  /-- How often it was issued. -/
  issued : Nat
  /-- How often `ReturnClientSession` was called on it. -/
  returned : Nat

/-- `LSendRequestSessionList` is the thread's own, front first. -/
structure Thread where
  type : ThreadType
  todo : List Instr
  LSendRequestSessionList : List SessionId

/-- Why the process aborted: the `CRASH_ASSERT` that failed, or a `back` of the
empty list. -/
inductive Crash where
  | addRef
  | releaseRef
  | returnClientSession
  | acceptCompletion
  | emptyFreeSessionList
  | postDatabaseResult
  deriving DecidableEq

structure Server where
  session : SessionId → ClientSession
  /-- The back of the list first. -/
  mFreeSessionList : List SessionId
  mCurrentIssueCount : UInt64
  mCurrentReturnCount : UInt64
  mLock : Bool
  /-- The contexts that will come back as completions. -/
  posted : List Job
  /-- The contexts that are neither deleted nor posted any more. -/
  stranded : List Job
  mSessionVector : List SessionId
  threads : List Thread
  crashed : Option Crash

/-! ## The calls -/

def Call.job (s : SessionId) : Call → Job
  | .postAccept => .io .accept s
  | .acceptPreRecv | .preRecv => .io .recvZero s
  | .postRecv => .io .recv s
  | .postSend | .sendRequest | .flushSend => .io .send s
  | .disconnectRequest => .io .disconnect s
  | .sendFeedOnce => .db s
  | .requestLoad => .dbRequest s

/-- The calls that hold the buffer lock of the session to their end. -/
def Call.locks (h : Homework) : Call → Bool
  | .postRecv => h = .homework4
  | .postSend | .sendRequest | .flushSend => true
  | _ => false

def Call.enter (h : Homework) (c : Call) (s : SessionId) : List Instr :=
  if c.locks h then [.enterLock s] else []

def Call.leave (h : Homework) (c : Call) (s : SessionId) : List Instr :=
  if c.locks h then [.leaveLock s] else []

/-- What the caller does when the call returns false. -/
def Call.onFalse (h : Homework) (s : SessionId) : Call → List Instr
  | .preRecv | .postRecv => [.disconnectRequest s]
  | .postSend => if h = .homework4 then [.disconnectRequest s] else []
  | _ => []

/-- After the `IsConnected` test, for the calls that start with one. -/
def Call.body (h : Homework) (s : SessionId) : Call → List Instr
  | .acceptPreRecv => [.newContext .acceptPreRecv s]
  | .preRecv => [.newContext .preRecv s]
  | .postRecv => Call.enter h .postRecv s ++ [.bufferTest .postRecv s]
  | .postSend => [.enterLock s, .bufferTest .postSend s]
  | .sendRequest => [.enterLock s, .bufferTest .sendRequest s]
  | .flushSend => [.enterLock s, .bufferTest .flushSend s]
  | .postAccept | .disconnectRequest | .sendFeedOnce | .requestLoad => []

def Call.notConnected (h : Homework) (s : SessionId) : Call → List Instr
  | .flushSend => [.disconnectRequest s, .popSendRequest]
  | c => c.onFalse h s

/-- No free space, or in Homework4's `PostSend` nothing to send. -/
def Call.refused (h : Homework) (s : SessionId) : Call → List Instr
  | .postRecv => Call.leave h .postRecv s ++ [.disconnectRequest s]
  | c => c.leave h s

def Call.granted (h : Homework) (s : SessionId) : Call → List Instr
  -- Homework6 only queues the session, for `DoSendJob`
  | .postSend => if h = .homework6 then [.pushSendRequest s, .leaveLock s] else [.newContext .postSend s]
  | .postRecv => [.newContext .postRecv s]
  | .sendRequest => [.newContext .sendRequest s]
  | _ => []

/-- `FlushSend` between its two looks at the send buffer: `data` if there are
contiguous bytes. -/
def flushTest (data : Bool) (ses : ClientSession) (s : SessionId) : List Instr :=
  if data then
    if 0 < ses.mSendPendingCount then [.leaveLock s] else [.newContext .flushSend s]
  else if ses.mSendPendingCount = 0 then [.leaveLock s, .popSendRequest]
  else [.leaveLock s]

/-- The socket call took the context. -/
def Call.started (h : Homework) (s : SessionId) : Call → List Instr
  | .postAccept => [.acceptSession]
  | .flushSend => [.sendStarted s]
  | c => c.leave h s

/-- The socket call failed at once, and its context is deleted. -/
def Call.afterFailure (h : Homework) (s : SessionId) : Call → List Instr
  | .postAccept => [.leaveManagerLock]
  | .flushSend => [.disconnectRequest s, .leaveLock s, .popSendRequest]
  | .sendRequest => [.disconnectRequest s, .leaveLock s]
  | .postSend =>
    if h = .homework4 then [.leaveLock s, .disconnectRequest s] else [.disconnectRequest s, .leaveLock s]
  | c => c.leave h s ++ c.onFalse h s

/-- A failed `PostQueuedCompletionStatus` is only printed, and its context stays. -/
def Call.strands : Call → Bool
  | .sendFeedOnce | .requestLoad => true
  | _ => false

/-- The end of `AcceptCompletion`, once the socket is set up. -/
def connectedClient (s : SessionId) : Homework → List Instr
  | .homework4 => [.isConnected .acceptPreRecv s]
  | .homework6 => [.isConnected .acceptPreRecv s, .newContext .requestLoad s]
  | .homework7 => [.isConnected .acceptPreRecv s, .subscribeFeed s]

/-! ## One step of a thread -/

namespace Server

def modify (v : Server) (s : SessionId) (f : ClientSession → ClientSession) : Server :=
  { v with session := Function.update v.session s (f (v.session s)) }

def crash (v : Server) (c : Crash) (i : Instr) : Option (Server × List Instr) :=
  some ({ v with crashed := some c }, [i])

/-- `AddRef`, with what follows if its assertion holds. `note` is ghost. -/
def addRef (v : Server) (s : SessionId) (note : ClientSession → ClientSession) (i : Instr)
    (next : List Instr) : Option (Server × List Instr) :=
  if 0 < (v.session s).mRefCount + 1 then
    some (v.modify s fun ses => note { ses with mRefCount := ses.mRefCount + 1 }, next)
  else v.crash .addRef i

/-- `ReleaseRef`: whoever brings the count to 0 calls `ReturnClientSession`. -/
def releaseRef (v : Server) (s : SessionId) (note : ClientSession → ClientSession) (i : Instr) :
    Option (Server × List Instr) :=
  let ret := (v.session s).mRefCount - 1
  if ret < 0 then v.crash .releaseRef i
  else if ret = 0 then
    some (v.modify s fun ses => note { ses with mRefCount := ret, returned := ses.returned + 1 },
      [.returning .enter s])
  else some (v.modify s fun ses => note { ses with mRefCount := ret }, [])

def returnClientSession (h : Homework) (v : Server) (s : SessionId) :
    ReturnStep → Option (Server × List Instr)
  | .enter => if v.mLock then none else some ({ v with mLock := true }, [.returning .assertConnected s])
  | .assertConnected =>
    if (v.session s).mConnected then v.crash .returnClientSession (.returning .assertConnected s)
    else some (v, [.returning .assertRefCount s])
  | .assertRefCount =>
    if (v.session s).mRefCount ≠ 0 then v.crash .returnClientSession (.returning .assertRefCount s)
    else some (v, [.returning .resetConnected s])
  -- from here to the push it is `SessionReset`
  | .resetConnected =>
    some (v.modify s fun ses => { ses with mConnected := false }, [.returning .resetRefCount s])
  | .resetRefCount =>
    some (v.modify s fun ses => { ses with mRefCount := 0 },
      [.returning (if h = .homework4 then .push else .enterSendLock) s])
  | .enterSendLock =>
    if (v.session s).mSendBufferLock then none
    else some (v.modify s fun ses => { ses with mSendBufferLock := true }, [.returning .leaveSendLock s])
  | .leaveSendLock =>
    some (v.modify s fun ses => { ses with mSendBufferLock := false }, [.returning .push s])
  | .push =>
    some ({ v with mFreeSessionList := s :: v.mFreeSessionList
                   mCurrentReturnCount := v.mCurrentReturnCount + 1 }, [.leaveManagerLock])

/-- The condition of the loop of `AcceptSessions`. -/
def canIssue (v : Server) : Bool := v.mCurrentIssueCount - v.mCurrentReturnCount < UInt64.ofNat MAX_CONNECTION

/-- The condition and the `pop_back` of that loop. -/
def acceptSession (v : Server) : Option (Server × List Instr) :=
  if v.canIssue then
    match v.mFreeSessionList with
    | [] => v.crash .emptyFreeSessionList .acceptSession
    | newClient :: rest =>
      some ({ v with mFreeSessionList := rest
                     mCurrentIssueCount := v.mCurrentIssueCount + 1 }.modify newClient
              fun ses => { ses with issued := ses.issued + 1 }, [.issueAddRef newClient])
  -- the guard ends with `AcceptSessions`, and `StartAccept` calls it again
  else some (v, [.leaveManagerLock, .startAccept])

/-- A step that does not touch `LSendRequestSessionList`: the new state and
what the thread does next. `none` while a lock is taken. -/
def exec (h : Homework) (v : Server) (answer : Bool) : Instr → Option (Server × List Instr)
  | .disconnectRequest s =>
    if (v.session s).mConnected then
      some (v.modify s fun ses => { ses with mConnected := false }, [.newContext .disconnectRequest s])
    else some (v, [])
  | .isConnected c s => some (v, if (v.session s).mConnected then c.body h s else c.notConnected h s)
  | .enterLock s =>
    if (v.session s).mSendBufferLock then none
    else some (v.modify s fun ses => { ses with mSendBufferLock := true }, [])
  | .leaveLock s => some (v.modify s fun ses => { ses with mSendBufferLock := false }, [])
  | .bufferTest c s =>
    some (v, if c = .flushSend then flushTest answer (v.session s) s
             else if answer then c.granted h s else c.refused h s)
  | .newContext c s => v.addRef s id (.newContext c s) [.startIo c s]
  | .startIo c s =>
    if answer then some ({ v with posted := v.posted ++ [c.job s] }, c.started h s)
    else if c.strands then some ({ v with stranded := v.stranded ++ [c.job s] }, [])
    -- `DeleteIoContext` comes before anything else the caller does
    else some (v, .deleteContext s :: c.afterFailure h s)
  -- only the first of the pending sends lets `DoSendJob` drop the session
  | .sendStarted s =>
    let count := (v.session s).mSendPendingCount + 1
    some (v.modify s fun ses => { ses with mSendPendingCount := count },
      if count = 1 then [.leaveLock s, .popSendRequest] else [.leaveLock s])
  | .sendCompletion s =>
    some (v.modify s fun ses => { ses with mSendPendingCount := ses.mSendPendingCount - 1 }, [])
  | .pushSendRequest _ | .popSendRequest => some (v, [])
  | .echoBack s => some (v, if answer then [.isConnected .postSend s] else [])
  | .acceptCompletion s =>
    if (v.session s).mConnected then v.crash .acceptCompletion (.acceptCompletion s)
    else some (v.modify s fun ses => { ses with mConnected := true }, [.socketSetup s])
  | .socketSetup s => some (v, if answer then connectedClient s h else [.disconnectRequest s])
  | .subscribeFeed s => some ({ v with mSessionVector := v.mSessionVector ++ [s] }, [])
  | .disconnectCompletion s =>
    v.releaseRef s (fun ses => { ses with issueRef := ses.issueRef - 1 }) (.disconnectCompletion s)
  | .deleteContext s => v.releaseRef s id (.deleteContext s)
  | .returning p s => returnClientSession h v s p
  | .leaveManagerLock => some ({ v with mLock := false }, [])
  | .startAccept => if v.mLock then none else some ({ v with mLock := true }, [.acceptSession])
  | .acceptSession => v.acceptSession
  | .issueAddRef s =>
    v.addRef s (fun ses => { ses with issueRef := ses.issueRef + 1 }) (.issueAddRef s)
      [.newContext .postAccept s]
  | .feedGeneration => some (v, [.feedLoop v.mSessionVector.length, .feedGeneration])
  | .feedLoop 0 => some (v, [])
  | .feedLoop (n + 1) =>
    some (v, match v.mSessionVector[n]? with
      | some s => [.feedTest n s, .feedLoop n]
      | none => [])
  | .feedTest i s =>
    if (v.session s).mConnected then some (v, [.newContext .sendFeedOnce s])
    else some ({ v with mSessionVector := v.mSessionVector.eraseIdx i }, [])

end Server

/-! ## Completions -/

/-- What a packet handler of Homework7 does to the session it serves. -/
inductive HandlerCall where
  | sendRequest
  | disconnectRequest

def HandlerCall.instr (s : SessionId) : HandlerCall → Instr
  | .sendRequest => .isConnected .sendRequest s
  | .disconnectRequest => .disconnectRequest s

/-- What `GetQueuedCompletionStatus` reports: an error or no bytes, with
`GetLastError()` left at `WAIT_TIMEOUT` or not, or bytes, for a send all that
were asked for or not. `calls` are those made for the packets of a receive. -/
inductive Completion where
  | timedOut
  | failed
  | done (all : Bool) (calls : List HandlerCall)

/-- Homework4 takes the error of an earlier wait for a timeout and drops the context. -/
def Completion.lost (h : Homework) : Completion → Bool
  | .timedOut => h = .homework4
  | _ => false

def sendCompletion (h : Homework) (s : SessionId) : List Instr :=
  if h = .homework4 then [.enterLock s, .leaveLock s] else [.enterLock s, .sendCompletion s, .leaveLock s]

def recvCompletion (h : Homework) (s : SessionId) (calls : List HandlerCall) : List Instr :=
  match h with
  | .homework4 => [.enterLock s, .leaveLock s]
  | .homework6 => []
  | .homework7 => calls.map (·.instr s)

/-- What a completion is handled with before its context is deleted:
`IoWorkerThread` of Homework4, `DoIocpJob` of Homework6 and Homework7. -/
def ioCompletion (h : Homework) (s : SessionId) : IoType → Completion → List Instr
  | .disconnect, _ => [.disconnectCompletion s]
  | .accept, _ => [.acceptCompletion s]
  | .recvZero, _ => [.isConnected .postRecv s]
  | .send, .done true _ =>
    sendCompletion h s ++ if h = .homework4 then [.isConnected .preRecv s] else []
  | .send, .done false _ => sendCompletion h s ++ [.disconnectRequest s]
  | .recv, .done _ calls =>
    recvCompletion h s calls ++
      if h = .homework4 then [.isConnected .postSend s] else [.echoBack s, .isConnected .preRecv s]
  | _, _ => [.disconnectRequest s]

/-- `OnResult` in Homework6, `OnSuccess` of a `SendFeedDataContext` in Homework7. -/
def dbCompletion (h : Homework) (s : SessionId) : List Instr :=
  if h = .homework7 then [.isConnected .sendRequest s] else []

/-- The whole handler of a completion. -/
def handler (h : Homework) (c : Completion) : Job → List Instr
  | .io ty s => ioCompletion h s ty c ++ [.deleteContext s]
  | .db s | .dbRequest s => dbCompletion h s ++ [.deleteContext s]

/-! ## The machine -/

inductive Action where
  /-- Thread `t` takes its next step. -/
  | run (t : Nat) (answer : Bool)
  /-- Thread `t` dequeues the completion of the context `i` of `posted`. -/
  | dequeue (t i : Nat) (c : Completion)
  /-- Thread `t` flushes the front of its `LSendRequestSessionList`. -/
  | doSendJob (t : Nat)
  /-- A database thread executes the request `i` of `posted`, and posts the result if `ok`. -/
  | doDatabaseJob (i : Nat) (ok : Bool)
  /-- Thread `t` calls `DisconnectRequest` outside a handler. -/
  | disconnectRequest (t : Nat) (s : SessionId)

/-- What a step does to `LSendRequestSessionList`. -/
def Instr.sendRequests (list : List SessionId) : Instr → List SessionId
  | .pushSendRequest s => list ++ [s]
  | .popSendRequest => list.tail
  | _ => list

def Thread.idle (th : Thread) : Bool := th.type = .ioWorker ∧ th.todo = []

namespace Server

def setThread (v : Server) (t : Nat) (th : Thread) : Server := { v with threads := v.threads.set t th }

/-- Idle thread `t` starts on `todo`. -/
def assign (v : Server) (t : Nat) (th : Thread) (todo : List Instr) : Server :=
  v.setThread t { th with todo := todo }

def runThread (h : Homework) (v : Server) (t : Nat) (th : Thread) (answer : Bool) : Option Server :=
  match th.todo with
  | [] => none
  | i :: rest => (v.exec h answer i).map fun r =>
      r.1.setThread t { th with todo := r.2 ++ rest
                                LSendRequestSessionList := i.sendRequests th.LSendRequestSessionList }

def dequeue (h : Homework) (v : Server) (t : Nat) (th : Thread) (i : Nat) (c : Completion) : Option Server :=
  -- `DoSendJob` does not return before the list is empty
  if th.idle ∧ th.LSendRequestSessionList = [] then
    match v.posted[i]? with
    | none | some (.dbRequest _) => none
    | some job =>
      let rest := { v with posted := v.posted.eraseIdx i }
      if c.lost h then some { rest with stranded := v.stranded ++ [job] }
      else some (rest.assign t th (handler h c job))
  else none

def doSendJob (v : Server) (t : Nat) (th : Thread) : Option Server :=
  match th.LSendRequestSessionList with
  | s :: _ => if th.idle then some (v.assign t th [.isConnected .flushSend s]) else none
  | [] => none

def doDatabaseJob (v : Server) (i : Nat) (ok : Bool) : Option Server :=
  match v.posted[i]? with
  | some (.dbRequest s) =>
    if ok then some { v with posted := v.posted.set i (.db s) }
    else some { v with crashed := some .postDatabaseResult }
  | _ => none

def step (h : Homework) (v : Server) (a : Action) : Option Server :=
  if v.crashed.isSome then none
  else match a with
    | .run t answer => v.threads[t]?.bind fun th => v.runThread h t th answer
    | .dequeue t i c => v.threads[t]?.bind fun th => v.dequeue h t th i c
    | .doSendJob t => v.threads[t]?.bind fun th => v.doSendJob t th
    | .doDatabaseJob i ok => v.doDatabaseJob i ok
    | .disconnectRequest t s =>
      v.threads[t]?.bind fun th => if th.idle then some (v.assign t th [.disconnectRequest s]) else none

end Server

/-! ## What a state holds of a session -/

/-- The instruction holds a context of the session: one just constructed, or one
that is to be deleted. -/
def Instr.owns (s : SessionId) : Instr → Bool
  | .startIo _ x | .deleteContext x => x = s
  | _ => false

/-- The thread is in `ReturnClientSession`. -/
def Instr.returns (s : SessionId) : Instr → Bool
  | .returning _ x => x = s
  | _ => false

def Job.owner : Job → SessionId
  | .io _ s | .db s | .dbRequest s => s

namespace Server

def todos (v : Server) : List (List Instr) := v.threads.map (·.todo)

/-- The contexts of the session that were constructed and not deleted: in a
handler, posted, or left behind. -/
def liveContexts (v : Server) (s : SessionId) : Nat :=
  tally (Instr.owns s) v.todos + v.posted.countP (·.owner = s) + v.stranded.countP (·.owner = s)

/-- The calls of `ReturnClientSession` on the session that have not ended. -/
def returning (v : Server) (s : SessionId) : Nat := tally (Instr.returns s) v.todos

end Server

/-- `PrepareSessions`: the first `n` sessions, the last one first. -/
def prepareSessions : (n : Nat) → n ≤ MAX_CONNECTION → List SessionId
  | 0, _ => []
  | n + 1, h => ⟨n, h⟩ :: prepareSessions n (Nat.le_of_succ_le h)

def ClientSession.new : ClientSession where
  mRefCount := 0
  mConnected := false
  mSendBufferLock := false
  mSendPendingCount := 0
  issueRef := 0
  issued := 0
  returned := 0

def Server.start (h : Homework) (ioThreads : Nat) : Server where
  session := fun _ => .new
  mFreeSessionList := prepareSessions MAX_CONNECTION (Nat.le_refl _)
  mCurrentIssueCount := 0
  mCurrentReturnCount := 0
  mLock := false
  posted := []
  stranded := []
  mSessionVector := []
  threads := ⟨.main, [.startAccept], []⟩ ::
    ((if h = .homework7 then [⟨.feed, [.feedGeneration], []⟩] else []) ++
      List.replicate ioThreads ⟨.ioWorker, [], []⟩)
  crashed := none

/-! ## Some runs -/

/-- `n` steps of thread `t` with every answer yes. -/
def steps (t n : Nat) : List Action := List.replicate n (.run t true)

/-- The session that is issued first. -/
def firstClient : SessionId := ⟨9999, by decide⟩

/-- `AcceptEx` of the first session is pending, and that of the second fails. -/
def acceptOne : List Action := steps 0 8 ++ [.run 0 false] ++ steps 0 2

end GameServer.Lifecycle
