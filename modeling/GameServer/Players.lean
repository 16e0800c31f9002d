import GameServer.GrandCentralExecuter
import GameServer.Lifecycle
import GameServer.LockOrderChecker
/-!
# The players of Homework4

The whole of Homework4 around the sessions of `GameServer.Lifecycle`: the player
of each session, the player manager, the timer of each IO thread with its
delayed calls, the executer they dispatch to, and the order check of the locks.
A thread has `Step`s left: instructions of `Lifecycle` in the middle of what that
machine leaves out. `steps` puts the calls of the checker around the locks, the
reset of the player in front of the push of its session, and the delayed
`Player::Start` behind `PreRecv` of an accepted client.

The fields of a player are read and written under its mLock, so an assignment
between two calls is one step. The buffs a player has are left out: nothing
here reads them.
-/

namespace GameServer.Players

open Lib Lifecycle LockOrderChecker

inductive Lock where
  /-- mLock of the session manager. -/
  | sessionManager
  /-- mLock of the `SyncExecutable` that the player of the session is. -/
  | player (s : SessionId)
  /-- mLock of the player manager. -/
  | playerManager
  /-- mBufferLock of the session. -/
  | buffer (s : SessionId)
  deriving DecidableEq

/-- From `LO_FIRST_CLASS` to `LO_LUGGAGE_CLASS`. -/
def Lock.mLockOrder : Lock → Int
  | .sessionManager => 1
  | .player _ => 2
  | .playerManager => 3
  | .buffer _ => 4

/-- The player of a session. -/
structure Player where
  mPlayerId : Int32
  mHeartBeat : Int
  mIsAlive : Bool
  mLock : Bool

/-- mLock is taken by one writer or by `readers` readers. -/
structure PlayerManager where
  writer : Bool
  readers : Nat
  mCurrentIssueId : Int32
  mPlayerMap : Int32 → Option SessionId

/-- The calls that are delayed. -/
inductive TimerTask where
  | start (heartbeat : Int)
  | onTick
  deriving DecidableEq

structure TimerJobElement where
  mOwner : SessionId
  mTask : TimerTask
  mExecutionTick : Nat
  deriving DecidableEq

inductive Step where
  | server (i : Instr)
  /-- `LLockOrderChecker->Push` -/
  | push (k : Lock)
  /-- `LLockOrderChecker->Pop` -/
  | pop (k : Lock)
  | enterLock (s : SessionId)
  | leaveLock (s : SessionId)
  | enterManager (exclusive : Bool)
  | leaveManager (exclusive : Bool)
  | doSyncAfter (after : Nat) (s : SessionId) (task : TimerTask)
  | doTimerJob
  /-- The loop of `DoTimerJob`. -/
  | timerTop
  /-- `Player::Start` up to the call of `RegisterPlayer`. -/
  | start (s : SessionId) (heartbeat : Int)
  /-- `++mCurrentIssueId` and the entry. -/
  | registerPlayer (s : SessionId)
  | setPlayerId (s : SessionId) (id : Int32)
  | onTick (s : SessionId)
  /-- The end of `OnTick`. -/
  | rearm (s : SessionId)
  /-- `PlayerReset` up to the call of `UnregisterPlayer`. -/
  | unregisterPlayer (s : SessionId)
  /-- `mPlayerMap.erase`, for the `PlayerReset` of `s`. -/
  | erase (s : SessionId) (id : Int32)
  /-- `PlayerReset` after that call. -/
  | playerReset (s : SessionId)
  /-- A call of `GCEDispatch`. -/
  | dispatch
  | gce (frame : GrandCentralExecuter.Frame)
  deriving DecidableEq

/-! ## What a step stands for -/

/-- `DoSync` of the player. -/
@[simp] def doSync (s : SessionId) (body : List Step) : List Step :=
  [.push (.player s), .enterLock s] ++ body ++ [.leaveLock s, .pop (.player s)]

/-- The guard of the player manager's methods, at its beginning and its end. -/
@[simp] def enterGuard (exclusive : Bool) : List Step := [.push .playerManager, .enterManager exclusive]

@[simp] def leaveGuard (exclusive : Bool) : List Step := [.leaveManager exclusive, .pop .playerManager]

@[simp] def steps (i : Instr) : List Step :=
  match i with
  | .enterLock s => [.push (.buffer s), .server i]
  | .leaveLock s => [.server i, .pop (.buffer s)]
  | .startAccept => [.push .sessionManager, .server i]
  | .leaveManagerLock => [.server i, .pop .sessionManager]
  | .returning .enter _ => [.push .sessionManager, .server i]
  -- `SessionReset` ends with the player's
  | .returning .push s => doSync s [.unregisterPlayer s] ++ [.server i]
  -- whether `PreRecv` succeeds or not
  | .isConnected .acceptPreRecv s => [.server i, .doSyncAfter 10 s (.start 1000)]
  | .disconnectRequest _ | .isConnected _ _ | .bufferTest _ _ | .newContext _ _ | .startIo _ _ | .sendStarted _
  | .sendCompletion _ | .pushSendRequest _ | .popSendRequest | .echoBack _ | .acceptCompletion _ | .socketSetup _
  | .subscribeFeed _ | .disconnectCompletion _ | .deleteContext _ | .returning _ _ | .acceptSession
  | .issueAddRef _ | .feedGeneration | .feedLoop _ | .feedTest _ _ => [.server i]

/-- A frame of `DoDispatch`. Both tasks begin with `GetCurrentPlayers`, a reader
of the player manager, and go on with the buffs of the players it returns. -/
@[simp] def frameSteps : GrandCentralExecuter.Frame → List Step
  | .running task => enterGuard false ++ leaveGuard false ++ [.gce (.running task)]
  | frame => [.gce frame]

def TimerTask.step (s : SessionId) : TimerTask → Step
  | .start heartbeat => .start s heartbeat
  | .onTick => .onTick s

/-! ## The machine -/

/-- mTimerJobQueue holds the elements in no order, without the one whose task
runs: that one is the top until it is popped, as no task pushes what is due
before it. `calls` are those of `DoDispatch` so far. -/
structure Thread where
  type : ThreadType
  todo : List Step
  mLockStack : List Lock
  LTickCount : Nat
  mTimerJobQueue : List TimerJobElement
  calls : Nat

/-- `server` is kept without threads. -/
structure Process where
  server : Server
  player : SessionId → Player
  playerManager : PlayerManager
  gce : GrandCentralExecuter
  /-- What `GetTickCount64` returns. -/
  tickCount : Nat
  threads : List Thread
  /-- A `CRASH_ASSERT` of the order check failed. -/
  tripped : Bool

inductive Action where
  /-- Thread `t` takes its next step. `top` is the top of its timer queue. -/
  | run (t : Nat) (answer : Bool) (top : Nat)
  /-- Thread `t` dequeues the completion of the context `i` of `posted`. -/
  | dequeue (t i : Nat) (c : Completion)
  | tick (ms : Nat)

/-- The instruction of `Lifecycle` that the step is. -/
def Step.instr? : Step → Option Instr
  | .server i => some i
  | _ => none

/-- The thread without its players. -/
def Thread.base (th : Thread) : Lifecycle.Thread := ⟨th.type, th.todo.filterMap Step.instr?, []⟩

/-- `PushTimerJob` -/
def Thread.pushTimerJob (th : Thread) (s : SessionId) (task : TimerTask) (after : Nat) : Thread :=
  { th with mTimerJobQueue := th.mTimerJobQueue ++ [⟨s, task, after + th.LTickCount⟩] }

/-- The element is one of those that are due first. -/
def Thread.first (th : Thread) (e : TimerJobElement) : Bool :=
  th.mTimerJobQueue.all fun x => e.mExecutionTick ≤ x.mExecutionTick

/-- `DoTimerJob` at the head of its loop. -/
def Thread.timerTop (th : Thread) (top : Nat) : Option (Thread × List Step) :=
  match th.mTimerJobQueue[top]? with
  | none => if th.mTimerJobQueue = [] then some (th, []) else none
  | some e =>
    if th.first e then
      if th.LTickCount < e.mExecutionTick then some (th, [])
      else some ({ th with mTimerJobQueue := th.mTimerJobQueue.eraseIdx top },
        doSync e.mOwner [e.mTask.step e.mOwner] ++ [.timerTop])
    else none

namespace Process

/-- The server without its players. -/
def base (p : Process) : Server := { p.server with threads := p.threads.map Thread.base }

def modify (p : Process) (s : SessionId) (f : Player → Player) : Process :=
  { p with player := Function.update p.player s (f (p.player s)) }

def manager (p : Process) (f : PlayerManager → PlayerManager) : Process :=
  { p with playerManager := f p.playerManager }

/-- One step of thread `th`, number `t`: the new state, the thread with what is
its own, and what it does next. `none` while a lock is taken. -/
def exec (p : Process) (t : Nat) (th : Thread) (answer : Bool) (top : Nat) : Step → Option (Process × Thread × List Step)
  | .server i =>
    (p.base.exec .homework4 answer i).map fun r => ({ p with server := { r.1 with threads := [] } }, th, r.2.flatMap steps)
  | .push k =>
    match LockOrderChecker.push Lock.mLockOrder th.mLockStack k with
    | some mLockStack => some (p, { th with mLockStack }, [])
    | none => some ({ p with tripped := true }, th, [])
  | .pop k =>
    match LockOrderChecker.pop th.mLockStack k with
    | some mLockStack => some (p, { th with mLockStack }, [])
    | none => some ({ p with tripped := true }, th, [])
  | .enterLock s => if (p.player s).mLock then none else some (p.modify s fun pl => { pl with mLock := true }, th, [])
  | .leaveLock s => some (p.modify s fun pl => { pl with mLock := false }, th, [])
  | .enterManager exclusive =>
    if p.playerManager.writer || exclusive && 0 < p.playerManager.readers then none
    else if exclusive then some (p.manager fun m => { m with writer := true }, th, [])
    else some (p.manager fun m => { m with readers := m.readers + 1 }, th, [])
  | .leaveManager exclusive =>
    if exclusive then some (p.manager fun m => { m with writer := false }, th, [])
    else some (p.manager fun m => { m with readers := m.readers - 1 }, th, [])
  | .doSyncAfter after s task => some (p, th.pushTimerJob s task after, [])
  | .doTimerJob => some (p, { th with LTickCount := p.tickCount }, [.timerTop])
  | .timerTop => (th.timerTop top).map fun r => (p, r.1, r.2)
  | .start s heartbeat =>
    some (p.modify s fun pl => { pl with mIsAlive := true, mHeartBeat := heartbeat }, th,
      enterGuard true ++ [.registerPlayer s, .onTick s])
  | .registerPlayer s =>
    let id := p.playerManager.mCurrentIssueId + 1
    some (p.manager fun m => { m with mCurrentIssueId := id, mPlayerMap := Function.update m.mPlayerMap id (some s) },
      th, leaveGuard true ++ [.setPlayerId s id])
  | .setPlayerId s id => some (p.modify s fun pl => { pl with mPlayerId := id }, th, [])
  -- one call in a hundred dispatches the buff event first
  | .onTick s =>
    some (p, th, if (p.player s).mIsAlive then (if answer then [.dispatch] else []) ++ [.dispatch, .rearm s] else [])
  | .rearm s =>
    let heartbeat := (p.player s).mHeartBeat
    some (p, if 0 < heartbeat then th.pushTimerJob s .onTick heartbeat.toNat else th, [])
  | .unregisterPlayer s => some (p, th, enterGuard true ++ [.erase s (p.player s).mPlayerId])
  | .erase s id =>
    some (p.manager fun m => { m with mPlayerMap := Function.update m.mPlayerMap id none }, th,
      leaveGuard true ++ [.playerReset s])
  | .playerReset s =>
    some (p.modify s fun pl => { pl with mPlayerId := -1, mHeartBeat := -1, mIsAlive := false }, th, [])
  | .dispatch => some (p, { th with calls := th.calls + 1 }, [.gce (.increment ⟨t, th.calls⟩)])
  | .gce frame =>
    let r := p.gce.doDispatch frame
    some ({ p with gce := r.1 }, th, r.2.flatMap frameSteps)

def setThread (p : Process) (t : Nat) (th : Thread) : Process := { p with threads := p.threads.set t th }

def runThread (p : Process) (t : Nat) (th : Thread) (answer : Bool) (top : Nat) : Option Process :=
  match th.todo with
  | [] => none
  | i :: rest => (p.exec t th answer top i).map fun r => r.1.setThread t { r.2.1 with todo := r.2.2 ++ rest }

/-- The handler of a completion, and `DoTimerJob` after it. -/
def dequeue (p : Process) (t : Nat) (th : Thread) (i : Nat) (c : Completion) : Option Process :=
  if th.todo = [] then
    (p.base.step .homework4 (.dequeue t i c)).map fun v =>
      let todo := (v.threads[t]?.map Lifecycle.Thread.todo).getD []
      { p with server := { v with threads := [] } }.setThread t { th with todo := todo.flatMap steps ++ [Step.doTimerJob] }
  else none

def step (p : Process) (a : Action) : Option Process :=
  if p.tripped || p.server.crashed.isSome then none
  else match a with
    | .run t answer top => p.threads[t]?.bind fun th => p.runThread t th answer top
    | .dequeue t i c => p.threads[t]?.bind fun th => p.dequeue t th i c
    | .tick ms => some { p with tickCount := p.tickCount + ms }

end Process

/-- The player whose `Start` the step begins. -/
def Step.starts : Step → Option SessionId
  | .start s _ => some s
  | _ => none

/-- The player whose `Start` the action begins. -/
def Process.starts (p : Process) : Action → Option SessionId
  | .run t _ _ => (p.threads[t]?.bind (·.todo.head?)).bind Step.starts
  | .dequeue _ _ _ | .tick _ => none

/-- The step is the `++mCurrentIssueId` of `RegisterPlayer`. -/
def Step.registers : Step → Bool
  | .registerPlayer _ => true
  | _ => false

def Process.registers (p : Process) : Action → Bool
  | .run t _ _ => (p.threads[t]?.bind (·.todo.head?)).any Step.registers
  | .dequeue _ _ _ | .tick _ => false

def Thread.start (type : ThreadType) (todo : List Step) : Thread where
  type := type
  todo := todo
  mLockStack := []
  LTickCount := 0
  mTimerJobQueue := []
  calls := 0

def Process.start (ioThreads : Nat) : Process where
  server := { Server.start .homework4 ioThreads with threads := [] }
  player := fun _ => { mPlayerId := -1, mHeartBeat := -1, mIsAlive := false, mLock := false }
  playerManager := { writer := false, readers := 0, mCurrentIssueId := 0, mPlayerMap := fun _ => none }
  gce := {}
  tickCount := 0
  threads := Thread.start .main (steps .startAccept) :: List.replicate ioThreads (Thread.start .ioWorker [.doTimerJob])
  tripped := false

/-! ## Some runs -/

/-- `n` steps of thread `t` with every answer yes. -/
def runs (t n : Nat) : List Action := List.replicate n (.run t true 0)

/-- `AcceptEx` of the first session is pending, and that of the second fails. -/
def acceptOne : List Action := runs 0 9 ++ [.run 0 false 0] ++ runs 0 3

/-- The client of the first session is connected, its first receive fails, and
the session is given back 10 ms before `Player::Start` is called. -/
def startsLate : List Action :=
  acceptOne ++ runs 1 2 ++ [.dequeue 1 0 (.done true [])] ++ runs 1 9 ++
    [.dequeue 1 0 .failed] ++ runs 1 5 ++ [.run 1 false 0] ++ runs 1 9 ++
    [.dequeue 1 0 .failed] ++ runs 1 21 ++ [.tick 10] ++ runs 1 37

end GameServer.Players
