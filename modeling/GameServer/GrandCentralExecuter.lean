import GameServer.Lib.Run
/-!
# GrandCentralExecuter

`DoDispatch` of Homework4 as a step relation: the interlocked operations, the
push and the pop of the queue are atomic, and so is a task apart from the calls
of `DoDispatch` it makes. Threads are IO workers; tasks do return. The number of
unfinished tasks stays far from the bounds of `int64_t`.
-/

namespace GameServer

open Lib

namespace GrandCentralExecuter

/-- The task of the `number`-th call of `DoDispatch` by thread `caller`. -/
structure Task where
  caller : Nat
  number : Nat
  deriving DecidableEq, Repr

/-- Where a call of `DoDispatch` stands. -/
inductive Frame where
  /-- `InterlockedIncrement64(&mRemainTaskCount) > 1` -/
  | increment (task : Task)
  /-- `mCentralTaskQueue.push(task)`, with an executor already there -/
  | push (task : Task)
  /-- `mCentralTaskQueue.push(task)` in front of the loop -/
  | pushFirst (task : Task)
  /-- `mCentralTaskQueue.try_pop(task)` -/
  | tryPop
  /-- `task()` has not returned -/
  | running (task : Task)
  /-- `0 == InterlockedDecrement64(&mRemainTaskCount)` -/
  | decrement (task : Task)
  deriving DecidableEq, Repr

/-- The frame is that of the thread in charge of the queue. -/
def Frame.executes : Frame → Bool
  | .pushFirst _ | .tryPop | .running _ | .decrement _ => true
  | .increment _ | .push _ => false

/-- A thread with the calls of `DoDispatch` it is in, the innermost first. -/
structure Thread where
  calls : Nat
  frames : List Frame
  deriving DecidableEq, Repr

end GrandCentralExecuter

/-- The counter and the queue, with the tasks counted, pushed, popped and
counted down so far. -/
structure GrandCentralExecuter where
  mRemainTaskCount : Int := 0
  mCentralTaskQueue : List GrandCentralExecuter.Task := []
  incremented : List GrandCentralExecuter.Task := []
  pushed : List GrandCentralExecuter.Task := []
  executed : List GrandCentralExecuter.Task := []
  completed : List GrandCentralExecuter.Task := []
  deriving DecidableEq, Repr

namespace GrandCentralExecuter

def enqueue (g : GrandCentralExecuter) (task : Task) : GrandCentralExecuter :=
  { g with mCentralTaskQueue := g.mCentralTaskQueue ++ [task], pushed := g.pushed ++ [task] }

/-- One step of `DoDispatch`, and what its frame becomes. -/
def doDispatch (g : GrandCentralExecuter) : Frame → GrandCentralExecuter × List Frame
  | .increment task =>
    let count := g.mRemainTaskCount + 1
    ({ g with mRemainTaskCount := count, incremented := g.incremented ++ [task] },
      [if count > 1 then .push task else .pushFirst task])
  | .push task => (g.enqueue task, [])
  | .pushFirst task => (g.enqueue task, [.tryPop])
  | .tryPop =>
    match g.mCentralTaskQueue with
    | [] => (g, [.tryPop])
    | task :: queue => ({ g with mCentralTaskQueue := queue, executed := g.executed ++ [task] }, [.running task])
  | .running task => (g, [.decrement task])
  | .decrement task =>
    let count := g.mRemainTaskCount - 1
    ({ g with mRemainTaskCount := count, completed := g.completed ++ [task] },
      if 0 = count then [] else [.tryPop])

/-- The executer and the threads that use it. -/
structure Process where
  gce : GrandCentralExecuter
  threads : List Thread
  deriving DecidableEq, Repr

inductive Action where
  /-- Thread `i` calls `DoDispatch`, from outside or from the task it runs. -/
  | dispatch (i : Nat)
  /-- The innermost call of thread `i` goes on. -/
  | advance (i : Nat)
  deriving DecidableEq, Repr

/-- The thread may call `DoDispatch`: it is in no call, or runs a task. -/
def Thread.free (t : Thread) : Bool :=
  match t.frames with
  | [] | .running _ :: _ => true
  | _ => false

namespace Process

def start (n : Nat) : Process := ⟨{}, List.replicate n ⟨0, []⟩⟩

def step (s : Process) : Action → Option Process
  | .dispatch i =>
    s.threads[i]?.bind fun t =>
      if t.free then
        some { s with threads := s.threads.set i ⟨t.calls + 1, .increment ⟨i, t.calls⟩ :: t.frames⟩ }
      else none
  | .advance i =>
    s.threads[i]?.bind fun t =>
      match t.frames with
      | [] => none
      | frame :: rest =>
        let r := s.gce.doDispatch frame
        some ⟨r.1, s.threads.set i { t with frames := r.2 ++ rest }⟩

/-- The call of `DoDispatch` for `task` has been made. -/
def Dispatched (s : Process) (task : Task) : Prop :=
  ∃ t, s.threads[task.caller]? = some t ∧ task.number < t.calls

end Process

end GrandCentralExecuter

end GameServer
