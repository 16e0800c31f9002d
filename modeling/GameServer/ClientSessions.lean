import GameServer.Lib.SortedMap
import Mathlib.Data.Nat.Notation
import Mathlib.Order.Nat
/-!
# The clients of Homework1

`IocpManager.cpp`, `ClientSession.cpp` and `SessionManager.cpp` of Homework1. The
main thread accepts, the others take completions off the port. A session is known
by its number, the order of its `accept`, and its record stays when it is deleted,
so a thread that goes on with a deleted session finds what it had left. A step is
one access to what the threads share; whether a socket call succeeds, and how a
completion ends, the action says. The operating system may give out a socket value
that is not open.
-/

namespace GameServer.ClientSessions

open Lib

def BUFSIZE : Nat := 4096

inductive IOType where
  | send
  | recv
  deriving DecidableEq

/-- `len` is that of mWsaBuf. -/
structure OverlappedIOContext where
  mSessionObject : Nat
  mIoType : IOType
  len : Nat
  deriving DecidableEq

/-- `associated`, `closes` and `deletes` record what has been done with it: its socket
has been given to the completion port, how often it was closed, and how often
the session was deleted. -/
structure ClientSession where
  mConnected : Bool
  mSocket : Nat
  mLock : Bool
  associated : Bool
  closes : Nat
  deletes : Nat
  deriving DecidableEq

/-- The calls of `PostRecv` and `PostSend`. -/
inductive Post where
  | onConnectRecv
  | echoSend (len : Nat)
  | echoRecv
  deriving DecidableEq

/-- What a thread does next with its client. -/
inductive Line where
  -- `CreateClientSession`
  | createEnterLock
  | insert
  | createLeaveLock
  -- `OnConnect`, whose guard leaves the lock when it returns `ret`
  | onConnectEnterLock
  | setRcvBuf
  | createIoCompletionPort
  | setConnected
  | increaseConnectionCount
  | onConnectLeaveLock (ret : Bool)
  -- `PostRecv` and `PostSend`
  | isConnected (p : Post)
  | startIo (p : Post)
  -- `Disconnect`
  | disconnectEnterLock
  | disconnectIsConnected
  | decreaseConnectionCount
  | closesocket
  | clearConnected
  | disconnectLeaveLock
  -- `DeleteClientSession`
  | deleteEnterLock
  | erase
  | deleteLeaveLock
  | deleteClient
  deriving DecidableEq

structure Frame where
  client : Nat
  line : Line
  deriving DecidableEq

/-- Thread 0 accepts. A thread with no frame is in `accept` or in
`GetQueuedCompletionStatus`. `posted` are the contexts that are outstanding, with the
completion keys of the sockets they were posted on. -/
structure State where
  sessions : List ClientSession
  mLock : Bool
  mClientList : SortedMap Nat Nat
  mCurrentConnectionCount : Int
  posted : List (Nat × OverlappedIOContext)
  threads : List (Option Frame)
  deriving DecidableEq

/-! ## PostRecv and PostSend -/

def Post.context (client : Nat) : Post → OverlappedIOContext
  | .onConnectRecv | .echoRecv => ⟨client, .recv, BUFSIZE⟩
  | .echoSend len => ⟨client, .send, len⟩

/-- Where the caller goes on when the call returns true. -/
def Post.onTrue : Post → Option Line
  | .onConnectRecv => some (.onConnectLeaveLock true)
  | .echoSend _ => some (.isConnected .echoRecv)
  | .echoRecv => none

def Post.onFalse : Post → Line
  | .onConnectRecv => .onConnectLeaveLock false
  | .echoSend _ | .echoRecv => .disconnectEnterLock

namespace State

def update (s : State) (x : Nat) (c : ClientSession) : State := { s with sessions := s.sessions.set x c }

def isOpen (s : State) (sock : Nat) : Bool := s.sessions.any fun c => c.mSocket = sock ∧ c.closes = 0

/-- The client that was given to the port with the socket that is open now. -/
def completionKey (s : State) (sock : Nat) : Option Nat :=
  s.sessions.findIdx? fun c => c.mSocket = sock ∧ c.closes = 0 ∧ c.associated = true

/-- `WSARecv` and `WSASend`, which fail where the socket is not open. -/
def startIo (s : State) (c : ClientSession) (context : OverlappedIOContext) : Option State :=
  if s.isOpen c.mSocket then
    some (match s.completionKey c.mSocket with
      | some asCompletionKey => { s with posted := s.posted ++ [(asCompletionKey, context)] }
      | none => s)
  else none

/-! ## The threads -/

/-- A thread does its line, and where it goes on. `none` while a lock is taken. -/
def exec (s : State) (client : Nat) (c : ClientSession) (answer : Bool) : Line → Option (State × Option Line)
  | .createEnterLock => if s.mLock then none else some ({ s with mLock := true }, some .insert)
  | .insert => some ({ s with mClientList := s.mClientList.insert c.mSocket client }, some .createLeaveLock)
  | .createLeaveLock => some ({ s with mLock := false }, some .onConnectEnterLock)
  | .onConnectEnterLock =>
    if c.mLock then none else some (s.update client { c with mLock := true }, some .setRcvBuf)
  | .setRcvBuf => some (s, some (if answer then .createIoCompletionPort else .onConnectLeaveLock false))
  | .createIoCompletionPort =>
    if answer then some (s.update client { c with associated := true }, some .setConnected)
    else some (s, some (.onConnectLeaveLock false))
  | .setConnected => some (s.update client { c with mConnected := true }, some .increaseConnectionCount)
  | .increaseConnectionCount =>
    some ({ s with mCurrentConnectionCount := s.mCurrentConnectionCount + 1 }, some (.isConnected .onConnectRecv))
  | .onConnectLeaveLock ret =>
    some (s.update client { c with mLock := false }, if ret then none else some .disconnectEnterLock)
  | .isConnected p => some (s, some (if c.mConnected then .startIo p else p.onFalse))
  | .startIo p =>
    if answer then (s.startIo c (p.context client)).map fun s => (s, p.onTrue) else some (s, some p.onFalse)
  | .disconnectEnterLock =>
    if c.mLock then none else some (s.update client { c with mLock := true }, some .disconnectIsConnected)
  | .disconnectIsConnected =>
    -- the return in the middle of Disconnect does not leave the lock
    some (s, some (if c.mConnected then .decreaseConnectionCount else .deleteEnterLock))
  | .decreaseConnectionCount =>
    some ({ s with mCurrentConnectionCount := s.mCurrentConnectionCount - 1 }, some .closesocket)
  | .closesocket => some (s.update client { c with closes := c.closes + 1 }, some .clearConnected)
  | .clearConnected => some (s.update client { c with mConnected := false }, some .disconnectLeaveLock)
  | .disconnectLeaveLock => some (s.update client { c with mLock := false }, some .deleteEnterLock)
  | .deleteEnterLock => if s.mLock then none else some ({ s with mLock := true }, some .erase)
  | .erase => some ({ s with mClientList := s.mClientList.erase c.mSocket }, some .deleteLeaveLock)
  | .deleteLeaveLock => some ({ s with mLock := false }, some .deleteClient)
  | .deleteClient => some (s.update client { c with deletes := c.deletes + 1 }, none)

def runThread (s : State) (t : Nat) (answer : Bool) : Option State :=
  s.threads[t]?.join.bind fun f => s.sessions[f.client]?.bind fun c =>
    (s.exec f.client c answer f.line).map fun r =>
      { r.1 with threads := r.1.threads.set t (r.2.map fun line => ⟨f.client, line⟩) }

/-- `StartAcceptLoop`, up to the call of `CreateClientSession`, with the new session. -/
def accept (s : State) (sock : Nat) : Option State :=
  if s.threads[0]? = some none ∧ s.isOpen sock = false then
    some { s with
      sessions := s.sessions ++ [⟨false, sock, false, false, 0, 0⟩]
      threads := s.threads.set 0 (some ⟨s.sessions.length, .createEnterLock⟩) }
  else none

/-- `IoWorkerThread` with the completion it has dequeued, up to `Disconnect` or
`ReceiveCompletion`. `SendCompletion` does not touch the client. -/
def ioCompletion (context : OverlappedIOContext) (ret : Bool) (transferred : Nat) : Option Line :=
  if ret = false ∨ transferred = 0 then some .disconnectEnterLock
  else match context.mIoType with
    | .send => if context.len ≠ transferred then some .disconnectEnterLock else none
    | .recv => some (.isConnected (.echoSend transferred))

/-- An IO thread dequeues the completion of context `i` of `posted`. -/
def dequeue (s : State) (t i : Nat) (ret : Bool) (transferred : Nat) : Option State :=
  if 0 < t ∧ s.threads[t]? = some none then
    s.posted[i]?.bind fun (asCompletionKey, context) =>
      if transferred ≤ context.len then
        some { s with
          posted := s.posted.eraseIdx i
          threads := s.threads.set t ((ioCompletion context ret transferred).map fun line => ⟨asCompletionKey, line⟩) }
      else none
  else none

inductive Action where
  | accept (sock : Nat)
  | dequeue (t i : Nat) (ret : Bool) (transferred : Nat)
  | run (t : Nat) (answer : Bool)

def step (s : State) : Action → Option State
  | .accept sock => s.accept sock
  | .dequeue t i ret transferred => s.dequeue t i ret transferred
  | .run t answer => s.runThread t answer

/-- The main thread and some number of IO threads. -/
def start (mIoThreadCount : Nat) : State where
  sessions := []
  mLock := false
  mClientList := .empty
  mCurrentConnectionCount := 0
  posted := []
  threads := List.replicate (mIoThreadCount + 1) none

end State

end GameServer.ClientSessions
