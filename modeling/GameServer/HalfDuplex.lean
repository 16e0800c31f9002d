import GameServer.CircularBuffer
/-!
# The echo of Homework4

`PreRecv`, `PostRecv`, `RecvCompletion`, `PostSend` and `SendCompletion` of a session
of Homework4, with the handlers of `IoWorkerThread` that call them. One buffer
serves both directions. As in `Lifecycle`, a handler is the list of steps it has
left, a step is one access to what the threads share, and a socket call succeeds or
fails as the action says; here with the buffer, the spans posted and the bytes. The
reference count and the contexts of `DisconnectRequest` are in `Lifecycle`.
-/

namespace GameServer.HalfDuplex

open Lib

def BUFSIZE : Nat := 65536

inductive IoType where
  | send
  | recv
  | recvZero
  | accept
  deriving DecidableEq

/-- `len` and `buf` are those of mWsaBuf. -/
structure OverlappedIOContext where
  mIoType : IoType
  len : Nat
  buf : Option Nat
  deriving DecidableEq

/-- The calls that start a receive or a send. `AcceptCompletion`, which calls `PreRecv`
too, only prints when it fails. -/
inductive Call where
  | acceptPreRecv
  | preRecv
  | postRecv
  | postSend
  deriving DecidableEq

inductive Instr where
  /-- `InterlockedExchange(&mConnected, 1)` of `AcceptCompletion`. -/
  | acceptCompletion
  | socketSetup
  | isConnected (c : Call)
  | enterLock
  | leaveLock
  /-- `GetFreeSpaceSize` in the test of `PostRecv`. -/
  | freeSpaceTest
  /-- `GetContiguiousBytes` in the test of `PostSend`. -/
  | contiguousTest
  /-- The new context, and its mWsaBuf. -/
  | newContext (c : Call)
  /-- `WSARecv` or `WSASend`. -/
  | startIo (c : Call) (context : OverlappedIOContext)
  /-- `Commit` of these bytes, which are in the buffer. -/
  | recvCompletion (chunk : List Byte)
  /-- `Remove` of these bytes, which were sent. -/
  | sendCompletion (bytes : List Byte)
  /-- `InterlockedExchange(&mConnected, 0)` of `DisconnectRequest`. -/
  | disconnectRequest
  | deleteContext

/-- `posted` are the contexts that are outstanding, and `handlers` those of the
completions dequeued so far. `received` and `sent` (ghosts) are the bytes of the
connection that `RecvCompletion` and `SendCompletion` were called for. -/
structure Session where
  mConnected : Bool
  mBufferLock : Bool
  mBuffer : CircularBuffer
  posted : List OverlappedIOContext
  handlers : List (List Instr)
  received : List Byte
  sent : List Byte

/-! ## The calls -/

def Call.locks : Call → Bool
  | .postRecv | .postSend => true
  | .acceptPreRecv | .preRecv => false

def Call.leave (c : Call) : List Instr := if c.locks then [.leaveLock] else []

/-- What the caller does when the call returns false. -/
def Call.onFalse : Call → List Instr
  | .acceptPreRecv => []
  | .preRecv | .postRecv | .postSend => [.disconnectRequest]

/-- After the `IsConnected` test. -/
def Call.body : Call → List Instr
  | .acceptPreRecv => [.newContext .acceptPreRecv]
  | .preRecv => [.newContext .preRecv]
  | .postRecv => [.enterLock, .freeSpaceTest]
  | .postSend => [.enterLock, .contiguousTest]

namespace Session

def newContext (s : Session) : Call → Session × OverlappedIOContext
  | .acceptPreRecv | .preRecv => (s, ⟨.recvZero, 0, none⟩)
  | .postRecv =>
    let query := s.mBuffer.getFreeSpaceSize
    ({ s with mBuffer := query.2 }, ⟨.recv, query.1 % 2 ^ 32, some query.2.getBuffer⟩)
  | .postSend => (s, ⟨.send, s.mBuffer.getContiguiousBytes % 2 ^ 32, s.mBuffer.getBufferStart⟩)

/-- A step of a handler, and what it does next. `none` while the lock is taken, and
where the process aborts. -/
def exec (s : Session) (answer : Bool) : Instr → Option (Session × List Instr)
  | .acceptCompletion => if s.mConnected then none else some ({ s with mConnected := true }, [.socketSetup])
  | .socketSetup => some (s, if answer then [.isConnected .acceptPreRecv] else [.disconnectRequest])
  | .isConnected c => some (s, if s.mConnected then c.body else c.onFalse)
  | .enterLock => if s.mBufferLock then none else some ({ s with mBufferLock := true }, [])
  | .leaveLock => some ({ s with mBufferLock := false }, [])
  | .freeSpaceTest =>
    let query := s.mBuffer.getFreeSpaceSize
    some ({ s with mBuffer := query.2 },
      if query.1 = 0 then [.leaveLock, .disconnectRequest] else [.newContext .postRecv])
  | .contiguousTest =>
    -- with nothing to send `PostSend` returns true
    some (s, if s.mBuffer.getContiguiousBytes = 0 then [.leaveLock] else [.newContext .postSend])
  | .newContext c =>
    let r := s.newContext c
    some (r.1, [.startIo c r.2])
  | .startIo c context =>
    if answer then some ({ s with posted := s.posted ++ [context] }, c.leave)
    else some (s, .deleteContext :: c.leave ++ c.onFalse)
  | .recvCompletion chunk =>
    some ({ s with mBuffer := s.mBuffer.commit chunk.length, received := s.received ++ chunk }, [])
  | .sendCompletion bytes =>
    some ({ s with mBuffer := s.mBuffer.remove bytes.length, sent := s.sent ++ bytes }, [])
  | .disconnectRequest => some ({ s with mConnected := false }, [])
  | .deleteContext => some (s, [])

/-- What `GetQueuedCompletionStatus` reports: an error or no bytes, with
`GetLastError()` left at `WAIT_TIMEOUT` or not, or bytes. Accepts and the receives of
`PreRecv` never report any. -/
inductive Completion where
  | timedOut
  | noBytes
  | received (chunk : List Byte)
  | sent (transferred : Nat)

/-- A thread of the pool handles a completion, and deletes the context. -/
def handle (s : Session) (todo : List Instr) : Session :=
  { s with handlers := s.handlers ++ [todo ++ [.deleteContext]] }

/-- The socket has put the bytes in the span that was posted. -/
def arrive (s : Session) (context : OverlappedIOContext) (chunk : List Byte) : Session :=
  { s with mBuffer := { s.mBuffer with mBuffer := overwrite s.mBuffer.mBuffer (context.buf.getD 0) chunk } }

/-- The first bytes of the span that was posted. -/
def firstBytes (s : Session) (context : OverlappedIOContext) (n : Nat) : List Byte :=
  slice s.mBuffer.mBuffer (context.buf.getD 0) n

/-- `IoWorkerThread` and the function it calls for the context. -/
def ioCompletion (s : Session) (context : OverlappedIOContext) : Completion → Option Session
  | .timedOut => some s
  | .noBytes =>
    match context.mIoType with
    | .send | .recv => some (s.handle [.disconnectRequest])
    | .recvZero => some (s.handle [.isConnected .postRecv])
    | .accept => some (s.handle [.acceptCompletion])
  | .received chunk =>
    if context.mIoType = .recv ∧ chunk ≠ [] ∧ chunk.length ≤ context.len then
      some ((s.arrive context chunk).handle [.enterLock, .recvCompletion chunk, .leaveLock, .isConnected .postSend])
    else none
  | .sent transferred =>
    if context.mIoType = .send ∧ 0 < transferred ∧ transferred ≤ context.len then
      some (s.handle ([.enterLock, .sendCompletion (s.firstBytes context transferred), .leaveLock] ++
        if context.len ≠ transferred then [.disconnectRequest] else [.isConnected .preRecv]))
    else none

inductive Action where
  /-- Handler `t` takes its next step. -/
  | run (t : Nat) (answer : Bool)
  /-- A thread dequeues the completion of context `i` of `posted`. -/
  | dequeue (i : Nat) (c : Completion)
  /-- Any other call of `DisconnectRequest`. -/
  | disconnectRequest
  /-- `SessionReset`, and the `PostAccept` of the next connection. -/
  | reissue

def runHandler (s : Session) (t : Nat) (answer : Bool) : Option Session :=
  match s.handlers[t]? with
  | some (i :: rest) =>
    (s.exec answer i).map fun r => { r.1 with handlers := r.1.handlers.set t (r.2 ++ rest) }
  | _ => none

def dequeue (s : Session) (i : Nat) (c : Completion) : Option Session :=
  s.posted[i]?.bind fun context => ioCompletion { s with posted := s.posted.eraseIdx i } context c

def postAccept (s : Session) : Session := { s with posted := s.posted ++ [⟨.accept, 0, none⟩] }

def sessionReset (s : Session) : Session :=
  { s with mConnected := false, mBuffer := s.mBuffer.bufferReset, received := [], sent := [] }

/-- The session is returned when no context refers to it. -/
def reissue (s : Session) : Option Session :=
  if s.posted = [] ∧ ∀ todo ∈ s.handlers, todo.isEmpty then some s.sessionReset.postAccept else none

def step (s : Session) : Action → Option Session
  | .run t answer => s.runHandler t answer
  | .dequeue i c => s.dequeue i c
  | .disconnectRequest => some { s with mConnected := false }
  | .reissue => s.reissue

/-- `AcceptEx` is pending on a new session. -/
def start : Session where
  mConnected := false
  mBufferLock := false
  mBuffer := .new BUFSIZE
  posted := [⟨.accept, 0, none⟩]
  handlers := []
  received := []
  sent := []

end Session

end GameServer.HalfDuplex
