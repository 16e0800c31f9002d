import GameServer.CircularBuffer.Lemmas
import GameServer.SendPath.Lemmas
/-!
# The aggregated send path

`Session::PostSend`, `FlushSend` and `SendCompletion`, the same in Homework5,
Homework6 and DummyClients, and `DummyClientSession::SendRequest`, on one
session. A call is atomic under `mSendBufferLock` apart from its `IsConnected()`,
read before the lock is taken and passed here as `connected`.
-/

namespace GameServer

open Lib

/-- An `OverlappedSendContext` of a `WSASend` that was accepted, with the bytes
that lay in its span at the time. -/
structure PostedSend where
  buf : Nat
  len : Nat
  posted : List Byte
  deriving DecidableEq

/-- The sending half of a session, with the bytes its completions have reported
sent. Of the threads' `LSendRequestSessionList`s it has how often the session
stands in each. -/
structure Flusher where
  mConnected : Bool
  mSendBuffer : CircularBuffer
  mSendPendingCount : Int
  inFlight : List PostedSend
  LSendRequestSessionList : List Nat
  sent : List Byte
  deriving DecidableEq

namespace Flusher

/-- A connected session with an empty send buffer, and `n` threads. -/
def start (sendBufSize n : Nat) : Flusher where
  mConnected := true
  mSendBuffer := .new sendBufSize
  mSendPendingCount := 0
  inFlight := []
  LSendRequestSessionList := List.replicate n 0
  sent := []

/-- `DisconnectRequest`, up to the `DisconnectEx` it posts. -/
def disconnectRequest (s : Flusher) : Flusher := { s with mConnected := false }

/-- `LSendRequestSessionList->push_back(this)` on thread `i`. -/
def pushBack (s : Flusher) (i : Nat) : Flusher :=
  { s with LSendRequestSessionList := s.LSendRequestSessionList.modify i (· + 1) }

/-- `LSendRequestSessionList->pop_front()` on thread `i`. -/
def popFront (s : Flusher) (i : Nat) : Flusher :=
  { s with LSendRequestSessionList := s.LSendRequestSessionList.modify i (· - 1) }

/-- What `PostSend` and `SendRequest` do on thread `i` with `bytes` of size `len`. -/
def append (s : Flusher) (i : Nat) (connected : Bool) (bytes : List Byte) (len : Nat) : Bool × Flusher :=
  if connected = false then (false, s)
  else
    let query := s.mSendBuffer.getFreeSpaceSize
    if query.1 < len then (false, { s with mSendBuffer := query.2 })
    else (true, { s.pushBack i with mSendBuffer := (query.2.write bytes).commit len })

def postSend (s : Flusher) (i : Nat) (connected : Bool) (data : List Byte) : Bool × Flusher :=
  s.append i connected data data.length

def sendRequest (s : Flusher) (i : Nat) (connected : Bool) (packetType : Int16) (payload : Payload) : Bool × Flusher :=
  let totalSize := toInt (payload.bytes.length + headerSize)
  s.append i connected (packetBytes packetType payload.bytes) (toSize totalSize)

/-- `accepted` is whether `WSASend` succeeds, at once or as `WSA_IO_PENDING`. -/
def flushSend (s : Flusher) (connected accepted : Bool) : Bool × Flusher :=
  if connected = false then (true, s.disconnectRequest)
  else if 0 = s.mSendBuffer.getContiguiousBytes then (0 = s.mSendPendingCount, s)
  else if s.mSendPendingCount > 0 then (false, s)
  else
    let len := s.mSendBuffer.getContiguiousBytes % 2 ^ 32
    let buf := s.mSendBuffer.getBufferStart.getD 0
    if accepted = false then (true, s.disconnectRequest)
    else
      let mSendPendingCount := s.mSendPendingCount + 1
      (mSendPendingCount = 1,
        { s with mSendPendingCount
                 inFlight := s.inFlight ++ [⟨buf, len, slice s.mSendBuffer.mBuffer buf len⟩] })

/-- `SendCompletion`. The bytes reported sent are those the span was posted with. -/
def sendCompletion (s : Flusher) (context : PostedSend) (transferred : Nat) : Flusher :=
  { s with mSendBuffer := s.mSendBuffer.remove transferred
           mSendPendingCount := s.mSendPendingCount - 1
           sent := s.sent ++ context.posted.take transferred }

/-- One round of thread `i`'s `DoSendJob` with the session in front. -/
def doSendJob (s : Flusher) (i : Nat) (connected accepted : Bool) : Flusher :=
  let r := s.flushSend connected accepted
  if r.1 then r.2.popFront i else r.2

/-- What `IsConnected()` may have said before the lock was taken: a session that
is connected now was so then. -/
def Saw (s : Flusher) (connected : Bool) : Prop := s.mConnected = true → connected = true

instance (s : Flusher) (connected : Bool) : Decidable (s.Saw connected) := inferInstanceAs (Decidable (_ → _))

end Flusher

end GameServer
