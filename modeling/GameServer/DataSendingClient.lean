import GameServer.Lib.Run
import Mathlib.Logic.Function.Basic
/-!
# The echo of DataSendingClient

`IOManager::IOThread` and the session's `PostRecv`, `SendData` and `Disconnect`, for
any number of sessions and threads. Completions go through the port in the order they
happen; from there on the threads take steps in any order, one call on the socket at
a time, which succeeds or fails as the action says. Left out are the byte counters,
and the memory of contexts and buffers.
-/

namespace GameServer

namespace DataSendingClient

open Lib

inductive IOType where
  | send
  | recv
  | connect
  | disconnect
  deriving DecidableEq

/-- `CLIENT_RECV_BUF_SIZE`. -/
def clientRecvBufSize : Nat := 4096

structure OverlappedContext where
  mIOType : IOType
  mSession : Nat
  deriving DecidableEq

/-- The bytes of a completion. For a receive `number` (ghost) says how many of the
session's receives completed before. -/
structure Chunk where
  number : Nat
  bytes : List UInt8
  deriving DecidableEq

/-- What `GetQueuedCompletionStatus` reports: no context for the packets of `CleanUp`,
and no bytes where the operation failed. -/
structure Packet where
  pOV : Option OverlappedContext
  transferred : Option Chunk
  deriving DecidableEq

/-- Where a thread is: at the port, before one of the calls for a packet, or out of
the loop. -/
inductive Thread where
  | waiting
  | disconnect (pOV : OverlappedContext) (chunk : Chunk)
  /-- `SendData` comes next if there is something to echo. -/
  | postRecv (session : Nat) (echo : Option Chunk)
  | sendData (session : Nat) (chunk : Chunk)
  | left
  deriving DecidableEq

/-- `posted` is what is outstanding on the sockets, and `port` the packets that no thread
has dequeued. `received` and `passed` (ghosts) are what each session's receives have
brought, and what `SendData` was called with for them. -/
structure Machine where
  posted : List OverlappedContext
  port : List Packet
  threads : Nat → Thread
  received : Nat → List Chunk
  passed : Nat → List Chunk

namespace Machine

/-- The `switch` of `IOThread`. -/
def handle (pOV : OverlappedContext) (chunk : Chunk) : Thread :=
  match pOV.mIOType with
  | .connect => .postRecv pOV.mSession none
  | .recv => .postRecv pOV.mSession (some chunk)
  | .send | .disconnect => .waiting

/-- `IOThread` from a packet to the first call. -/
def ioThread (p : Packet) : Thread :=
  match p.transferred, p.pOV with
  | some chunk, some pOV =>
    if chunk.bytes = [] ∧ (pOV.mIOType = .send ∨ pOV.mIOType = .recv) then .disconnect pOV chunk
    else handle pOV chunk
  | _, _ => .left

def post (m : Machine) (ok : Bool) (pOV : OverlappedContext) : Machine :=
  if ok then { m with posted := m.posted ++ [pOV] } else m

def setThread (m : Machine) (t : Nat) (th : Thread) : Machine := { m with threads := Function.update m.threads t th }

/-- A thread takes a packet from the port. -/
def dequeue (m : Machine) (t : Nat) : Option Machine :=
  match m.threads t, m.port with
  | .waiting, p :: port => some ({ m with port := port }.setThread t (ioThread p))
  | _, _ => none

/-- The next call of a thread. -/
def runThread (m : Machine) (t : Nat) (ok : Bool) : Option Machine :=
  match m.threads t with
  | .disconnect pOV chunk => some ((m.post ok ⟨.disconnect, pOV.mSession⟩).setThread t (handle pOV chunk))
  | .postRecv session echo =>
    some ((m.post ok ⟨.recv, session⟩).setThread t
      (match echo with
        | some chunk => .sendData session chunk
        | none => .waiting))
  | .sendData session chunk =>
    let m := { m with passed := Function.update m.passed session (m.passed session ++ [chunk]) }
    some ((m.post ok ⟨.send, session⟩).setThread t .waiting)
  | .waiting | .left => none

/-- What is outstanding completes, with these bytes or with an error. -/
def complete (m : Machine) (i : Nat) (bytes : Option (List UInt8)) : Option Machine :=
  m.posted[i]?.bind fun pOV =>
    let m := { m with posted := m.posted.eraseIdx i }
    match bytes with
    | none => some { m with port := m.port ++ [⟨some pOV, none⟩] }
    | some bytes =>
      if pOV.mIOType = .recv then
        let chunk : Chunk := ⟨(m.received pOV.mSession).length, bytes⟩
        if bytes.length ≤ clientRecvBufSize then
          some { m with
            port := m.port ++ [⟨some pOV, some chunk⟩]
            received := Function.update m.received pOV.mSession (m.received pOV.mSession ++ [chunk]) }
        else none
      else some { m with port := m.port ++ [⟨some pOV, some ⟨0, bytes⟩⟩] }

inductive Action where
  /-- `ConnectAndStart`. -/
  | connectAndStart (session : Nat) (ok : Bool)
  /-- `SendData` of `BombardData`. -/
  | bombardData (session : Nat) (ok : Bool)
  /-- A packet of `CleanUp`. -/
  | cleanUp
  | complete (i : Nat) (bytes : Option (List UInt8))
  | dequeue (t : Nat)
  | runThread (t : Nat) (ok : Bool)
  deriving DecidableEq

def step (m : Machine) : Action → Option Machine
  | .connectAndStart session ok => some (m.post ok ⟨.connect, session⟩)
  | .bombardData session ok => some (m.post ok ⟨.send, session⟩)
  | .cleanUp => some { m with port := m.port ++ [⟨none, some ⟨0, []⟩⟩] }
  | .complete i bytes => m.complete i bytes
  | .dequeue t => m.dequeue t
  | .runThread t ok => m.runThread t ok

/-- `StartIOCPThreads` with `n` threads. -/
def start (n : Nat) : Machine where
  posted := []
  port := []
  threads t := if t < n then .waiting else .left
  received _ := []
  passed _ := []

end Machine

end DataSendingClient

end GameServer
