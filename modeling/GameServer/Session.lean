import GameServer.SendPath
/-!
# Receiving on a session

`Session::PostRecv`, `RecvCompletion` and `EchoBack`. DummyClients handles an
`IO_RECV` completion by `RecvCompletion` alone, and its handlers send nothing;
Homework7, whose handlers may answer (`GameServer.Handlers`), then echoes what
is left in the buffer. The peer's bytes arrive in chunks, each at most as long
as the space `PostRecv` offered.
-/

namespace GameServer

open Lib

/-- What took bytes out of the receive buffer. -/
inductive Taken where
  | dispatch (d : Dispatch)
  | echo (bytes : List Byte)

def Dispatch.bytes (d : Dispatch) : List Byte := headerBytes ⟨d.mSize, d.mType⟩ ++ d.payload

def Taken.bytes : Taken → List Byte
  | .dispatch d => d.bytes
  | .echo bytes => bytes

def Taken.frame : Taken → Option Dispatch
  | .dispatch d => some d
  | .echo _ => none

/-- A session: its receive buffer and its sending half, which holds `mConnected`;
with the bytes received on it and what became of them. -/
structure Session where
  mRecvBuffer : CircularBuffer
  sender : Sender
  received : List Byte
  taken : List Taken

namespace Session

/-- A connected session with empty buffers. -/
def start : Session where
  mRecvBuffer := .new clientBufSize
  sender := .start clientBufSize
  received := []
  taken := []

/-- The handler calls so far. -/
def dispatched (s : Session) : List Dispatch := s.taken.filterMap Taken.frame

/-- `DisconnectRequest`, as far as the buffers are concerned. -/
def disconnectRequest (s : Session) : Session := { s with sender := { s.sender with mConnected := false } }

/-- `PostRecv` on a connected session: the length of the `WSABUF`, unless there is
no space, and the session. -/
def postRecv (s : Session) : Option Nat × Session :=
  let query := s.mRecvBuffer.getFreeSpaceSize
  if query.1 = 0 then (none, { s with mRecvBuffer := query.2 })
  else
    let again := query.2.getFreeSpaceSize
    (some (again.1 % 2 ^ 32), { s with mRecvBuffer := again.2 })

/-- The socket has put `chunk` at `GetBuffer()`, and no handler sends. -/
def recvCompletion (s : Session) (chunk : List Byte) : Session :=
  let r := onReceive ((s.mRecvBuffer.write chunk).commit chunk.length)
  let s' := { s with mRecvBuffer := r.mRecvBuffer
                     received := s.received ++ chunk
                     taken := s.taken ++ r.dispatched.map .dispatch }
  if r.disconnect then s'.disconnectRequest else s'

def echoBack (s : Session) : Session :=
  let len := s.mRecvBuffer.getContiguiousBytes
  if len = 0 then s
  else
    let bytes := slice s.mRecvBuffer.mBuffer (s.mRecvBuffer.getBufferStart.getD 0) len
    let sent := s.sender.call (.postSend bytes)
    if sent.1 = false then { s with sender := sent.2 }
    else { s with sender := sent.2, mRecvBuffer := s.mRecvBuffer.remove len, taken := s.taken ++ [.echo bytes] }

/-- `PostRecv` and the completion of the receive it starts, as DummyClients handles
it. A session that is not connected receives nothing; one without space disconnects. -/
def dummyRecv (s : Session) (chunk : List Byte) : Option Session :=
  if s.sender.mConnected = false then some s
  else
    match s.postRecv with
    | (none, s') => some s'.disconnectRequest
    | (some offered, s') =>
      if chunk = [] ∨ offered < chunk.length then none else some (s'.recvCompletion chunk)

/-- The space the next receive is offered lies in region A. -/
def OfferInA (s : Session) : Prop := s.mRecvBuffer.getSpaceBeforeA ≤ s.mRecvBuffer.getAFreeSpace

end Session

end GameServer
