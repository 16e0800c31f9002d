import GameServer.CircularBuffer.Lemmas
import GameServer.PacketHandling
import GameServer.Lib.Run
/-!
# The send path of a session

`ClientSession::SendRequest`, `Session::PostSend` and `Session::SendCompletion`
of Homework7 on one session. Each call is atomic under `mSendBufferLock`, so a
run is a list of calls by any threads, of transmissions by the socket and of
completions. Every `WSASend` is accepted and sends its whole span.
-/

namespace GameServer

open Lib

/-- A serialised message. `ByteSize()` is an `int`. -/
structure Payload where
  bytes : List Byte
  byteSize : bytes.length < 2 ^ 31

/-- What `SendRequest` serialises: the header, whose size field is a `short`,
and the payload. -/
def packetBytes (packetType : Int16) (payload : List Byte) : List Byte :=
  headerBytes ⟨Int16.ofNat payload.length, packetType⟩ ++ payload

/-- An `OverlappedSendContext` in flight: its `mWsaBuf`, the bytes that lay
there when it was posted, and whether the socket has sent them. -/
structure SendContext where
  buf : Nat
  len : Nat
  posted : List Byte
  transmitted : Bool
  deriving DecidableEq

inductive Call where
  | sendRequest (packetType : Int16) (payload : Payload)
  | postSend (data : List Byte)

/-- The data of a call. -/
def Call.bytes : Call → List Byte
  | .sendRequest packetType payload => packetBytes packetType payload.bytes
  | .postSend data => data

/-- The sending half of a session, with the calls that returned true, the bytes
they committed and the bytes sent on the socket. -/
structure Sender where
  mConnected : Bool
  mSendBuffer : CircularBuffer
  inFlight : List SendContext
  accepted : List Call
  committed : List Byte
  wire : List Byte

namespace Sender

/-- A connected session with an empty send buffer. -/
def start (sendBufSize : Nat) : Sender where
  mConnected := true
  mSendBuffer := .new sendBufSize
  inFlight := []
  accepted := []
  committed := []
  wire := []

/-- A new `OverlappedSendContext` for the contiguous bytes, handed to `WSASend`. -/
def wsaSend (s : Sender) : Sender :=
  let buf := s.mSendBuffer.getBufferStart.getD 0
  let len := s.mSendBuffer.getContiguiousBytes % 2 ^ 32
  { s with inFlight := s.inFlight ++ [⟨buf, len, slice s.mSendBuffer.mBuffer buf len, false⟩] }

/-- Copies `bytes` to `GetBuffer()` and commits `len` of them. -/
def store (s : Sender) (bytes : List Byte) (len : Nat) : Sender :=
  let buffer := s.mSendBuffer.write bytes
  { s with mSendBuffer := buffer.commit len
           committed := s.committed ++ slice buffer.mBuffer buffer.getBuffer len }

/-- What `SendRequest` and `PostSend` do with `bytes` of size `len`. -/
def send (s : Sender) (bytes : List Byte) (len : Nat) : Bool × Sender :=
  if s.mConnected = false then (false, s)
  else
    let query := s.mSendBuffer.getFreeSpaceSize
    if query.1 < len then (false, { s with mSendBuffer := query.2 })
    else (true, ({ s with mSendBuffer := query.2 }.store bytes len).wsaSend)

def sendRequest (s : Sender) (packetType : Int16) (payload : Payload) : Bool × Sender :=
  let totalSize := toInt (payload.bytes.length + headerSize)
  s.send (packetBytes packetType payload.bytes) (toSize totalSize)

def postSend (s : Sender) (data : List Byte) : Bool × Sender := s.send data data.length

def perform (s : Sender) : Call → Bool × Sender
  | .sendRequest packetType payload => s.sendRequest packetType payload
  | .postSend data => s.postSend data

/-- A call, recorded if it returns true. -/
def call (s : Sender) (c : Call) : Bool × Sender :=
  let r := s.perform c
  if r.1 then (true, { r.2 with accepted := r.2.accepted ++ [c] }) else r

/-- An `IO_SEND` completion: `SendCompletion`, or `DisconnectRequest` when
nothing was transferred. -/
def sendCompletion (s : Sender) (transferred : Nat) : Sender :=
  if transferred = 0 then { s with mConnected := false }
  else { s with mSendBuffer := s.mSendBuffer.remove transferred }

inductive Action where
  | call (c : Call)
  /-- The socket sends the oldest span it has not sent yet. -/
  | transmit
  /-- The completion of the `i`-th `WSASend` in flight is handled. -/
  | complete (i : Nat)

def step (s : Sender) : Action → Option Sender
  | .call c => some (s.call c).2
  | .transmit =>
    match s.inFlight.dropWhile (·.transmitted) with
    | [] => none
    | c :: later =>
      some { s with wire := s.wire ++ slice s.mSendBuffer.mBuffer c.buf c.len
                    inFlight := s.inFlight.takeWhile (·.transmitted) ++ { c with transmitted := true } :: later }
  | .complete i =>
    match s.inFlight.drop i with
    | [] => none
    | c :: later =>
      if c.transmitted then some ({ s with inFlight := s.inFlight.take i ++ later }.sendCompletion c.len) else none

end Sender

end GameServer
