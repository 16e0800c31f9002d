import GameServer.PacketInterface
/-!
# The packet loop

`ClientSession::OnReceive` of Homework7 and `DummyClientSession::OnReceive`,
which are the same code, over the part of `CodedInputStream` they use. The
stream is a pair of pointers into the live receive buffer: `Remove` may move
bytes under it.
-/

namespace GameServer

open Lib

/-- A `size_t` passed as `int`. -/
def toInt (n : Nat) : Int := Int.bmod n (2 ^ 32)

/-- An `int` passed as `size_t`. -/
def toSize (x : Int) : Nat := (x % sizeMod).toNat

/-- `CodedInputStream` over an `ArrayInputStream`, which hands over its whole
array in the constructor's `Refresh`. Offsets are from the buffer's allocation. -/
structure CodedInputStream where
  buffer : Nat
  bufferEnd : Nat
  deriving DecidableEq

namespace CodedInputStream

/-- After a failed `Refresh`. -/
def null : CodedInputStream := ⟨0, 0⟩

def ofArray (data : Option Nat) (size : Int) : CodedInputStream :=
  match data with
  | some p => if 0 < size then ⟨p, p + size.toNat⟩ else null
  | none => null

def bufferSize (s : CodedInputStream) : Nat := s.bufferEnd - s.buffer

def advance (s : CodedInputStream) (amount : Nat) : CodedInputStream := { s with buffer := s.buffer + amount }

@[simp] theorem bufferSize_null : null.bufferSize = 0 := rfl

@[simp] theorem bufferSize_advance (s : CodedInputStream) (n : Nat) : (s.advance n).bufferSize = s.bufferSize - n := by
  simp [bufferSize, advance, Nat.sub_add_eq]

/-- The bytes copied, unless the stream ends before `size`. -/
def readRaw (s : CodedInputStream) (memory : List Byte) (size : Nat) : Option (List Byte) × CodedInputStream :=
  if s.bufferSize < size then (none, null) else (some (slice memory s.buffer size), s.advance size)

def getDirectBufferPointer (s : CodedInputStream) : Option (Nat × Nat) × CodedInputStream :=
  if s.bufferSize = 0 then (none, null) else (some (s.buffer, s.bufferSize), s)

def skip (s : CodedInputStream) (count : Int) : Bool × CodedInputStream :=
  if count < 0 then (false, s)
  else if count ≤ s.bufferSize then (true, s.advance count.toNat)
  else (false, null)

end CodedInputStream

/-- One call of a packet handler: the header, the bytes of its payload stream,
and what the loop then took off the input stream and off the buffer. -/
structure Dispatch where
  mSize : Int16
  mType : Int16
  payload : List Byte
  consumed : Nat
  removed : Nat
  deriving DecidableEq

/-- What one turn of the loop comes to. -/
inductive Turn where
  | stop (disconnect : Bool)
  | dispatch (d : Dispatch) (buffer : CircularBuffer) (stream : CodedInputStream)

/-- One turn of the loop. The handlers leave the receive buffer alone. -/
def turn (b : CircularBuffer) (s : CodedInputStream) : Turn :=
  let header := s.readRaw b.mBuffer headerSize
  match header.1 with
  | none => .stop false
  | some bytes =>
    let packetheader := readHeader bytes
    let direct := header.2.getDirectBufferPointer
    -- the pointer and the size stay null and 0 at the end of the stream
    let payloadPos := (direct.1.map Prod.fst).getD 0
    let payloadSize := (direct.1.map Prod.snd).getD 0
    if (payloadSize : Int) < packetheader.mSize.toInt then .stop false
    else if packetheader.mType.toInt ≥ maxPktType ∨ packetheader.mType.toInt ≤ 0 then .stop true
    else
      let stream := (direct.2.skip packetheader.mSize.toInt).2
      let buffer := b.remove (toSize (headerSize + packetheader.mSize.toInt))
      .dispatch
        { mSize := packetheader.mSize
          mType := packetheader.mType
          payload := slice b.mBuffer payloadPos packetheader.mSize.toInt.toNat
          consumed := s.bufferSize - stream.bufferSize
          removed := b.getStoredSize - buffer.getStoredSize }
        buffer stream

/-- The receive buffer after `OnReceive`, the handler calls it made, and whether
it asked for a disconnect. -/
structure Received where
  mRecvBuffer : CircularBuffer
  dispatched : List Dispatch
  disconnect : Bool

/-- `ds` dispatched before what `r` dispatched. -/
def Received.prepend (ds : List Dispatch) (r : Received) : Received := { r with dispatched := ds ++ r.dispatched }

/-- The loop, for at most as many turns as the stream has bytes: each turn that
goes on reads a header. -/
def loop : Nat → CircularBuffer → CodedInputStream → Received
  | 0, b, _ => ⟨b, [], false⟩
  | n + 1, b, s =>
    match turn b s with
    | .stop disconnect => ⟨b, [], disconnect⟩
    | .dispatch d b' s' => (loop n b' s').prepend [d]

def onReceive (b : CircularBuffer) : Received :=
  let s := CodedInputStream.ofArray b.getBufferStart (toInt b.getContiguiousBytes)
  loop s.bufferSize b s

end GameServer
