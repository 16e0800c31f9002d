import GameServer.CircularBuffer
/-!
# CodedInputStream

`coded_stream.h`, `coded_stream_inl.h` and `coded_stream.cc` of protobuf, on the
stream of a payload: an `ArrayInputStream` hands over its whole array to the
`Refresh` in the constructor, so every later `Refresh` returns false and leaves the
buffer empty. The limits are the default ones. `GameServer.CodedInputStream` is the
little that the packet loop uses of such a stream.
-/

namespace GameServer

namespace Protobuf

/-- How a call ends that has no value. -/
inductive Failure where
  | returnedFalse
  /-- A pointer has gone past the end of what it may read. -/
  | overrun
  /-- More turns than the bound of a loop. -/
  | unbounded
  deriving DecidableEq

abbrev Result := Except Failure

/-- `kint32max`. -/
def int32Max : Nat := 2 ^ 31 - 1

def defaultTotalBytesLimit : Nat := 64 * 2 ^ 20

def defaultRecursionLimit : Nat := 100

def maxVarintBytes : Nat := 10

def maxVarint32Bytes : Nat := 5

/-- The number in the bytes of memory, on a little-endian machine. -/
def littleEndian (bytes : List Byte) : Nat := bytes.foldr (fun b n => b.toNat + 256 * n) 0

/-- `buffer` is what lies between `buffer_` and `buffer_end_`, `afterLimit` the
`buffer_size_after_limit_` bytes behind it. -/
structure CodedInputStream where
  buffer : List Byte
  afterLimit : List Byte
  totalBytesRead : Nat
  currentLimit : Nat
  lastTag : UInt32
  legitimateMessageEnd : Bool
  recursionDepth : Nat
  deriving DecidableEq

/-- What the unrolled reads of a varint come to: a result and how many bytes it
took, or a null pointer. -/
inductive FromArray (α : Type) where
  | done (result : α) (size : Nat)
  | null
  | overrun

/-- Reads byte number `i` and the ones after it until one has its top bit clear, `n`
of them at most. `put` is what the code does with a byte. -/
def unrolled {α : Type} (put : Nat → Byte → α → α) : Nat → Nat → List Byte → α → FromArray α
  | _, 0, _, _ => .null
  | _, _ + 1, [], _ => .overrun
  | i, n + 1, b :: memory, result =>
    if b &&& 0x80 = 0 then .done (put i b result) (i + 1) else unrolled put (i + 1) n memory (put i b result)

/-- The bytes after the fifth are read and discarded. -/
def putByte32 : Nat → Byte → UInt32 → UInt32
  | 0, b, _ => b.toUInt32 &&& 0x7F
  | 1, b, result => result ||| (b.toUInt32 &&& 0x7F) <<< 7
  | 2, b, result => result ||| (b.toUInt32 &&& 0x7F) <<< 14
  | 3, b, result => result ||| (b.toUInt32 &&& 0x7F) <<< 21
  | 4, b, result => result ||| b.toUInt32 <<< 28
  | _, _, result => result

def readVarint32FromArray (memory : List Byte) : FromArray UInt32 := unrolled putByte32 0 maxVarintBytes memory 0

/-- The pieces of a 64-bit varint. -/
structure Parts where
  part0 : UInt32
  part1 : UInt32
  part2 : UInt32

def putByte64 : Nat → Byte → Parts → Parts
  | 0, b, p => { p with part0 := b.toUInt32 &&& 0x7F }
  | 1, b, p => { p with part0 := p.part0 ||| (b.toUInt32 &&& 0x7F) <<< 7 }
  | 2, b, p => { p with part0 := p.part0 ||| (b.toUInt32 &&& 0x7F) <<< 14 }
  | 3, b, p => { p with part0 := p.part0 ||| (b.toUInt32 &&& 0x7F) <<< 21 }
  | 4, b, p => { p with part1 := b.toUInt32 &&& 0x7F }
  | 5, b, p => { p with part1 := p.part1 ||| (b.toUInt32 &&& 0x7F) <<< 7 }
  | 6, b, p => { p with part1 := p.part1 ||| (b.toUInt32 &&& 0x7F) <<< 14 }
  | 7, b, p => { p with part1 := p.part1 ||| (b.toUInt32 &&& 0x7F) <<< 21 }
  | 8, b, p => { p with part2 := b.toUInt32 &&& 0x7F }
  | 9, b, p => { p with part2 := p.part2 ||| (b.toUInt32 &&& 0x7F) <<< 7 }
  | _, _, p => p

def Parts.value (p : Parts) : UInt64 := p.part0.toUInt64 ||| p.part1.toUInt64 <<< 28 ||| p.part2.toUInt64 <<< 56

/-- The loop of `ReadVarint64Slow`: the value, if it has one, and the bytes it leaves. -/
def varint64Slow : Nat → UInt64 → UInt64 → List Byte → Option UInt64 × List Byte
  | 0, _, _, buffer => (none, buffer)
  | _ + 1, _, _, [] => (none, [])
  | n + 1, count, result, b :: buffer =>
    let result := result ||| (b &&& 0x7F).toUInt64 <<< (7 * count)
    if b &&& 0x80 ≠ 0 then varint64Slow n (count + 1) result buffer else (some result, buffer)

namespace CodedInputStream

def bufferSize (s : CodedInputStream) : Nat := s.buffer.length

/-- What can be read from `buffer_` on without leaving the array. -/
def memory (s : CodedInputStream) : List Byte := s.buffer ++ s.afterLimit

def currentPosition (s : CodedInputStream) : Nat := s.totalBytesRead - (s.bufferSize + s.afterLimit.length)

def advance (s : CodedInputStream) (amount : Nat) : Result CodedInputStream :=
  if amount ≤ s.bufferSize then .ok { s with buffer := s.buffer.drop amount } else .error .overrun

def recomputeBufferLimits (s : CodedInputStream) : CodedInputStream :=
  let closestLimit := min s.currentLimit defaultTotalBytesLimit
  if closestLimit < s.totalBytesRead then
    let size := s.memory.length - (s.totalBytesRead - closestLimit)
    { s with buffer := s.memory.take size, afterLimit := s.memory.drop size }
  else { s with buffer := s.memory, afterLimit := [] }

/-- The stream over an `ArrayInputStream` of `data`. -/
def ofArray (data : List Byte) : CodedInputStream :=
  recomputeBufferLimits
    { buffer := data
      afterLimit := []
      totalBytesRead := data.length
      currentLimit := int32Max
      lastTag := 0
      legitimateMessageEnd := false
      recursionDepth := 0 }

/-- The old limit, and the stream with the new one. -/
def pushLimit (s : CodedInputStream) (byteLimit : Int) : Nat × CodedInputStream :=
  let limit :=
    if 0 ≤ byteLimit ∧ byteLimit ≤ (int32Max : Int) - s.currentPosition then s.currentPosition + byteLimit.toNat
    else int32Max
  (s.currentLimit, recomputeBufferLimits { s with currentLimit := min limit s.currentLimit })

def popLimit (s : CodedInputStream) (limit : Nat) : CodedInputStream :=
  { recomputeBufferLimits { s with currentLimit := limit } with legitimateMessageEnd := false }

/-- Past the buffer there is a limit or the end of the array, and it returns false. -/
def skip (s : CodedInputStream) (count : Int) : Result CodedInputStream :=
  if count < 0 then .error .returnedFalse
  else if count ≤ s.bufferSize then s.advance count.toNat
  else .error .returnedFalse

/-- `InternalReadStringInline`, and `ReadStringFallback`, which finds nothing more. -/
def readString (s : CodedInputStream) (size : Int) : Result (List Byte × CodedInputStream) :=
  if size < 0 then .error .returnedFalse
  else if size ≤ s.bufferSize then do
    let rest ← s.advance size.toNat
    pure (s.buffer.take size.toNat, rest)
  else .error .returnedFalse

def readLittleEndian32 (s : CodedInputStream) : Result (UInt32 × CodedInputStream) :=
  if 4 ≤ s.bufferSize then do
    let rest ← s.advance 4
    pure (UInt32.ofNat (littleEndian (s.buffer.take 4)), rest)
  else .error .returnedFalse

def readLittleEndian64 (s : CodedInputStream) : Result (UInt64 × CodedInputStream) :=
  if 8 ≤ s.bufferSize then do
    let rest ← s.advance 8
    pure (UInt64.ofNat (littleEndian (s.buffer.take 8)), rest)
  else .error .returnedFalse

/-- A varint surely ends within the buffer, or is longer than any. -/
def fast (s : CodedInputStream) : Bool :=
  decide (maxVarintBytes ≤ s.bufferSize) || s.buffer.getLast?.any (· &&& 0x80 = 0)

def readVarint64Slow (s : CodedInputStream) : Option UInt64 × CodedInputStream :=
  let r := varint64Slow maxVarintBytes 0 0 s.buffer
  (r.1, { s with buffer := r.2 })

def readVarint64Fallback (s : CodedInputStream) : Result (Option UInt64 × CodedInputStream) :=
  if s.fast then
    match unrolled putByte64 0 maxVarintBytes s.memory ⟨0, 0, 0⟩ with
    | .done parts size => do
      let rest ← s.advance size
      pure (some parts.value, rest)
    | .null => .ok (none, s)
    | .overrun => .error .overrun
  else .ok s.readVarint64Slow

/-- The value, if it returns true, and the stream. -/
def readVarint64 (s : CodedInputStream) : Result (Option UInt64 × CodedInputStream) :=
  match s.buffer with
  | b :: buffer => if b < 0x80 then .ok (some b.toUInt64, { s with buffer }) else s.readVarint64Fallback
  | [] => s.readVarint64Fallback

def readVarint32Slow (s : CodedInputStream) : Result (UInt32 × CodedInputStream) := do
  match ← s.readVarint64Fallback with
  | (some result, rest) => pure (result.toUInt32, rest)
  | (none, _) => .error .returnedFalse

def readVarint32Fallback (s : CodedInputStream) : Result (UInt32 × CodedInputStream) :=
  if s.fast then
    match readVarint32FromArray s.memory with
    | .done value size => do
      let rest ← s.advance size
      pure (value, rest)
    | .null => .error .returnedFalse
    | .overrun => .error .overrun
  else s.readVarint32Slow

def readVarint32 (s : CodedInputStream) : Result (UInt32 × CodedInputStream) :=
  match s.buffer with
  | b :: buffer => if b < 0x80 then .ok (b.toUInt32, { s with buffer }) else s.readVarint32Fallback
  | [] => s.readVarint32Fallback

def readTagSlow (s : CodedInputStream) : Result (UInt32 × CodedInputStream) :=
  if s.buffer = [] then
    let currentPosition := s.totalBytesRead - s.afterLimit.length
    .ok (0, { s with legitimateMessageEnd :=
      if defaultTotalBytesLimit ≤ currentPosition then s.currentLimit == defaultTotalBytesLimit else true })
  else do
    match ← s.readVarint64 with
    | (some result, rest) => pure (result.toUInt32, rest)
    | (none, rest) => pure (0, rest)

def readTagFallback (s : CodedInputStream) : Result (UInt32 × CodedInputStream) :=
  if s.fast then
    match readVarint32FromArray s.memory with
    | .done tag size => do
      let rest ← s.advance size
      pure (tag, rest)
    | .null => .ok (0, s)
    | .overrun => .error .overrun
  else if s.buffer = [] ∧ (s.afterLimit ≠ [] ∨ s.totalBytesRead = s.currentLimit) ∧
      s.totalBytesRead - s.afterLimit.length < defaultTotalBytesLimit then
    .ok (0, { s with legitimateMessageEnd := true })
  else s.readTagSlow

/-- A tag of 0 is the end of the message, or an error. -/
def readTag (s : CodedInputStream) : Result (UInt32 × CodedInputStream) := do
  let (tag, rest) ←
    match s.buffer with
    | b :: buffer => if b < 0x80 then .ok (b.toUInt32, { s with buffer }) else s.readTagFallback
    | [] => s.readTagFallback
  pure (tag, { rest with lastTag := tag })

def lastTagWas (s : CodedInputStream) (expected : UInt32) : Bool := s.lastTag == expected

def consumedEntireMessage (s : CodedInputStream) : Bool := s.legitimateMessageEnd

/-- The stream after the tag, if the tag is there. -/
def expectTag (s : CodedInputStream) (expected : UInt32) : Option CodedInputStream :=
  if expected < 0x80 then
    match s.buffer with
    | b :: buffer => if b.toUInt32 = expected then some { s with buffer } else none
    | [] => none
  else if expected < 0x4000 then
    match s.buffer with
    | b :: c :: buffer =>
      if b = (expected ||| 0x80).toUInt8 ∧ c = (expected >>> 7).toUInt8 then some { s with buffer } else none
    | _ => none
  else none

/-- The stream as if `ReadTag` had been called, if it is known to be at its end. -/
def expectAtEnd (s : CodedInputStream) : Option CodedInputStream :=
  if s.buffer = [] ∧ (s.afterLimit ≠ [] ∨ s.totalBytesRead = s.currentLimit) then
    some { s with lastTag := 0, legitimateMessageEnd := true }
  else none

def incrementRecursionDepth (s : CodedInputStream) : Result CodedInputStream :=
  if s.recursionDepth + 1 ≤ defaultRecursionLimit then .ok { s with recursionDepth := s.recursionDepth + 1 }
  else .error .returnedFalse

def decrementRecursionDepth (s : CodedInputStream) : CodedInputStream :=
  { s with recursionDepth := s.recursionDepth - 1 }

end CodedInputStream

end Protobuf

end GameServer
