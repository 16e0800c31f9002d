import GameServer.Protobuf.CodedInputStream
/-!
# CodedOutputStream

`coded_stream.h` and `coded_stream.cc` of protobuf, on a stream over an
`ArrayOutputStream`, which hands over its whole array to the `Refresh` in the
constructor, so every later `Refresh` fails. `SendRequest` writes to one such
stream, and a message to another one over its part of that array.
-/

namespace GameServer

namespace Protobuf

/-- The bytes of a number in memory, on a little-endian machine. -/
def littleEndianBytes : Nat → Nat → List Byte
  | 0, _ => []
  | k + 1, n => UInt8.ofNat n :: littleEndianBytes k (n / 256)

/-- The stream, with the bytes that are in the array so far, and whether a
`GOOGLE_CHECK` has failed, which ends the program. -/
structure CodedOutputStream where
  written : List Byte
  bufferSize : Nat
  totalBytes : Nat
  hadError : Bool
  checkFailed : Bool
  deriving DecidableEq

/-- The bytes stored from `target` on. -/
def writeVarint32FallbackToArrayInline (value : UInt32) : List Byte :=
  let target0 := (value ||| 0x80).toUInt8
  if value ≥ 0x80 then
    let target1 := (value >>> 7 ||| 0x80).toUInt8
    if value ≥ 0x4000 then
      let target2 := (value >>> 14 ||| 0x80).toUInt8
      if value ≥ 0x200000 then
        let target3 := (value >>> 21 ||| 0x80).toUInt8
        if value ≥ 0x10000000 then [target0, target1, target2, target3, (value >>> 28).toUInt8]
        else [target0, target1, target2, target3 &&& 0x7F]
      else [target0, target1, target2 &&& 0x7F]
    else [target0, target1 &&& 0x7F]
  else [target0 &&& 0x7F]

/-- The size found by the tree of comparisons. -/
def varint64Size (part0 part1 part2 : UInt32) : Nat :=
  if part2 = 0 then
    if part1 = 0 then
      if part0 < 0x4000 then
        if part0 < 0x80 then 1 else 2
      else
        if part0 < 0x200000 then 3 else 4
    else
      if part1 < 0x4000 then
        if part1 < 0x80 then 5 else 6
      else
        if part1 < 0x200000 then 7 else 8
  else
    if part2 < 0x80 then 9 else 10

/-- The bytes stored from `target` on. -/
def writeVarint64ToArrayInline (value : UInt64) : List Byte :=
  let part0 := value.toUInt32
  let part1 := (value >>> 28).toUInt32
  let part2 := (value >>> 56).toUInt32
  let size := varint64Size part0 part1 part2
  let target :=
    [(part0 ||| 0x80).toUInt8, (part0 >>> 7 ||| 0x80).toUInt8, (part0 >>> 14 ||| 0x80).toUInt8,
      (part0 >>> 21 ||| 0x80).toUInt8, (part1 ||| 0x80).toUInt8, (part1 >>> 7 ||| 0x80).toUInt8,
      (part1 >>> 14 ||| 0x80).toUInt8, (part1 >>> 21 ||| 0x80).toUInt8, (part2 ||| 0x80).toUInt8,
      (part2 >>> 7 ||| 0x80).toUInt8].take size
  target.modify (size - 1) (· &&& 0x7F)

/-- The loop of `WriteVarint32` over its `n` bytes. -/
def varintBytes32 : Nat → UInt32 → List Byte
  | 0, _ => []
  | n + 1, value =>
    if value > 0x7F then (value.toUInt8 &&& 0x7F ||| 0x80) :: varintBytes32 n (value >>> 7)
    else [value.toUInt8 &&& 0x7F]

/-- The loop of `WriteVarint64` over its `n` bytes. -/
def varintBytes64 : Nat → UInt64 → List Byte
  | 0, _ => []
  | n + 1, value =>
    if value > 0x7F then (value.toUInt8 &&& 0x7F ||| 0x80) :: varintBytes64 n (value >>> 7)
    else [value.toUInt8 &&& 0x7F]

namespace CodedOutputStream

/-- The stream over an array of `size` bytes. -/
def ofArray (size : Nat) : CodedOutputStream where
  written := []
  bufferSize := size
  totalBytes := size
  hadError := false
  checkFailed := false

/-- `bytes` stored at `buffer_`, and `Advance`. -/
def store (s : CodedOutputStream) (bytes : List Byte) : CodedOutputStream :=
  { s with written := s.written ++ bytes, bufferSize := s.bufferSize - bytes.length }

/-- What does not fit is lost when `Refresh` fails. -/
def writeRaw (s : CodedOutputStream) (data : List Byte) : CodedOutputStream :=
  if s.bufferSize < data.length then
    { s with written := s.written ++ data.take s.bufferSize, bufferSize := 0, hadError := true }
  else s.store data

/-- The stream after the next `size` bytes, if it has as many. -/
def getDirectBufferForNBytesAndAdvance (s : CodedOutputStream) (size : Nat) : Bool := size ≤ s.bufferSize

def byteCount (s : CodedOutputStream) : Nat := s.totalBytes - s.bufferSize

def writeVarint32 (s : CodedOutputStream) (value : UInt32) : CodedOutputStream :=
  if maxVarint32Bytes ≤ s.bufferSize then s.store (writeVarint32FallbackToArrayInline value)
  else s.writeRaw (varintBytes32 maxVarint32Bytes value)

def writeVarint64 (s : CodedOutputStream) (value : UInt64) : CodedOutputStream :=
  if maxVarintBytes ≤ s.bufferSize then s.store (writeVarint64ToArrayInline value)
  else s.writeRaw (varintBytes64 maxVarintBytes value)

def writeVarint32SignExtended (s : CodedOutputStream) (value : Int32) : CodedOutputStream :=
  if value < 0 then s.writeVarint64 value.toInt64.toUInt64 else s.writeVarint32 value.toUInt32

def writeTag (s : CodedOutputStream) (value : UInt32) : CodedOutputStream := s.writeVarint32 value

def writeLittleEndian32 (s : CodedOutputStream) (value : UInt32) : CodedOutputStream :=
  let bytes := littleEndianBytes 4 value.toNat
  if 4 ≤ s.bufferSize then s.store bytes else s.writeRaw bytes

def writeString (s : CodedOutputStream) (str : List Byte) : CodedOutputStream := s.writeRaw str

end CodedOutputStream

def varintSize32Fallback (value : UInt32) : Nat :=
  if value < 0x80 then 1
  else if value < 0x4000 then 2
  else if value < 0x200000 then 3
  else if value < 0x10000000 then 4
  else 5

def varintSize32 (value : UInt32) : Nat := if value < 0x80 then 1 else varintSize32Fallback value

def varintSize32SignExtended (value : Int32) : Nat := if value < 0 then 10 else varintSize32 value.toUInt32

end Protobuf

end GameServer
