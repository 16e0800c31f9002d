import GameServer.Protobuf.CodedOutputStream
import GameServer.Lib.Wire
/-!
# WireFormatLite

`wire_format_lite.h`, `wire_format_lite_inl.h` and `wire_format_lite.cc` of
protobuf: tags, the kinds of fields that the packets have, and the fields that a
parser does not know. A `float` is its 32 bits, which is how it travels.
-/

namespace GameServer

namespace Protobuf

open Lib.Wire (WireType)

def getTagWireType (tag : UInt32) : WireType := .ofBits (tag &&& 0x7).toNat

def getTagFieldNumber (tag : UInt32) : Nat := (tag >>> 3).toNat

def makeTag (fieldNumber : Nat) (type : WireType) : UInt32 :=
  UInt32.ofNat fieldNumber <<< 3 ||| UInt32.ofNat type.bits

mutual

/-- `SkipField`, in at most `n` calls. -/
def skipFieldIn : Nat → UInt32 → CodedInputStream → Result CodedInputStream
  | 0, _, _ => .error .unbounded
  | n + 1, tag, input =>
    match getTagWireType tag with
    | .varint => do
      match ← input.readVarint64 with
      | (some _, input) => pure input
      | (none, _) => .error .returnedFalse
    | .fixed64 => do
      let (_, input) ← input.readLittleEndian64
      pure input
    | .lengthDelimited => do
      let (length, input) ← input.readVarint32
      input.skip length.toInt32.toInt
    | .startGroup => do
      let input ← input.incrementRecursionDepth
      let input ← skipMessageIn n input
      let input := input.decrementRecursionDepth
      if input.lastTagWas (makeTag (getTagFieldNumber tag) .endGroup) then pure input else .error .returnedFalse
    | .fixed32 => do
      let (_, input) ← input.readLittleEndian32
      pure input
    | _ => .error .returnedFalse

/-- `SkipMessage`, in at most `n` calls and turns. -/
def skipMessageIn : Nat → CodedInputStream → Result CodedInputStream
  | 0, _ => .error .unbounded
  | n + 1, input => do
    let (tag, input) ← input.readTag
    if tag = 0 then pure input
    else if getTagWireType tag = .endGroup then pure input
    else do
      let input ← skipFieldIn n tag input
      skipMessageIn n input

end

/-- Every turn reads a tag, and every call but the first comes after one. -/
def skipField (tag : UInt32) (input : CodedInputStream) : Result CodedInputStream :=
  skipFieldIn (2 * input.bufferSize + 2) tag input

/-- `ReadPrimitive<int32, TYPE_INT32>`. -/
def readInt32 (input : CodedInputStream) : Result (Int32 × CodedInputStream) := do
  let (temp, input) ← input.readVarint32
  pure (temp.toInt32, input)

/-- `ReadPrimitive<float, TYPE_FLOAT>`. -/
def readFloat (input : CodedInputStream) : Result (UInt32 × CodedInputStream) := input.readLittleEndian32

def readString (input : CodedInputStream) : Result (List Byte × CodedInputStream) := do
  let (length, input) ← input.readVarint32
  input.readString length.toInt32.toInt

/-- `merge` is the `MergePartialFromCodedStream` of the message. -/
def readMessageNoVirtual {M : Type} (merge : CodedInputStream → M → Result (M × CodedInputStream))
    (input : CodedInputStream) (value : M) : Result (M × CodedInputStream) := do
  let (length, input) ← input.readVarint32
  let input ← input.incrementRecursionDepth
  let (limit, input) := input.pushLimit length.toInt32.toInt
  let (value, input) ← merge input value
  if input.consumedEntireMessage then pure (value, (input.popLimit limit).decrementRecursionDepth)
  else .error .returnedFalse

def writeTag (fieldNumber : Nat) (type : WireType) (output : CodedOutputStream) : CodedOutputStream :=
  output.writeTag (makeTag fieldNumber type)

def writeInt32 (fieldNumber : Nat) (value : Int32) (output : CodedOutputStream) : CodedOutputStream :=
  (writeTag fieldNumber .varint output).writeVarint32SignExtended value

def writeFloat (fieldNumber : Nat) (value : UInt32) (output : CodedOutputStream) : CodedOutputStream :=
  (writeTag fieldNumber .fixed32 output).writeLittleEndian32 value

def writeString (fieldNumber : Nat) (value : List Byte) (output : CodedOutputStream) : CodedOutputStream :=
  let output := writeTag fieldNumber .lengthDelimited output
  if value.length ≤ int32Max then (output.writeVarint32 (UInt32.ofNat value.length)).writeString value
  else { output with checkFailed := true }

/-- `size` is the message's cached size and `serialize` its `SerializeWithCachedSizes`. -/
def writeMessage (fieldNumber size : Nat) (serialize : CodedOutputStream → CodedOutputStream)
    (output : CodedOutputStream) : CodedOutputStream :=
  serialize ((writeTag fieldNumber .lengthDelimited output).writeVarint32 (UInt32.ofNat size))

def int32Size (value : Int32) : Nat := varintSize32SignExtended value

def stringSize (value : List Byte) : Nat := varintSize32 (UInt32.ofNat value.length) + value.length

def lengthDelimitedSize (length : Nat) : Nat := varintSize32 (UInt32.ofNat length) + length

end Protobuf

end GameServer
