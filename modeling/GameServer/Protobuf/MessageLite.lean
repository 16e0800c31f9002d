import GameServer.Protobuf.WireFormatLite
/-!
# MessageLite

What `protoc` generates for a message, and `message_lite.cc`. A generated
`MergePartialFromCodedStream` is a loop with a `case` for each field number. From the
end of a case it jumps into the middle of the next one where `ExpectTag` finds that
field's tag. A field that has not been set is `none`; its has bit is whether it is.
-/

namespace GameServer

namespace Protobuf

open Lib.Wire (WireType)

variable {M : Type}

/-- A `case` of the loop. `expectTags` has the tags it looks for when it is done,
and the numbers of the cases that these go to; with `expectAtEnd` it returns at the
end of the message. -/
structure Case (M : Type) where
  number : Nat
  wireType : WireType
  read : CodedInputStream → M → Result (M × CodedInputStream)
  expectTags : List (UInt32 × Nat)
  expectAtEnd : Bool

def caseOf (cases : List (Case M)) (number : Nat) : Option (Case M) := cases.find? (·.number == number)

/-- The case to go to, and the stream after its tag. -/
def Case.goto (c : Case M) (input : CodedInputStream) : Option (Nat × CodedInputStream) :=
  c.expectTags.findSome? fun e => (input.expectTag e.1).map fun rest => (e.2, rest)

mutual

/-- The loop, in at most `n` turns and jumps. -/
def mergeLoop (cases : List (Case M)) : Nat → CodedInputStream → M → Result (M × CodedInputStream)
  | 0, _, _ => .error .unbounded
  | n + 1, input, m => do
    let (tag, input) ← input.readTag
    if tag = 0 then pure (m, input)
    else
      match (caseOf cases (getTagFieldNumber tag)).filter (·.wireType = getTagWireType tag) with
      | some c => mergeCase cases n c input m
      | none =>
        -- handle_uninterpreted
        if getTagWireType tag = .endGroup then pure (m, input)
        else do
          let input ← skipField tag input
          mergeLoop cases n input m

/-- A case from its label on. -/
def mergeCase (cases : List (Case M)) : Nat → Case M → CodedInputStream → M → Result (M × CodedInputStream)
  | 0, _, _, _ => .error .unbounded
  | n + 1, c, input, m => do
    let (m, input) ← c.read input m
    match c.goto input with
    | some (number, input) =>
      match caseOf cases number with
      | some next => mergeCase cases n next input m
      | none => .error .unbounded
    | none =>
      match if c.expectAtEnd then input.expectAtEnd else none with
      | some input => pure (m, input)
      | none => mergeLoop cases n input m

end

/-- Every turn and every jump comes after a tag. -/
def mergeCases (cases : List (Case M)) (input : CodedInputStream) (m : M) : Result (M × CodedInputStream) :=
  mergeLoop cases (2 * input.bufferSize + 1) input m

/-! ## What the cases read -/

def int32Field (set : Int32 → M → M) (input : CodedInputStream) (m : M) : Result (M × CodedInputStream) := do
  let (value, input) ← readInt32 input
  pure (set value m, input)

def floatField (set : UInt32 → M → M) (input : CodedInputStream) (m : M) : Result (M × CodedInputStream) := do
  let (value, input) ← readFloat input
  pure (set value m, input)

def stringField (set : List Byte → M → M) (input : CodedInputStream) (m : M) : Result (M × CodedInputStream) := do
  let (value, input) ← readString input
  pure (set value m, input)

/-- `current` is the message that is there, or a new one. -/
def messageField {S : Type} (merge : CodedInputStream → S → Result (S × CodedInputStream)) (current : M → S)
    (set : S → M → M) (input : CodedInputStream) (m : M) : Result (M × CodedInputStream) := do
  let (value, input) ← readMessageNoVirtual merge input (current m)
  pure (set value m, input)

/-- `if (has_x())` before a field is written, and before its size is added. -/
def writeIf {α : Type} (write : α → CodedOutputStream → CodedOutputStream) (field : Option α)
    (output : CodedOutputStream) : CodedOutputStream :=
  match field with
  | some value => write value output
  | none => output

def sizeIf {α : Type} (size : α → Nat) (field : Option α) : Nat :=
  match field with
  | some value => 1 + size value
  | none => 0

/-! ## The virtual functions -/

/-- `clear` is the message as `Clear` leaves it. -/
structure MessageLite (M : Type) where
  clear : M
  mergePartialFromCodedStream : CodedInputStream → M → Result (M × CodedInputStream)
  serializeWithCachedSizes : M → CodedOutputStream → CodedOutputStream
  byteSize : M → Nat
  mergeFrom : M → M → M
  isInitialized : M → Bool

namespace MessageLite

def mergeFromCodedStream (lite : MessageLite M) (input : CodedInputStream) (m : M) : Result M := do
  let (m, _) ← lite.mergePartialFromCodedStream input m
  if lite.isInitialized m then pure m else .error .returnedFalse

def parseFromCodedStream (lite : MessageLite M) (input : CodedInputStream) : Result M :=
  lite.mergeFromCodedStream input lite.clear

/-- The array of `size` bytes that it fills, unless a `GOOGLE_CHECK` fails. -/
def serializeWithCachedSizesToArray (lite : MessageLite M) (m : M) (size : Nat) : Option (List Byte) :=
  let out := lite.serializeWithCachedSizes m (.ofArray size)
  if out.checkFailed || out.hadError then none else some (out.written ++ List.replicate (size - out.written.length) 0)

/-- `ByteSize` has cached the sizes of the message and its parts. Whether it returns
true, and the stream, unless a `GOOGLE_CHECK` fails, as where the sizes before and
after differ. The check that the message is initialized is one of debug builds. -/
def serializeToCodedStream (lite : MessageLite M) (m : M) (output : CodedOutputStream) :
    Option (Bool × CodedOutputStream) :=
  let size := lite.byteSize m
  if output.getDirectBufferForNBytesAndAdvance size then
    (lite.serializeWithCachedSizesToArray m size).map fun bytes => (true, output.store bytes)
  else
    let out := lite.serializeWithCachedSizes m output
    if out.checkFailed then none
    else if out.hadError then some (false, out)
    else if out.byteCount - output.byteCount = size then some (true, out)
    else none

end MessageLite

end Protobuf

end GameServer
