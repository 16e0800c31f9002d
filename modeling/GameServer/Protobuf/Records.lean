import GameServer.Protobuf.Fields
import GameServer.Protobuf.MyPacket
import GameServer.Protobuf.Writes
/-!
# The records of a message

A message is written as a record for each field that is set, and a reader gets the
fields back from them. Both are proved field by field: a `Part` is a field's share of
what is written, and `setIf` its share of what is read.
-/

namespace GameServer

namespace Protobuf

open Lib
open Lib.Wire (WireType)

variable {M : Type}

def bytesOf (records : List Wire.Record) : List Byte := records.flatMap Wire.Record.encode

theorem bytesOf_append (a b : List Wire.Record) : bytesOf (a ++ b) = bytesOf a ++ bytesOf b :=
  List.flatMap_append

/-- The record of a field that may be set. -/
def recordIf {α : Type} (number : Nat) (value : α → Wire.Value) (field : Option α) : List Wire.Record :=
  field.toList.map fun v => ⟨number, value v⟩

/-- What the record of a field that may be set does to a message. -/
def setIf {α : Type} (set : α → M → M) (field : Option α) (m : M) : M := field.elim m fun v => set v m

/-- A share of a message, whose size is found to be `size`, and which `write` writes. -/
structure Part (write : CodedOutputStream → CodedOutputStream) (size : Nat) (records : List Wire.Record) : Prop where
  valid : ∀ r ∈ records, r.Valid
  length : (bytesOf records).length = size
  writes : Writes write (bytesOf records)

theorem Part.then {a b : CodedOutputStream → CodedOutputStream} {m n : Nat} {rs qs : List Wire.Record}
    (ha : Part a m rs) (hb : Part b n qs) : Part (fun output => b (a output)) (m + n) (rs ++ qs) where
  valid r hr := (List.mem_append.1 hr).elim (ha.valid r) (hb.valid r)
  length := by rw [bytesOf_append, List.length_append, ha.length, hb.length]
  writes := by
    rw [bytesOf_append]
    exact ha.writes.then hb.writes

theorem part_nil : Part id 0 [] where
  valid := by simp
  length := rfl
  writes output := (output.writeRaw_nil).symm

/-- The tags of the first 15 fields take a byte. -/
theorem tag_length {number : Nat} (h : number < 16) (type : WireType) :
    (Varint.encode (number * 8 + type.bits)).length = 1 := by
  have hbits : type.bits < 8 := by cases type <;> decide
  rw [Varint.encode_small (by omega)]
  rfl

/-- A field of one record, whose value takes `size` bytes. -/
theorem part_record {number : Nat} (hpos : 0 < number) (hlt : number < 16) {v : Wire.Value} (hv : v.Valid)
    {write : CodedOutputStream → CodedOutputStream} (hwrite : Writes write v.encode) {size : Nat}
    (hsize : v.encode.length = size) :
    Part (fun output => write (writeTag number v.wireType output)) (1 + size) [⟨number, v⟩] where
  valid := by
    intro r hr
    obtain rfl : r = ⟨number, v⟩ := by simpa using hr
    exact ⟨hpos, by simp only; omega, hv⟩
  length := by
    simp only [bytesOf, List.flatMap_cons, List.flatMap_nil, List.append_nil, Wire.Record.encode, List.length_append,
      tag_length hlt, hsize]
  writes := by
    simp only [bytesOf, List.flatMap_cons, List.flatMap_nil, List.append_nil, Wire.Record.encode]
    exact (writeTag_writes (by omega) v.wireType).then hwrite

/-- A field that is not set is not written. -/
theorem part_if {α : Type} {number : Nat} {value : α → Wire.Value} {write : α → CodedOutputStream → CodedOutputStream}
    {size : α → Nat} (field : Option α)
    (h : ∀ v, 1 + size v ≤ sizeIf size field → Part (write v) (1 + size v) [⟨number, value v⟩]) :
    Part (writeIf write field) (sizeIf size field) (recordIf number value field) := by
  cases field with
  | none => exact part_nil
  | some v => exact h v (Nat.le_refl _)

section Kinds
variable {number : Nat} (hpos : 0 < number) (hlt : number < 16)
include hpos hlt

theorem int32_part (field : Option Int32) :
    Part (writeIf (writeInt32 number) field) (sizeIf int32Size field)
      (recordIf number (fun v => .varint (extended v)) field) :=
  part_if field fun v _ =>
    part_record hpos hlt (v := .varint (extended v)) (extended_lt v) (writeSigned_writes v) (int32Size_eq v).symm

theorem float_part (field : Option UInt32) :
    Part (writeIf (writeFloat number) field) (sizeIf (fun _ => 4) field)
      (recordIf number (fun v => .fixed32 (littleEndianBytes 4 v.toNat)) field) :=
  part_if field fun v _ =>
    part_record hpos hlt (v := .fixed32 (littleEndianBytes 4 v.toNat)) (littleEndianBytes_length 4 v.toNat)
      (writeLittleEndian32_writes v) (littleEndianBytes_length 4 v.toNat)

/-- A value of `bytes` behind their number. -/
theorem delimited_part {bytes : List Byte} (hbytes : bytes.length < 2 ^ 31)
    {write : CodedOutputStream → CodedOutputStream} (hwrite : Writes write bytes) :
    Part (fun output => write ((writeTag number .lengthDelimited output).writeVarint32 (UInt32.ofNat bytes.length)))
      (1 + lengthDelimitedSize bytes.length) [⟨number, .delimited bytes⟩] := by
  have hlen : (UInt32.ofNat bytes.length).toNat = bytes.length := by
    rw [UInt32.toNat_ofNat']
    omega
  have hcount : Writes (fun output => output.writeVarint32 (UInt32.ofNat bytes.length))
      (Varint.encode bytes.length) := by
    intro output
    simp only [CodedOutputStream.writeVarint32_eq, hlen]
  have hsize : (Wire.Value.encode (.delimited bytes)).length = lengthDelimitedSize bytes.length := by
    rw [lengthDelimitedSize, varintSize32_eq, hlen]
    exact List.length_append
  exact part_record hpos hlt (v := .delimited bytes) (show bytes.length < 2 ^ 32 by omega) (hcount.then hwrite) hsize

theorem string_part (field : Option (List Byte)) (hsize : sizeIf stringSize field < 2 ^ 31) :
    Part (writeIf (writeString number) field) (sizeIf stringSize field) (recordIf number .delimited field) := by
  apply part_if
  intro v hv
  have hlen : v.length < 2 ^ 31 := by
    rw [stringSize] at hv
    omega
  have hcheck : v.length ≤ int32Max := by
    rw [int32Max]
    omega
  have hwrite : Writes (fun output => output.writeString v) v := fun output => rfl
  have heq : writeString number v = fun output =>
      ((writeTag number .lengthDelimited output).writeVarint32 (UInt32.ofNat v.length)).writeString v := by
    funext output
    rw [writeString, if_pos hcheck]
  rw [heq]
  exact delimited_part hpos hlt hlen hwrite

end Kinds

/-! ## Reading them back -/

section Fold
variable {fields : List (Field M)} {d : Nat}

/-- The bytes of some records are read as them. -/
theorem absorb_bytesOf {records : List Wire.Record} (h : ∀ r ∈ records, r.Valid) (m : M) :
    absorb fields d (bytesOf records) m = (records.foldlM (storeRecord fields d) m).map fun m => (m, true) := by
  rw [absorb, bytesOf, (Wire.whole_flatMap h (capped fields) d).scan_eq]

theorem foldlM_recordIf {α : Type} {number : Nat} {value : α → Wire.Value} {set : α → M → M} (field : Option α) (m : M)
    (h : ∀ v ∈ field, storeRecord fields d m ⟨number, value v⟩ = some (set v m)) :
    (recordIf number value field).foldlM (storeRecord fields d) m = some (setIf set field m) := by
  cases field with
  | none => rfl
  | some v =>
    have hv := h v rfl
    simp only [recordIf, Option.toList_some, List.map_cons, List.map_nil, List.foldlM_cons, List.foldlM_nil, hv]
    rfl

theorem int32_stored (fields : List (Field M)) (number : Nat) {set : Int32 → M → M}
    (hf : fieldOf fields number = some (int32Of number set))
    (field : Option Int32) (m : M) :
    (recordIf number (fun v => .varint (extended v)) field).foldlM (storeRecord fields d) m =
      some (setIf set field m) := by
  apply foldlM_recordIf
  intro v hv
  rw [storeRecord_field hf rfl]
  simp only [int32Of, extended_toInt32]

theorem float_stored (fields : List (Field M)) (number : Nat) {set : UInt32 → M → M}
    (hf : fieldOf fields number = some (floatOf number set))
    (field : Option UInt32) (m : M) :
    (recordIf number (fun v => .fixed32 (littleEndianBytes 4 v.toNat)) field).foldlM (storeRecord fields d) m =
      some (setIf set field m) := by
  apply foldlM_recordIf
  intro v hv
  have hlt : v.toNat < 256 ^ 4 := v.toNat_lt
  rw [storeRecord_field hf rfl]
  simp only [floatOf, littleEndian_bytes hlt, UInt32.ofNat_toNat]

theorem string_stored (fields : List (Field M)) (number : Nat) {set : List Byte → M → M}
    (hf : fieldOf fields number = some (stringOf number set)) (field : Option (List Byte)) (m : M) :
    (recordIf number .delimited field).foldlM (storeRecord fields d) m = some (setIf set field m) := by
  apply foldlM_recordIf
  intro v hv
  rw [storeRecord_field hf rfl]
  rfl

end Fold

end Protobuf

end GameServer
