import GameServer.Protobuf.Records
/-!
# The classes of messages

For each class the fields of its parser and the records of its writer, with what ties
them to the generated code and to each other.
-/

namespace GameServer

namespace Protobuf

open Lib
open Lib.Wire (WireType)

variable {M S : Type}

/-- What a class is to a reader and to a writer. `depth` messages are nested in one
another in it. -/
structure Described (cases : List (Case M)) (lite : MessageLite M) where
  fields : List (Field M)
  depth : Nat
  records : M → List Wire.Record
  merge : lite.mergePartialFromCodedStream = mergeCases cases
  reads : List.Forall₂ Case.Reads cases fields
  linked : Linked cases
  part : ∀ m, lite.byteSize m < 2 ^ 31 → Part (lite.serializeWithCachedSizes m) (lite.byteSize m) (records m)
  stored : ∀ d a m, depth ≤ d → lite.byteSize m < 2 ^ 31 →
    (records m).foldlM (storeRecord fields d) a = some (lite.mergeFrom a m)
  mergeFrom_clear : ∀ m, lite.mergeFrom lite.clear m = m

theorem Described.merges {cases : List (Case M)} {lite : MessageLite M} (desc : Described cases lite)
    (s : CodedInputStream) (m : M) (hs : s.Ready) :
    Merges s (lite.mergePartialFromCodedStream s m) (absorb desc.fields s.allowance s.buffer m) := by
  rw [desc.merge]
  exact mergeCases_eq desc.reads desc.linked hs m

/-! ## Fields that are messages -/

section Inner
variable {cases : List (Case S)} {lite : MessageLite S} (inner : Described cases lite) {number : Nat}

def innerRecord (number : Nat) (v : S) : Wire.Record := ⟨number, .delimited (bytesOf (inner.records v))⟩

theorem inner_part (hpos : 0 < number) (hlt : number < 16) (v : S)
    (hsize : 1 + lengthDelimitedSize (lite.byteSize v) < 2 ^ 31) :
    Part (writeLite lite number v) (1 + lengthDelimitedSize (lite.byteSize v)) [innerRecord inner number v] := by
  have hv : lite.byteSize v < 2 ^ 31 := by
    rw [lengthDelimitedSize] at hsize
    omega
  have hpart := inner.part v hv
  have h := delimited_part hpos hlt (hpart.length ▸ hv) hpart.writes
  rwa [hpart.length] at h

theorem message_part (hpos : 0 < number) (hlt : number < 16) (field : Option S)
    (hsize : sizeIf (fun v => lengthDelimitedSize (lite.byteSize v)) field < 2 ^ 31) :
    Part (writeIf (writeLite lite number) field) (sizeIf (fun v => lengthDelimitedSize (lite.byteSize v)) field)
      (recordIf number (fun v => .delimited (bytesOf (inner.records v))) field) :=
  part_if field fun v hv => inner_part inner hpos hlt v (by omega)

variable {fields : List (Field M)} {d : Nat} {current : M → S} {set : S → M → M}

theorem inner_stored (hf : fieldOf fields number = some (messageOf inner.fields number current set))
    (hd : inner.depth + 1 ≤ d) (v : S) (hsize : lite.byteSize v < 2 ^ 31) (m : M) :
    storeRecord fields d m (innerRecord inner number v) = some (set (lite.mergeFrom (current m) v) m) := by
  obtain ⟨d, rfl⟩ : ∃ k, d = k + 1 := ⟨d - 1, by omega⟩
  rw [storeRecord_field hf rfl]
  simp only [messageOf, innerRecord, absorb_bytesOf (inner.part v hsize).valid, inner.stored d (current m) v (by omega) hsize]
  rfl

theorem message_stored (fields : List (Field M)) (number : Nat)
    (hf : fieldOf fields number = some (messageOf inner.fields number current set))
    (hd : inner.depth + 1 ≤ d) (field : Option S)
    (hsize : sizeIf (fun v => lengthDelimitedSize (lite.byteSize v)) field < 2 ^ 31) (m : M) :
    (recordIf number (fun v => .delimited (bytesOf (inner.records v))) field).foldlM (storeRecord fields d) m =
      some (setIf (fun v m => set (lite.mergeFrom (current m) v) m) field m) := by
  apply foldlM_recordIf
  intro v hv
  rw [hv, sizeIf, lengthDelimitedSize] at hsize
  exact inner_stored inner hf hd v (by omega) m

end Inner

/-! ## The classes -/

namespace LoginRequest

def fields : List (Field LoginRequest) := [int32Of 1 fun v m => { m with playerid := some v }]

def described : Described cases lite where
  fields := fields
  depth := 0
  records m := recordIf 1 (fun v => .varint (extended v)) m.playerid
  merge := rfl
  reads := .cons (int32Field_reads ..) .nil
  linked := by decide
  part m _ := int32_part (by decide) (by decide) m.playerid
  stored d a m _ _ := by
    rw [int32_stored fields 1 rfl]
    obtain ⟨playerid⟩ := m
    cases playerid <;> rfl
  mergeFrom_clear m := by simp [lite]

end LoginRequest

namespace Position

def fields : List (Field Position) :=
  [floatOf 1 fun v m => { m with x := some v }, floatOf 2 fun v m => { m with y := some v },
    floatOf 3 fun v m => { m with z := some v }]

def described : Described cases lite where
  fields := fields
  depth := 0
  records m :=
    recordIf 1 (fun v => .fixed32 (littleEndianBytes 4 v.toNat)) m.x ++
      recordIf 2 (fun v => .fixed32 (littleEndianBytes 4 v.toNat)) m.y ++
      recordIf 3 (fun v => .fixed32 (littleEndianBytes 4 v.toNat)) m.z
  merge := rfl
  reads := .cons (floatField_reads ..) (.cons (floatField_reads ..) (.cons (floatField_reads ..) .nil))
  linked := by decide
  part m _ :=
    ((float_part (by decide) (by decide) m.x).then (float_part (by decide) (by decide) m.y)).then
      (float_part (by decide) (by decide) m.z)
  stored d a m _ _ := by
    simp only [List.foldlM_append, float_stored fields 1 rfl,
      float_stored fields 2 rfl, float_stored fields 3 rfl]
    obtain ⟨x, y, z⟩ := m
    cases x <;> cases y <;> cases z <;> rfl
  mergeFrom_clear m := by simp [lite]

end Position

namespace LoginResult

def fields : List (Field LoginResult) :=
  [int32Of 1 fun v m => { m with playerid := some v }, stringOf 2 fun v m => { m with playername := some v },
    messageOf Position.fields 3 (fun m => m.playerpos.getD Position.lite.clear)
      fun v m => { m with playerpos := some v }]

def described : Described cases lite where
  fields := fields
  depth := 1
  records m :=
    recordIf 1 (fun v => .varint (extended v)) m.playerid ++ recordIf 2 .delimited m.playername ++
      recordIf 3 (fun v => .delimited (bytesOf (Position.described.records v))) m.playerpos
  merge := rfl
  reads := .cons (int32Field_reads ..) (.cons (stringField_reads ..)
      (.cons (messageField_reads Position.described.merges ..) .nil))
  linked := by decide
  part m h := by
    simp only [lite] at h
    exact ((int32_part (by decide) (by decide) m.playerid).then
      (string_part (by decide) (by decide) m.playername (by omega))).then
        (message_part Position.described (by decide) (by decide) m.playerpos (by omega))
  stored d a m hd h := by
    simp only [lite] at h
    simp only [List.foldlM_append, int32_stored fields 1 rfl,
      string_stored fields 2 rfl]
    simp only [Option.bind_eq_bind, Option.bind_some,
      message_stored Position.described fields 3 rfl hd m.playerpos (by omega)]
    obtain ⟨playerid, playername, playerpos⟩ := m
    cases playerid <;> cases playername <;> cases playerpos <;> rfl
  mergeFrom_clear m := by
    obtain ⟨playerid, playername, playerpos⟩ := m
    cases playerpos <;> simp [lite, mergeMessage, Position.described.mergeFrom_clear]

end LoginResult

namespace ChatRequest

def fields : List (Field ChatRequest) :=
  [int32Of 1 fun v m => { m with playerid := some v }, stringOf 2 fun v m => { m with playermessage := some v }]

def described : Described cases lite where
  fields := fields
  depth := 0
  records m := recordIf 1 (fun v => .varint (extended v)) m.playerid ++ recordIf 2 .delimited m.playermessage
  merge := rfl
  reads := .cons (int32Field_reads ..) (.cons (stringField_reads ..) .nil)
  linked := by decide
  part m h := by
    simp only [lite] at h
    exact (int32_part (by decide) (by decide) m.playerid).then
      (string_part (by decide) (by decide) m.playermessage (by omega))
  stored d a m _ _ := by
    simp only [List.foldlM_append, int32_stored fields 1 rfl,
      string_stored fields 2 rfl]
    obtain ⟨playerid, playermessage⟩ := m
    cases playerid <;> cases playermessage <;> rfl
  mergeFrom_clear m := by simp [lite]

end ChatRequest

namespace ChatResult

def fields : List (Field ChatResult) :=
  [stringOf 1 fun v m => { m with playername := some v }, stringOf 2 fun v m => { m with playermessage := some v }]

def described : Described cases lite where
  fields := fields
  depth := 0
  records m := recordIf 1 .delimited m.playername ++ recordIf 2 .delimited m.playermessage
  merge := rfl
  reads := .cons (stringField_reads ..) (.cons (stringField_reads ..) .nil)
  linked := by decide
  part m h := by
    simp only [lite] at h
    exact (string_part (by decide) (by decide) m.playername (by omega)).then
      (string_part (by decide) (by decide) m.playermessage (by omega))
  stored d a m _ _ := by
    simp only [List.foldlM_append, string_stored fields 1 rfl,
      string_stored fields 2 rfl]
    obtain ⟨playername, playermessage⟩ := m
    cases playername <;> cases playermessage <;> rfl
  mergeFrom_clear m := by simp [lite]

end ChatResult

namespace MoveRequest

def fields : List (Field MoveRequest) :=
  [int32Of 1 fun v m => { m with playerid := some v },
    messageOf Position.fields 2 (fun m => m.playerpos.getD Position.lite.clear)
      fun v m => { m with playerpos := some v }]

def described : Described cases lite where
  fields := fields
  depth := 1
  records m :=
    recordIf 1 (fun v => .varint (extended v)) m.playerid ++
      recordIf 2 (fun v => .delimited (bytesOf (Position.described.records v))) m.playerpos
  merge := rfl
  reads := .cons (int32Field_reads ..) (.cons (messageField_reads Position.described.merges ..) .nil)
  linked := by decide
  part m h := by
    simp only [lite] at h
    exact (int32_part (by decide) (by decide) m.playerid).then
      (message_part Position.described (by decide) (by decide) m.playerpos (by omega))
  stored d a m hd h := by
    simp only [lite] at h
    simp only [List.foldlM_append, int32_stored fields 1 rfl]
    simp only [Option.bind_eq_bind, Option.bind_some,
      message_stored Position.described fields 2 rfl hd m.playerpos (by omega)]
    obtain ⟨playerid, playerpos⟩ := m
    cases playerid <;> cases playerpos <;> rfl
  mergeFrom_clear m := by
    obtain ⟨playerid, playerpos⟩ := m
    cases playerpos <;> simp [lite, mergeMessage, Position.described.mergeFrom_clear]

end MoveRequest

namespace Depth

def fields : List (Field Depth) :=
  [int32Of 1 fun v m => { m with count := some v }, int32Of 2 fun v m => { m with qty := some v },
    floatOf 3 fun v m => { m with price := some v }]

def described : Described cases lite where
  fields := fields
  depth := 0
  records m :=
    recordIf 1 (fun v => .varint (extended v)) m.count ++ recordIf 2 (fun v => .varint (extended v)) m.qty ++
      recordIf 3 (fun v => .fixed32 (littleEndianBytes 4 v.toNat)) m.price
  merge := rfl
  reads := .cons (int32Field_reads ..) (.cons (int32Field_reads ..) (.cons (floatField_reads ..) .nil))
  linked := by decide
  part m _ :=
    ((int32_part (by decide) (by decide) m.count).then (int32_part (by decide) (by decide) m.qty)).then
      (float_part (by decide) (by decide) m.price)
  stored d a m _ _ := by
    simp only [List.foldlM_append, int32_stored fields 1 rfl,
      int32_stored fields 2 rfl, float_stored fields 3 rfl]
    obtain ⟨count, qty, price⟩ := m
    cases count <;> cases qty <;> cases price <;> rfl
  mergeFrom_clear m := by simp [lite]

end Depth

namespace Feed

def fields : List (Field Feed) :=
  [stringOf 1 fun v m => { m with productcode := some v },
    messageOf Depth.fields 2 (fun _ => Depth.lite.clear) fun v m => { m with biddepth := m.biddepth ++ [v] },
    messageOf Depth.fields 3 (fun _ => Depth.lite.clear) fun v m => { m with askdepth := m.askdepth ++ [v] }]

theorem depthsSize_cons (d : Depth) (depths : List Depth) :
    depthsSize (d :: depths) = 1 + lengthDelimitedSize (Depth.lite.byteSize d) + depthsSize depths := by
  simp only [depthsSize, List.length_cons, List.map_cons, List.sum_cons]
  omega

theorem depths_part {number : Nat} (hpos : 0 < number) (hlt : number < 16) (depths : List Depth)
    (hsize : depthsSize depths < 2 ^ 31) :
    Part (writeDepths number depths) (depthsSize depths) (depths.map (innerRecord Depth.described number)) := by
  induction depths with
  | nil => exact part_nil
  | cons d depths ih =>
    rw [depthsSize_cons] at hsize ⊢
    exact (inner_part Depth.described hpos hlt d (by omega)).then (ih (by omega))

/-- Each is added behind the others. -/
theorem depths_stored (number : Nat) {add : Depth → Feed → Feed}
    (hf : fieldOf fields number = some (messageOf Depth.fields number (fun _ => Depth.lite.clear) add)) {d : Nat}
    (hd : 1 ≤ d) (depths : List Depth) (hsize : depthsSize depths < 2 ^ 31) (m : Feed) :
    (depths.map (innerRecord Depth.described number)).foldlM (storeRecord fields d) m =
      some (depths.foldl (fun m v => add v m) m) := by
  induction depths generalizing m with
  | nil => rfl
  | cons v depths ih =>
    rw [depthsSize_cons, lengthDelimitedSize] at hsize
    have hv := inner_stored Depth.described hf hd v (by omega) m
    rw [Depth.described.mergeFrom_clear] at hv
    rw [List.map_cons, List.foldlM_cons, hv]
    exact ih (by omega) (add v m)

theorem foldl_biddepth (depths : List Depth) (m : Feed) :
    depths.foldl (fun m v => { m with biddepth := m.biddepth ++ [v] }) m =
      { m with biddepth := m.biddepth ++ depths } := by
  induction depths generalizing m with
  | nil => simp
  | cons v depths ih => simp [ih]

theorem foldl_askdepth (depths : List Depth) (m : Feed) :
    depths.foldl (fun m v => { m with askdepth := m.askdepth ++ [v] }) m =
      { m with askdepth := m.askdepth ++ depths } := by
  induction depths generalizing m with
  | nil => simp
  | cons v depths ih => simp [ih]

def described : Described cases lite where
  fields := fields
  depth := 1
  records m :=
    recordIf 1 .delimited m.productcode ++ m.biddepth.map (innerRecord Depth.described 2) ++
      m.askdepth.map (innerRecord Depth.described 3)
  merge := rfl
  reads := .cons (stringField_reads ..) (.cons (messageField_reads Depth.described.merges ..)
      (.cons (messageField_reads Depth.described.merges ..) .nil))
  linked := by decide
  part m h := by
    simp only [lite] at h
    exact ((string_part (by decide) (by decide) m.productcode (by omega)).then
      (depths_part (by decide) (by decide) m.biddepth (by omega))).then
        (depths_part (by decide) (by decide) m.askdepth (by omega))
  stored d a m hd h := by
    simp only [lite] at h
    simp only [List.foldlM_append, string_stored fields 1 rfl]
    simp only [Option.bind_eq_bind, Option.bind_some, depths_stored 2 rfl hd m.biddepth (by omega),
      depths_stored 3 rfl hd m.askdepth (by omega), foldl_biddepth, foldl_askdepth]
    obtain ⟨productcode, biddepth, askdepth⟩ := m
    cases productcode <;> rfl
  mergeFrom_clear m := by simp [lite]

end Feed

namespace ServerStatus

def fields : List (Field ServerStatus) := [int32Of 1 fun v m => { m with sessioncount := some v }]

def described : Described cases lite where
  fields := fields
  depth := 0
  records m := recordIf 1 (fun v => .varint (extended v)) m.sessioncount
  merge := rfl
  reads := .cons (int32Field_reads ..) .nil
  linked := by decide
  part m _ := int32_part (by decide) (by decide) m.sessioncount
  stored d a m _ _ := by
    rw [int32_stored fields 1 rfl]
    obtain ⟨sessioncount⟩ := m
    cases sessioncount <;> rfl
  mergeFrom_clear m := by simp [lite]

end ServerStatus

namespace Order

def fields : List (Field Order) :=
  [int32Of 1 fun v m => { m with ordernumber := some v }, int32Of 2 fun v m => { m with orderqty := some v },
    floatOf 3 fun v m => { m with orderprice := some v }, stringOf 4 fun v m => { m with productcode := some v }]

def described : Described cases lite where
  fields := fields
  depth := 0
  records m :=
    recordIf 1 (fun v => .varint (extended v)) m.ordernumber ++
      recordIf 2 (fun v => .varint (extended v)) m.orderqty ++
      recordIf 3 (fun v => .fixed32 (littleEndianBytes 4 v.toNat)) m.orderprice ++
      recordIf 4 .delimited m.productcode
  merge := rfl
  reads := .cons (int32Field_reads ..) (.cons (int32Field_reads ..) (.cons (floatField_reads ..)
      (.cons (stringField_reads ..) .nil)))
  linked := by decide
  part m h := by
    simp only [lite] at h
    exact (((int32_part (by decide) (by decide) m.ordernumber).then
      (int32_part (by decide) (by decide) m.orderqty)).then
        (float_part (by decide) (by decide) m.orderprice)).then
          (string_part (by decide) (by decide) m.productcode (by omega))
  stored d a m _ _ := by
    simp only [List.foldlM_append, int32_stored fields 1 rfl,
      int32_stored fields 2 rfl, float_stored fields 3 rfl,
      string_stored fields 4 rfl]
    obtain ⟨ordernumber, orderqty, orderprice, productcode⟩ := m
    cases ordernumber <;> cases orderqty <;> cases orderprice <;> cases productcode <;> rfl
  mergeFrom_clear m := by simp [lite]

end Order

namespace MyPacket

def described : (p : MyPacket) → Described p.cases p.lite
  | .loginRequest => LoginRequest.described
  | .loginResult => LoginResult.described
  | .position => Position.described
  | .chatRequest => ChatRequest.described
  | .chatResult => ChatResult.described
  | .moveRequest => MoveRequest.described
  | .moveResult => MoveRequest.described
  | .depth => Depth.described
  | .feed => Feed.described
  | .serverStatus => ServerStatus.described
  | .order => Order.described

theorem depth_le (p : MyPacket) : p.described.depth ≤ 1 := by
  cases p <;> decide

end MyPacket

end Protobuf

end GameServer
