import GameServer.Protobuf.MessageLite
import Mathlib.Algebra.GroupWithZero.Nat
/-!
# The packets

`MyPacket.proto`, and what `MyPacket.pb.cc` makes of it. A string is its bytes, which
nothing checks to be UTF-8, and a `float` its bits.
-/

namespace GameServer

namespace Protobuf

structure LoginRequest where
  playerid : Option Int32
  deriving DecidableEq

namespace LoginRequest

def cases : List (Case LoginRequest) :=
  [⟨1, .varint, int32Field fun v m => { m with playerid := some v }, [], true⟩]

def lite : MessageLite LoginRequest where
  clear := ⟨none⟩
  mergePartialFromCodedStream := mergeCases cases
  serializeWithCachedSizes m output := writeIf (writeInt32 1) m.playerid output
  byteSize m := sizeIf int32Size m.playerid
  mergeFrom m other := ⟨other.playerid.or m.playerid⟩
  isInitialized m := m.playerid.isSome

end LoginRequest

structure Position where
  x : Option UInt32
  y : Option UInt32
  z : Option UInt32
  deriving DecidableEq

namespace Position

def cases : List (Case Position) :=
  [⟨1, .fixed32, floatField fun v m => { m with x := some v }, [(21, 2)], false⟩,
    ⟨2, .fixed32, floatField fun v m => { m with y := some v }, [(29, 3)], false⟩,
    ⟨3, .fixed32, floatField fun v m => { m with z := some v }, [], true⟩]

def lite : MessageLite Position where
  clear := ⟨none, none, none⟩
  mergePartialFromCodedStream := mergeCases cases
  serializeWithCachedSizes m output :=
    output |> writeIf (writeFloat 1) m.x |> writeIf (writeFloat 2) m.y |> writeIf (writeFloat 3) m.z
  byteSize m := sizeIf (fun _ => 4) m.x + sizeIf (fun _ => 4) m.y + sizeIf (fun _ => 4) m.z
  mergeFrom m other := ⟨other.x.or m.x, other.y.or m.y, other.z.or m.z⟩
  isInitialized m := m.x.isSome && m.y.isSome && m.z.isSome

end Position

/-- `MergeFrom` of a field that is a message: into the one that is there, or a new one. -/
def mergeMessage {S : Type} (lite : MessageLite S) (m other : Option S) : Option S :=
  match other with
  | some value => some (lite.mergeFrom (m.getD lite.clear) value)
  | none => m

/-- `WriteMessage` of a field. -/
def writeLite {S : Type} (lite : MessageLite S) (fieldNumber : Nat) (value : S) (output : CodedOutputStream) :
    CodedOutputStream :=
  writeMessage fieldNumber (lite.byteSize value) (lite.serializeWithCachedSizes value) output

structure LoginResult where
  playerid : Option Int32
  playername : Option (List Byte)
  playerpos : Option Position
  deriving DecidableEq

namespace LoginResult

def cases : List (Case LoginResult) :=
  [⟨1, .varint, int32Field fun v m => { m with playerid := some v }, [(18, 2)], false⟩,
    ⟨2, .lengthDelimited, stringField fun v m => { m with playername := some v }, [(26, 3)], false⟩,
    ⟨3, .lengthDelimited, messageField Position.lite.mergePartialFromCodedStream
      (fun m => m.playerpos.getD Position.lite.clear) (fun v m => { m with playerpos := some v }), [], true⟩]

def lite : MessageLite LoginResult where
  clear := ⟨none, none, none⟩
  mergePartialFromCodedStream := mergeCases cases
  serializeWithCachedSizes m output :=
    output |> writeIf (writeInt32 1) m.playerid |> writeIf (writeString 2) m.playername
      |> writeIf (writeLite Position.lite 3) m.playerpos
  byteSize m :=
    sizeIf int32Size m.playerid + sizeIf stringSize m.playername
      + sizeIf (fun v => lengthDelimitedSize (Position.lite.byteSize v)) m.playerpos
  mergeFrom m other :=
    ⟨other.playerid.or m.playerid, other.playername.or m.playername,
      mergeMessage Position.lite m.playerpos other.playerpos⟩
  isInitialized m :=
    m.playerid.isSome && m.playername.isSome && m.playerpos.isSome && m.playerpos.all Position.lite.isInitialized

end LoginResult

structure ChatRequest where
  playerid : Option Int32
  playermessage : Option (List Byte)
  deriving DecidableEq

namespace ChatRequest

def cases : List (Case ChatRequest) :=
  [⟨1, .varint, int32Field fun v m => { m with playerid := some v }, [(18, 2)], false⟩,
    ⟨2, .lengthDelimited, stringField fun v m => { m with playermessage := some v }, [], true⟩]

def lite : MessageLite ChatRequest where
  clear := ⟨none, none⟩
  mergePartialFromCodedStream := mergeCases cases
  serializeWithCachedSizes m output :=
    output |> writeIf (writeInt32 1) m.playerid |> writeIf (writeString 2) m.playermessage
  byteSize m := sizeIf int32Size m.playerid + sizeIf stringSize m.playermessage
  mergeFrom m other := ⟨other.playerid.or m.playerid, other.playermessage.or m.playermessage⟩
  isInitialized m := m.playerid.isSome && m.playermessage.isSome

end ChatRequest

structure ChatResult where
  playername : Option (List Byte)
  playermessage : Option (List Byte)
  deriving DecidableEq

namespace ChatResult

def cases : List (Case ChatResult) :=
  [⟨1, .lengthDelimited, stringField fun v m => { m with playername := some v }, [(18, 2)], false⟩,
    ⟨2, .lengthDelimited, stringField fun v m => { m with playermessage := some v }, [], true⟩]

def lite : MessageLite ChatResult where
  clear := ⟨none, none⟩
  mergePartialFromCodedStream := mergeCases cases
  serializeWithCachedSizes m output :=
    output |> writeIf (writeString 1) m.playername |> writeIf (writeString 2) m.playermessage
  byteSize m := sizeIf stringSize m.playername + sizeIf stringSize m.playermessage
  mergeFrom m other := ⟨other.playername.or m.playername, other.playermessage.or m.playermessage⟩
  isInitialized m := m.playername.isSome && m.playermessage.isSome

end ChatResult

/-- `MoveRequest`; `MoveResult` is generated from the same fields. -/
structure MoveRequest where
  playerid : Option Int32
  playerpos : Option Position
  deriving DecidableEq

namespace MoveRequest

def cases : List (Case MoveRequest) :=
  [⟨1, .varint, int32Field fun v m => { m with playerid := some v }, [(18, 2)], false⟩,
    ⟨2, .lengthDelimited, messageField Position.lite.mergePartialFromCodedStream
      (fun m => m.playerpos.getD Position.lite.clear) (fun v m => { m with playerpos := some v }), [], true⟩]

def lite : MessageLite MoveRequest where
  clear := ⟨none, none⟩
  mergePartialFromCodedStream := mergeCases cases
  serializeWithCachedSizes m output :=
    output |> writeIf (writeInt32 1) m.playerid |> writeIf (writeLite Position.lite 2) m.playerpos
  byteSize m :=
    sizeIf int32Size m.playerid + sizeIf (fun v => lengthDelimitedSize (Position.lite.byteSize v)) m.playerpos
  mergeFrom m other :=
    ⟨other.playerid.or m.playerid, mergeMessage Position.lite m.playerpos other.playerpos⟩
  isInitialized m := m.playerid.isSome && m.playerpos.isSome && m.playerpos.all Position.lite.isInitialized

end MoveRequest

abbrev MoveResult := MoveRequest

structure Depth where
  count : Option Int32
  qty : Option Int32
  price : Option UInt32
  deriving DecidableEq

namespace Depth

def cases : List (Case Depth) :=
  [⟨1, .varint, int32Field fun v m => { m with count := some v }, [(16, 2)], false⟩,
    ⟨2, .varint, int32Field fun v m => { m with qty := some v }, [(29, 3)], false⟩,
    ⟨3, .fixed32, floatField fun v m => { m with price := some v }, [], true⟩]

def lite : MessageLite Depth where
  clear := ⟨none, none, none⟩
  mergePartialFromCodedStream := mergeCases cases
  serializeWithCachedSizes m output :=
    output |> writeIf (writeInt32 1) m.count |> writeIf (writeInt32 2) m.qty |> writeIf (writeFloat 3) m.price
  byteSize m := sizeIf int32Size m.count + sizeIf int32Size m.qty + sizeIf (fun _ => 4) m.price
  mergeFrom m other := ⟨other.count.or m.count, other.qty.or m.qty, other.price.or m.price⟩
  isInitialized m := m.count.isSome && m.qty.isSome && m.price.isSome

end Depth

structure Feed where
  productcode : Option (List Byte)
  biddepth : List Depth
  askdepth : List Depth
  deriving DecidableEq

namespace Feed

def cases : List (Case Feed) :=
  [⟨1, .lengthDelimited, stringField fun v m => { m with productcode := some v }, [(18, 2)], false⟩,
    ⟨2, .lengthDelimited, messageField Depth.lite.mergePartialFromCodedStream (fun _ => Depth.lite.clear)
      (fun v m => { m with biddepth := m.biddepth ++ [v] }), [(18, 2), (26, 3)], false⟩,
    ⟨3, .lengthDelimited, messageField Depth.lite.mergePartialFromCodedStream (fun _ => Depth.lite.clear)
      (fun v m => { m with askdepth := m.askdepth ++ [v] }), [(26, 3)], true⟩]

/-- The loop over a repeated field. -/
def writeDepths (fieldNumber : Nat) (depths : List Depth) (output : CodedOutputStream) : CodedOutputStream :=
  depths.foldl (fun output d => writeLite Depth.lite fieldNumber d output) output

def depthsSize (depths : List Depth) : Nat :=
  1 * depths.length + (depths.map fun d => lengthDelimitedSize (Depth.lite.byteSize d)).sum

def lite : MessageLite Feed where
  clear := ⟨none, [], []⟩
  mergePartialFromCodedStream := mergeCases cases
  serializeWithCachedSizes m output :=
    output |> writeIf (writeString 1) m.productcode |> writeDepths 2 m.biddepth |> writeDepths 3 m.askdepth
  byteSize m := sizeIf stringSize m.productcode + depthsSize m.biddepth + depthsSize m.askdepth
  mergeFrom m other :=
    ⟨other.productcode.or m.productcode, m.biddepth ++ other.biddepth, m.askdepth ++ other.askdepth⟩
  isInitialized m :=
    m.productcode.isSome && m.biddepth.all Depth.lite.isInitialized && m.askdepth.all Depth.lite.isInitialized

end Feed

structure ServerStatus where
  sessioncount : Option Int32
  deriving DecidableEq

namespace ServerStatus

def cases : List (Case ServerStatus) :=
  [⟨1, .varint, int32Field fun v m => { m with sessioncount := some v }, [], true⟩]

def lite : MessageLite ServerStatus where
  clear := ⟨none⟩
  mergePartialFromCodedStream := mergeCases cases
  serializeWithCachedSizes m output := writeIf (writeInt32 1) m.sessioncount output
  byteSize m := sizeIf int32Size m.sessioncount
  mergeFrom m other := ⟨other.sessioncount.or m.sessioncount⟩
  isInitialized m := m.sessioncount.isSome

end ServerStatus

structure Order where
  ordernumber : Option Int32
  orderqty : Option Int32
  orderprice : Option UInt32
  productcode : Option (List Byte)
  deriving DecidableEq

namespace Order

def cases : List (Case Order) :=
  [⟨1, .varint, int32Field fun v m => { m with ordernumber := some v }, [(16, 2)], false⟩,
    ⟨2, .varint, int32Field fun v m => { m with orderqty := some v }, [(29, 3)], false⟩,
    ⟨3, .fixed32, floatField fun v m => { m with orderprice := some v }, [(34, 4)], false⟩,
    ⟨4, .lengthDelimited, stringField fun v m => { m with productcode := some v }, [], true⟩]

def lite : MessageLite Order where
  clear := ⟨none, none, none, none⟩
  mergePartialFromCodedStream := mergeCases cases
  serializeWithCachedSizes m output :=
    output |> writeIf (writeInt32 1) m.ordernumber |> writeIf (writeInt32 2) m.orderqty
      |> writeIf (writeFloat 3) m.orderprice |> writeIf (writeString 4) m.productcode
  byteSize m :=
    sizeIf int32Size m.ordernumber + sizeIf int32Size m.orderqty + sizeIf (fun _ => 4) m.orderprice
      + sizeIf stringSize m.productcode
  mergeFrom m other :=
    ⟨other.ordernumber.or m.ordernumber, other.orderqty.or m.orderqty, other.orderprice.or m.orderprice,
      other.productcode.or m.productcode⟩
  isInitialized m := m.ordernumber.isSome && m.orderqty.isSome && m.orderprice.isSome && m.productcode.isSome

end Order

/-- The classes of `MyPacket.pb.h`. -/
inductive MyPacket where
  | loginRequest | loginResult | position | chatRequest | chatResult | moveRequest | moveResult | depth | feed
  | serverStatus | order

namespace MyPacket

def Message : MyPacket → Type
  | .loginRequest => LoginRequest
  | .loginResult => LoginResult
  | .position => Position
  | .chatRequest => ChatRequest
  | .chatResult => ChatResult
  | .moveRequest => MoveRequest
  | .moveResult => MoveResult
  | .depth => Depth
  | .feed => Feed
  | .serverStatus => ServerStatus
  | .order => Order

def lite : (p : MyPacket) → MessageLite p.Message
  | .loginRequest => LoginRequest.lite
  | .loginResult => LoginResult.lite
  | .position => Position.lite
  | .chatRequest => ChatRequest.lite
  | .chatResult => ChatResult.lite
  | .moveRequest => MoveRequest.lite
  | .moveResult => MoveRequest.lite
  | .depth => Depth.lite
  | .feed => Feed.lite
  | .serverStatus => ServerStatus.lite
  | .order => Order.lite

/-- The `case`s of its `MergePartialFromCodedStream`. -/
def cases : (p : MyPacket) → List (Case p.Message)
  | .loginRequest => LoginRequest.cases
  | .loginResult => LoginResult.cases
  | .position => Position.cases
  | .chatRequest => ChatRequest.cases
  | .chatResult => ChatResult.cases
  | .moveRequest => MoveRequest.cases
  | .moveResult => MoveRequest.cases
  | .depth => Depth.cases
  | .feed => Feed.cases
  | .serverStatus => ServerStatus.cases
  | .order => Order.cases

end MyPacket

end Protobuf

end GameServer
