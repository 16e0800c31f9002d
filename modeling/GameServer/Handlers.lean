import GameServer.Session
import GameServer.Protobuf.RoundTrip
/-!
# The packet handlers

`PacketHandling.cpp` of Homework7 and `PacketHandler.cpp` of DummyClients. A handler
parses its payload stream and asks the session for one thing at most. What it prints
is left out.
-/

namespace GameServer

open Protobuf (MessageLite)

/-- `MessageType` of `MyPacket.proto`. -/
inductive MessageType where
  | pktCsLogin | pktScLogin | pktCsChat | pktScChat | pktCsMove | pktScMove | pktScFeed
  | pktCsServerStatus | pktScServerStatus | pktCsOrder

def MessageType.value : MessageType → Int16
  | .pktCsLogin => 1
  | .pktScLogin => 2
  | .pktCsChat => 3
  | .pktScChat => 4
  | .pktCsMove => 5
  | .pktScMove => 6
  | .pktScFeed => 7
  | .pktCsServerStatus => 8
  | .pktScServerStatus => 9
  | .pktCsOrder => 10

/-- What `SendRequest` puts at `GetBuffer()`, over an array of `totalSize` bytes:
nothing if a `GOOGLE_CHECK` ends the program. -/
def serializePacket {M : Type} (packetType : MessageType) (lite : MessageLite M) (payload : M) : Option (List Byte) :=
  let totalSize := lite.byteSize payload + headerSize
  let codedOutputStream := Protobuf.CodedOutputStream.ofArray totalSize
  let header : PacketHeader := ⟨Int16.ofNat (lite.byteSize payload), packetType.value⟩
  let codedOutputStream := codedOutputStream.writeRaw (headerBytes header)
  (lite.serializeToCodedStream payload codedOutputStream).map fun r => r.2.written

/-- The message that `SendRequest` is given. -/
def Payload.ofMessage {M : Type} (lite : MessageLite M) (payload : M) (h : (lite.encoding payload).length < 2 ^ 31) :
    Payload := ⟨lite.encoding payload, h⟩

inductive Reaction where
  | nothing
  | sendRequest (packetType : MessageType) (payload : Payload)
  | disconnectRequest

/-- `ParseFromCodedStream` on the payload stream, and `DisconnectRequest` if it
returns false. -/
def parsed {M : Type} (lite : MessageLite M) (react : M → Reaction) (payload : List Byte) : Protobuf.Result Reaction :=
  match lite.parseFromCodedStream (.ofArray payload) with
  | .ok m => .ok (react m)
  | .error .returnedFalse => .ok .disconnectRequest
  | .error failure => .error failure

/-- A handler: the type of its packets and what it does with a payload. -/
abbrev Handler := MessageType × (List Byte → Protobuf.Result Reaction)

/-- `HandlerTable[mType]`; where nothing is registered stands `DefaultHandler`. -/
def handlerTable (handlers : List Handler) (d : Dispatch) : Protobuf.Result Reaction :=
  match handlers.find? fun h => h.1.value = d.mType with
  | some h => h.2 d.payload
  | none => .ok .nothing

/-! ## The server's -/

/-- The name is the literal's bytes, the position the bits of 1, 2 and 3. -/
def loginResult (playerid : Int32) : Protobuf.LoginResult where
  playerid := some playerid
  playername := some ("RANDOM NAME".toList.map fun c => UInt8.ofNat c.toNat)
  playerpos := some ⟨some 0x3F800000, some 0x40000000, some 0x40400000⟩

def myServerState (sessionCount : Int32) : Protobuf.ServerStatus := ⟨some sessionCount⟩

theorem int32Size_le (value : Int32) : Protobuf.int32Size value ≤ 10 := by
  rw [Protobuf.int32Size_eq]
  exact Lib.Varint.length_encode_le (Nat.lt_of_lt_of_le (Protobuf.extended_lt value) (by decide))

theorem loginResult_size (playerid : Int32) : Protobuf.LoginResult.lite.byteSize (loginResult playerid) ≤ 41 := by
  have hid := int32Size_le playerid
  have hsize : Protobuf.LoginResult.lite.byteSize (loginResult playerid) = 1 + Protobuf.int32Size playerid + 30 := rfl
  omega

theorem myServerState_size (sessionCount : Int32) :
    Protobuf.ServerStatus.lite.byteSize (myServerState sessionCount) ≤ 11 := by
  have hcount := int32Size_le sessionCount
  have hsize : Protobuf.ServerStatus.lite.byteSize (myServerState sessionCount) = 1 + Protobuf.int32Size sessionCount :=
    rfl
  omega

def loginReply (playerid : Int32) : Payload :=
  .ofMessage Protobuf.LoginResult.lite (loginResult playerid) (by
    have h := loginResult_size playerid
    rw [Protobuf.LoginResult.described.encoding_length (by omega)]
    omega)

def statusReply (sessionCount : Int32) : Payload :=
  .ofMessage Protobuf.ServerStatus.lite (myServerState sessionCount) (by
    have h := myServerState_size sessionCount
    rw [Protobuf.ServerStatus.described.encoding_length (by omega)]
    omega)

/-- `PKT_CS_LOGIN`, `PKT_CS_SERVER_STATUS` and `PKT_CS_ORDER`, with what
`GetSessionCount` returns. -/
def serverHandlers (sessionCount : Int32) : List Handler :=
  [(.pktCsLogin, parsed Protobuf.LoginRequest.lite fun loginReq =>
      .sendRequest .pktScLogin (loginReply (loginReq.playerid.getD 0))),
    (.pktCsServerStatus, parsed Protobuf.ServerStatus.lite fun _ =>
      .sendRequest .pktScServerStatus (statusReply sessionCount)),
    (.pktCsOrder, parsed Protobuf.Order.lite fun _ => .nothing)]

/-! ## The client's -/

/-- The request of `Login()`. -/
def loginRequest (id : Int32) : Protobuf.LoginRequest := ⟨some id⟩

/-! ## Receiving with handlers -/

namespace Session

def react (s : Session) : Reaction → Session
  | .nothing => s
  | .sendRequest packetType payload => { s with sender := (s.sender.call (.sendRequest packetType.value payload)).2 }
  | .disconnectRequest => s.disconnectRequest

/-- The calls of the packet loop. -/
def handleAll (handlers : List Handler) (s : Session) (ds : List Dispatch) : Protobuf.Result Session :=
  ds.foldlM (fun s d => (handlerTable handlers d).map s.react) s

/-- `recvCompletion`, with what the handlers do. They leave the receive buffer alone,
so they may as well come after the loop. -/
def recvHandled (handlers : List Handler) (s : Session) (chunk : List Byte) : Protobuf.Result Session := do
  let r := onReceive ((s.mRecvBuffer.write chunk).commit chunk.length)
  let s ← handleAll handlers
    { s with
      mRecvBuffer := r.mRecvBuffer, received := s.received ++ chunk, taken := s.taken ++ r.dispatched.map .dispatch }
    r.dispatched
  pure (if r.disconnect then s.disconnectRequest else s)

/-- `PostRecv` and the completion of the receive it starts, with handlers, and what comes
after `RecvCompletion`. -/
def recvWith (handlers : List Handler) (after : Session → Session) (s : Session) (chunk : List Byte) :
    Option (Protobuf.Result Session) :=
  if s.sender.mConnected = false then some (.ok s)
  else
    match s.postRecv with
    | (none, s') => some (.ok s'.disconnectRequest)
    | (some offered, s') =>
      if chunk = [] ∨ offered < chunk.length then none else some ((s'.recvHandled handlers chunk).map after)

inductive ServerEvent where
  /-- A receive, while `GetSessionCount` returns so many. -/
  | recv (sessionCount : Int32) (chunk : List Byte)
  /-- What happens on the send path meanwhile. -/
  | send (a : Sender.Action)

def serverStep (s : Session) : ServerEvent → Option Session
  | .recv sessionCount chunk =>
    match s.recvWith (serverHandlers sessionCount) echoBack chunk with
    | some (.ok s') => some s'
    | _ => none
  | .send a => (s.sender.step a).map fun sender => { s with sender }

end Session

/-! ## Packets of messages -/

/-- The class of the messages of a type. -/
def MessageType.packet : MessageType → Protobuf.MyPacket
  | .pktCsLogin => .loginRequest
  | .pktScLogin => .loginResult
  | .pktCsChat => .chatRequest
  | .pktScChat => .chatResult
  | .pktCsMove => .moveRequest
  | .pktScMove => .moveResult
  | .pktScFeed => .feed
  | .pktCsServerStatus => .serverStatus
  | .pktScServerStatus => .serverStatus
  | .pktCsOrder => .order

/-- A message that is sent: all of it is set, and its size fits the header. -/
structure Packet where
  packetType : MessageType
  message : packetType.packet.Message
  initialized : packetType.packet.lite.isInitialized message = true
  short : packetType.packet.lite.byteSize message < 2 ^ 15

/-- What the server answers. -/
def Packet.answer (sessionCount : Int32) : Packet → Reaction
  | ⟨.pktCsLogin, loginReq, _, _⟩ =>
    .sendRequest .pktScLogin (loginReply (Protobuf.LoginRequest.playerid loginReq |>.getD 0))
  | ⟨.pktCsServerStatus, _, _, _⟩ => .sendRequest .pktScServerStatus (statusReply sessionCount)
  | _ => .nothing

/-- A handler call that is given the packet, and can parse it. -/
structure Reads (d : Dispatch) (p : Packet) : Prop where
  type : d.mType = p.packetType.value
  parse : p.packetType.packet.lite.parseFromCodedStream (.ofArray d.payload) = .ok p.message

end GameServer
