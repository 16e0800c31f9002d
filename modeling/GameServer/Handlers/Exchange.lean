import GameServer.Handlers
import GameServer.SendPath.Once
import GameServer.Session.Lemmas
import Mathlib.Data.List.Forall2
/-!
# From handler to handler

What one side's `SendRequest` serialises is what the other side's handler parses, and
no bytes from the peer make a handler fail.
-/

namespace GameServer

open Lib
open Protobuf (MessageLite MyPacket Described)

/-! ## Packets -/

section Serialize
variable {M : Type} {cases : List (Protobuf.Case M)} {lite : MessageLite M} (desc : Described cases lite)
include desc

/-- `SendRequest` fills its array with the header and the message. -/
theorem serializePacket_eq (packetType : MessageType) {m : M} (h : lite.byteSize m < 2 ^ 31) :
    serializePacket packetType lite m = some (packetBytes packetType.value (lite.encoding m)) := by
  have hlen := desc.encoding_length h
  have hheader : (Protobuf.CodedOutputStream.ofArray (lite.byteSize m + headerSize)).writeRaw
      (headerBytes ⟨Int16.ofNat (lite.byteSize m), packetType.value⟩) =
      ⟨headerBytes ⟨Int16.ofNat (lite.byteSize m), packetType.value⟩, lite.byteSize m, lite.byteSize m + headerSize,
        false, false⟩ := by
    rw [← Protobuf.CodedOutputStream.store_eq (by simp [Protobuf.CodedOutputStream.ofArray])]
    simp [Protobuf.CodedOutputStream.store, Protobuf.CodedOutputStream.ofArray]
  have hfits : (lite.encoding m).length ≤ lite.byteSize m := Nat.le_of_eq hlen
  rw [serializePacket, hheader, desc.toStream_eq h rfl, ← Protobuf.CodedOutputStream.store_eq hfits, packetBytes, hlen]
  rfl

/-- A handler gets the message, and reacts to it. -/
theorem parsed_encoding {m : M} (hdepth : desc.depth ≤ Protobuf.defaultRecursionLimit)
    (hinit : lite.isInitialized m = true) (h : lite.byteSize m < 2 ^ 15) (react : M → Reaction) :
    parsed lite react (lite.encoding m) = .ok (react m) := by
  rw [parsed, desc.parse_encoding hdepth hinit (Nat.lt_trans h (by decide))]

/-- Whatever the payload is, a handler reacts. -/
theorem parsed_safe {payload : List Byte} (h : payload.length < 2 ^ 15) (react : M → Reaction) :
    ∃ r, parsed lite react payload = .ok r := by
  rcases desc.parse_ends (Nat.lt_trans h (by decide)) with he | ⟨m, he, -⟩
  · exact ⟨.disconnectRequest, by rw [parsed, he]⟩
  · exact ⟨react m, by rw [parsed, he]⟩

end Serialize

namespace Packet

def bytes (p : Packet) : List Byte := p.packetType.packet.lite.encoding p.message

theorem length_bytes (p : Packet) : p.bytes.length < 2 ^ 15 := by
  rw [bytes, p.packetType.packet.described.encoding_length (Nat.lt_trans p.short (by decide))]
  exact p.short

def payload (p : Packet) : Payload := .ofMessage _ p.message (Nat.lt_trans p.length_bytes (by decide))

/-- The call of `SendRequest` that sends the packet. -/
def call (p : Packet) : Call := .sendRequest p.packetType.value p.payload

theorem length_call (p : Packet) :
    p.call.bytes.length = p.packetType.packet.lite.byteSize p.message + headerSize := by
  rw [← p.packetType.packet.described.encoding_length (Nat.lt_trans p.short (by decide))]
  exact length_packetBytes _ _

theorem validType (t : MessageType) : ValidType t.value := by
  cases t <;> decide

def frame (p : Packet) : Frame := ⟨p.packetType.value, p.bytes, validType p.packetType, p.length_bytes⟩

theorem stream_frames (ps : List Packet) : frameCode.stream (ps.map frame) = ps.flatMap fun p => p.call.bytes := by
  rw [PrefixCode.stream, List.flatMap_map]
  rfl

theorem server_handles (sessionCount : Int32) (p : Packet) :
    handlerTable (serverHandlers sessionCount) (.ofFrame p.frame) = .ok (p.answer sessionCount) := by
  obtain ⟨packetType, message, hinit, hshort⟩ := p
  cases packetType with
  | pktCsLogin => exact parsed_encoding Protobuf.LoginRequest.described (by decide) hinit hshort _
  | pktCsServerStatus => exact parsed_encoding Protobuf.ServerStatus.described (by decide) hinit hshort _
  | pktCsOrder => exact parsed_encoding Protobuf.Order.described (by decide) hinit hshort _
  | pktScLogin | pktCsChat | pktScChat | pktCsMove | pktScMove | pktScFeed | pktScServerStatus => rfl

end Packet

def Packet.login (id : Int32) : Packet where
  packetType := .pktCsLogin
  message := loginRequest id
  initialized := rfl
  short := by
    have hid := int32Size_le id
    have hsize : MessageType.pktCsLogin.packet.lite.byteSize (loginRequest id) = 1 + Protobuf.int32Size id := rfl
    omega

def Packet.loginResult (id : Int32) : Packet where
  packetType := .pktScLogin
  message := GameServer.loginResult id
  initialized := rfl
  short := Nat.lt_of_le_of_lt (loginResult_size id) (by decide)

/-! ## Handlers that do not fail -/

/-- Every payload that a `short` can measure is reacted to. -/
def Safe (handlers : List Handler) : Prop :=
  ∀ h ∈ handlers, ∀ payload, payload.length < 2 ^ 15 → ∃ r, h.2 payload = .ok r

theorem safe_server (sessionCount : Int32) : Safe (serverHandlers sessionCount) := by
  intro h hmem payload hlen
  simp only [serverHandlers, List.mem_cons, List.not_mem_nil, or_false] at hmem
  rcases hmem with rfl | rfl | rfl
  · exact parsed_safe Protobuf.LoginRequest.described hlen _
  · exact parsed_safe Protobuf.ServerStatus.described hlen _
  · exact parsed_safe Protobuf.Order.described hlen _

theorem Safe.handlerTable {handlers : List Handler} (h : Safe handlers) {d : Dispatch} (hd : d.payload.length < 2 ^ 15) :
    ∃ r, handlerTable handlers d = .ok r := by
  unfold GameServer.handlerTable
  cases hfind : handlers.find? fun h => h.1.value = d.mType with
  | none => exact ⟨.nothing, rfl⟩
  | some entry => exact h entry (List.mem_of_find?_eq_some hfind) d.payload hd

namespace Session

variable {s s' : Session} {handlers : List Handler} {after : Session → Session} {chunk : List Byte}

/-! ## What the reactions do -/

/-- A reaction changes the sending half alone. -/
theorem react_eq (s : Session) (r : Reaction) : ∃ sender, s.react r = { s with sender } := by
  cases r with
  | nothing => exact ⟨s.sender, rfl⟩
  | sendRequest packetType payload => exact ⟨(s.sender.call (.sendRequest packetType.value payload)).2, rfl⟩
  | disconnectRequest => exact ⟨{ s.sender with mConnected := false }, rfl⟩

/-- And does not depend on the rest. -/
theorem react_sender {s t : Session} (h : s.sender = t.sender) (r : Reaction) :
    (s.react r).sender = (t.react r).sender := by
  cases r <;> simp only [react, disconnectRequest, h]

theorem foldl_react_eq (rs : List Reaction) (s : Session) : ∃ sender, rs.foldl react s = { s with sender } := by
  induction rs generalizing s with
  | nil => exact ⟨s.sender, rfl⟩
  | cons r rs ih =>
    obtain ⟨sender, he⟩ := s.react_eq r
    obtain ⟨sender', he'⟩ := ih (s.react r)
    exact ⟨sender', by rw [List.foldl_cons, he', he]⟩

theorem foldl_react_sender {s t : Session} (h : s.sender = t.sender) (rs : List Reaction) :
    (rs.foldl react s).sender = (rs.foldl react t).sender := by
  induction rs generalizing s t with
  | nil => exact h
  | cons r rs ih => exact ih (react_sender h r)

theorem handleAll_eq {ds : List Dispatch} {rs : List Reaction}
    (h : List.Forall₂ (fun d r => handlerTable handlers d = .ok r) ds rs) (s : Session) :
    handleAll handlers s ds = .ok (rs.foldl react s) := by
  induction h generalizing s with
  | nil => rfl
  | cons hr _ ih =>
    rw [handleAll, List.foldlM_cons, hr]
    exact ih _

/-- A completion whose handlers react. -/
theorem recvHandled_eq {b : CircularBuffer} {rs : List Reaction}
    (h : List.Forall₂ (fun d r => handlerTable handlers d = .ok r)
      (onReceive ((b.write chunk).commit chunk.length)).dispatched rs) :
    recvHandled handlers { s with mRecvBuffer := b } chunk =
      .ok { s.handled chunk (onReceive ((b.write chunk).commit chunk.length)) with
        sender :=
          if (onReceive ((b.write chunk).commit chunk.length)).disconnect then
            { (rs.foldl react s).sender with mConnected := false }
          else (rs.foldl react s).sender } := by
  generalize hr : onReceive ((b.write chunk).commit chunk.length) = r at h
  generalize ht : ({ s with
    mRecvBuffer := r.mRecvBuffer, received := s.received ++ chunk
    taken := s.taken ++ r.dispatched.map .dispatch } : Session) = t
  obtain ⟨sender, he⟩ := foldl_react_eq rs t
  have hsender : (rs.foldl react s).sender = sender := by
    rw [foldl_react_sender (t := t) (by rw [← ht]), he]
  simp only [recvHandled, hr, ht, handleAll_eq h, he, hsender]
  subst ht
  by_cases hd : r.disconnect = true
  · simp only [handled, hd, if_true, disconnectRequest]
    rfl
  · simp only [handled, hd]
    rfl

/-! ## One receive -/

theorem recvWith_eq (h : Ready s.mRecvBuffer) (hc : s.sender.mConnected = true) (hroom : 0 < s.offering.room) :
    s.recvWith handlers after chunk =
      if chunk = [] ∨ s.offering.room < chunk.length then none
      else some ((recvHandled handlers { s with mRecvBuffer := s.offering } chunk).map after) := by
  have hsize := CircularBuffer.getFreeSpaceSize_room h.inv
  have hle := CircularBuffer.getFreeSpaceSize_le h.inv
  have hcb : clientBufSize = 65536 := rfl
  rw [h.capacity] at hle
  rw [offering, ← hsize] at hroom ⊢
  have h0 : s.mRecvBuffer.getFreeSpaceSize.1 ≠ 0 := by omega
  have e32 : s.mRecvBuffer.getFreeSpaceSize.1 % 2 ^ 32 = s.mRecvBuffer.getFreeSpaceSize.1 :=
    Nat.mod_eq_of_lt (by omega)
  simp only [recvWith, hc, Bool.true_eq_false, if_false, postRecv, if_neg h0, CircularBuffer.getFreeSpaceSize_again h.inv,
    e32]

theorem recvWith_full (h : Ready s.mRecvBuffer) (hc : s.sender.mConnected = true) (hroom : s.offering.room = 0) :
    s.recvWith handlers after chunk = some (.ok (disconnectRequest { s with mRecvBuffer := s.offering })) := by
  have hsize := CircularBuffer.getFreeSpaceSize_room h.inv
  rw [offering] at hroom
  simp only [recvWith, hc, Bool.true_eq_false, if_false, postRecv, hsize.trans hroom, if_true]
  rfl

theorem exists_reactions {ds : List Dispatch} (h : ∀ d ∈ ds, ∃ r, handlerTable handlers d = .ok r) :
    ∃ rs, List.Forall₂ (fun d r => handlerTable handlers d = .ok r) ds rs := by
  induction ds with
  | nil => exact ⟨[], .nil⟩
  | cons d ds ih =>
    obtain ⟨r, hr⟩ := h d (by simp)
    obtain ⟨rs, hrs⟩ := ih fun e he => h e (by simp [he])
    exact ⟨r :: rs, .cons hr hrs⟩

/-- Handlers that went through reacted. -/
theorem exists_reactions_of_handleAll {ds : List Dispatch} {t : Session} (h : handleAll handlers s ds = .ok t) :
    ∃ rs, List.Forall₂ (fun d r => handlerTable handlers d = .ok r) ds rs := by
  refine exists_reactions fun d hd => ?_
  induction ds generalizing s with
  | nil => cases hd
  | cons e ds ih =>
    rw [handleAll, List.foldlM_cons] at h
    cases he : handlerTable handlers e with
    | error failure =>
      rw [he] at h
      cases h
    | ok r =>
      rcases List.mem_cons.1 hd with rfl | hd
      · exact ⟨r, he⟩
      · rw [he] at h
        exact ih h hd

/-- The three courses a receive with handlers can take. -/
theorem recvWith_cases (h : Ready s.mRecvBuffer) (hs : s.recvWith handlers after chunk = some (.ok s')) :
    (s.sender.mConnected = false ∧ s' = s) ∨
    (s.sender.mConnected = true ∧ s.offering.room = 0 ∧ s' = disconnectRequest { s with mRecvBuffer := s.offering }) ∨
    (s.sender.mConnected = true ∧ chunk ≠ [] ∧ chunk.length ≤ s.offering.room ∧ ∃ rs sender,
      List.Forall₂ (fun d r => handlerTable handlers d = .ok r) (onReceive (s.incoming chunk)).dispatched rs ∧
      ((onReceive (s.incoming chunk)).disconnect = false → sender = (rs.foldl react s).sender) ∧
      s' = after { s.handled chunk (onReceive (s.incoming chunk)) with sender }) := by
  by_cases hc : s.sender.mConnected = true
  · rcases Nat.eq_zero_or_pos s.offering.room with hroom | hroom
    · rw [recvWith_full h hc hroom] at hs
      cases hs
      exact .inr (.inl ⟨hc, hroom, rfl⟩)
    · rw [recvWith_eq h hc hroom, Option.ite_none_left_eq_some] at hs
      obtain ⟨hgo, hs⟩ := hs
      obtain ⟨hne, hl⟩ := not_or.1 hgo
      refine .inr (.inr ⟨hc, hne, Nat.not_lt.1 hl, ?_⟩)
      generalize hall : recvHandled handlers { s with mRecvBuffer := s.offering } chunk = all at hs
      cases all with
      | error failure => cases hs
      | ok t =>
        cases hs
        have hrs : ∃ rs, List.Forall₂ (fun d r => handlerTable handlers d = .ok r)
            (onReceive (s.incoming chunk)).dispatched rs := by
          simp only [recvHandled] at hall
          generalize hcalls : handleAll handlers _ _ = calls at hall
          cases calls with
          | error failure => cases hall
          | ok u => exact exists_reactions_of_handleAll hcalls
        obtain ⟨rs, hrs⟩ := hrs
        rw [recvHandled_eq hrs] at hall
        cases hall
        refine ⟨rs, _, hrs, fun hd => ?_, rfl⟩
        rw [show onReceive ((s.offering.write chunk).commit chunk.length) = onReceive (s.incoming chunk) from rfl, hd]
        rfl
  · simp only [recvWith, Bool.not_eq_true _ ▸ hc, if_true, Option.some.injEq, Except.ok.injEq] at hs
    exact .inl ⟨by simpa using hc, hs.symm⟩

/-- With safe handlers a receive goes through. -/
theorem recvWith_safe (h : Ready s.mRecvBuffer) (hsafe : Safe handlers)
    (hafter : ∀ t : Session, Ready t.mRecvBuffer → Ready (after t).mRecvBuffer) (chunk : List Byte) :
    s.recvWith handlers after chunk = none ∨
      ∃ t, s.recvWith handlers after chunk = some (.ok t) ∧ Ready t.mRecvBuffer := by
  by_cases hc : s.sender.mConnected = true
  · rcases Nat.eq_zero_or_pos s.offering.room with hroom | hroom
    · exact .inr ⟨_, recvWith_full h hc hroom, ready_offering h⟩
    · rw [recvWith_eq h hc hroom]
      by_cases hl : chunk = [] ∨ s.offering.room < chunk.length
      · exact .inl (if_pos hl)
      · have hin := ready_incoming h (Nat.not_lt.1 fun hlt => hl (.inr hlt))
        have hshort : ∀ d ∈ (onReceive (s.incoming chunk)).dispatched, d.payload.length < 2 ^ 15 :=
          (loop_removes (fun _ => True) (fun _ _ _ _ => trivial) trivial).2
        obtain ⟨rs, hrs⟩ := exists_reactions fun d hd => hsafe.handlerTable (hshort d hd)
        rw [if_neg hl, recvHandled_eq hrs]
        exact .inr ⟨_, rfl, hafter _ (ready_onReceive hin)⟩
  · exact .inr ⟨s, by simp [recvWith, hc], h⟩

theorem ready_echoBack (h : Ready s.mRecvBuffer) : Ready s.echoBack.mRecvBuffer := by
  have hi := h.inv.inside
  have hc := h.inv.cap
  rcases echoBack_cases h with ⟨-, e⟩ | ⟨-, -, sender, -, e⟩ | ⟨-, -, sender, -, e⟩
  · rw [e]
    exact h
  · rw [e]
    exact h
  · rw [e]
    exact h.shrunk (CircularBuffer.shrunk_remove h.inv (by omega))

theorem serverStep_recv {sessionCount : Int32} :
    s.serverStep (.recv sessionCount chunk) = some s' ↔
      s.recvWith (serverHandlers sessionCount) echoBack chunk = some (.ok s') := by
  rw [serverStep]
  cases s.recvWith (serverHandlers sessionCount) echoBack chunk with
  | none => simp
  | some r => cases r <;> simp

theorem ready_serverStep {e : ServerEvent} (h : Ready s.mRecvBuffer) (hs : s.serverStep e = some s') :
    Ready s'.mRecvBuffer := by
  cases e with
  | recv sessionCount chunk =>
    rcases recvWith_safe h (safe_server sessionCount) (fun t => ready_echoBack) chunk with hn | ⟨t, ht, hr⟩
    · simp [serverStep, hn] at hs
    · simp only [serverStep, ht, Option.some.injEq] at hs
      exact hs ▸ hr
  | send a =>
    obtain ⟨sender, -, rfl⟩ := Option.map_eq_some_iff.1 hs
    exact h

/-- Whatever the peer has sent, and whatever happened on the send path meanwhile,
no receive of the server fails. -/
theorem server_never_fails (events : List ServerEvent) (hr : run serverStep start events = some s)
    (sessionCount : Int32) (chunk : List Byte) (failure : Protobuf.Failure) :
    s.recvWith (serverHandlers sessionCount) echoBack chunk ≠ some (.error failure) := by
  have hready := inv_of_run (I := fun s => Ready s.mRecvBuffer) (fun _ _ _ => ready_serverStep) ready_start hr
  rcases recvWith_safe hready (safe_server sessionCount) (fun t => ready_echoBack) chunk with hn | ⟨t, ht, -⟩
  · rw [hn]
    nofun
  · rw [ht]
    nofun

theorem server_never_fails_posted : ∃ s, run serverStep start [.send (.call (.postSend [1, 2, 3]))] = some s ∧
    s.recvWith (serverHandlers 5) echoBack [255, 255, 1, 0, 0] ≠ some (.error .overrun) :=
  ⟨_, rfl, server_never_fails [.send (.call (.postSend [1, 2, 3]))] rfl 5 [255, 255, 1, 0, 0] .overrun⟩

/-! ## What receives keep of the sending half -/

/-- Kept by every call, and by `DisconnectRequest`. -/
structure Sent (P : Sender → Prop) : Prop where
  call : ∀ (sender : Sender) (c : Call), P sender → P (sender.call c).2
  disconnect : ∀ sender : Sender, P sender → P { sender with mConnected := false }

section
variable {P : Sender → Prop} (hP : Sent P)
include hP

theorem Sent.react (h : P s.sender) (r : Reaction) : P (s.react r).sender := by
  cases r with
  | nothing => exact h
  | sendRequest packetType payload => exact hP.call _ _ h
  | disconnectRequest => exact hP.disconnect _ h

theorem Sent.handleAll {ds : List Dispatch} (h : P s.sender) (hs : handleAll handlers s ds = .ok s') : P s'.sender := by
  induction ds generalizing s with
  | nil =>
    cases hs
    exact h
  | cons d ds ih =>
    rw [Session.handleAll, List.foldlM_cons] at hs
    cases hd : GameServer.handlerTable handlers d with
    | error failure =>
      rw [hd] at hs
      cases hs
    | ok r =>
      rw [hd] at hs
      exact ih (hP.react h r) hs

theorem Sent.recvHandled (h : P s.sender) (hs : s.recvHandled handlers chunk = .ok s') : P s'.sender := by
  simp only [Session.recvHandled] at hs
  generalize hall : Session.handleAll _ _ _ = all at hs
  cases all with
  | error failure => split at hs <;> cases hs
  | ok t =>
    have ht := hP.handleAll (s := { s with
      mRecvBuffer := (onReceive ((s.mRecvBuffer.write chunk).commit chunk.length)).mRecvBuffer
      received := s.received ++ chunk
      taken := s.taken ++ (onReceive ((s.mRecvBuffer.write chunk).commit chunk.length)).dispatched.map .dispatch }) h hall
    split at hs
    · cases hs
      exact hP.disconnect _ ht
    · cases hs
      exact ht

theorem Sent.echoBack (h : P s.sender) : P s.echoBack.sender := by
  unfold Session.echoBack
  dsimp only
  split
  · exact h
  · split
    · exact hP.call _ _ h
    · exact hP.call _ _ h

theorem Sent.recvWith (hafter : ∀ t : Session, P t.sender → P (after t).sender) (h : P s.sender)
    (hs : s.recvWith handlers after chunk = some (.ok s')) : P s'.sender := by
  unfold Session.recvWith postRecv at hs
  split at hs
  · cases hs
    exact h
  · dsimp only at hs
    split at hs
    · next e =>
      split at e
      · cases e
        cases hs
        exact hP.disconnect _ h
      · cases e
    · next e =>
      split at e
      · cases e
      · cases e
        split at hs
        · cases hs
        · cases hall : Session.recvHandled handlers _ chunk with
          | error failure =>
            rw [hall] at hs
            cases hs
          | ok t =>
            rw [hall] at hs
            cases hs
            refine hafter t (hP.recvHandled ?_ hall)
            exact h

end

theorem sent_inv : Sent Sender.Inv where
  call sender c h := by
    have hs : sender.step (.call c) = some (sender.call c).2 := by rw [Sender.step]
    exact Sender.inv_call h hs
  disconnect _ h := ⟨h.buffer, h.capacity, h.short, h.committed⟩

/-- The buffer of a server holds what its calls have committed. -/
theorem sender_inv {e : ServerEvent} (h : s.sender.Inv) (hs : s.serverStep e = some s') : s'.sender.Inv := by
  cases e with
  | recv sessionCount chunk =>
    rw [serverStep] at hs
    split at hs
    · next t e =>
      cases hs
      exact sent_inv.recvWith (fun t => sent_inv.echoBack) h e
    · cases hs
  | send a =>
    obtain ⟨sender, ha, rfl⟩ := Option.map_eq_some_iff.1 hs
    exact Sender.inv_step h ha

/-! ## The server answers -/

/-- An empty receive buffer is all there for the next receive. -/
theorem offering_of_empty (h : Ready s.mRecvBuffer) (he : s.mRecvBuffer.contents = []) :
    s.offering = s.mRecvBuffer ∧ s.mRecvBuffer.mBRegionPointer = none ∧ s.offering.room = clientBufSize := by
  have hlen := congrArg List.length he
  rw [CircularBuffer.contents, List.length_append, CircularBuffer.length_regionA h.inv, List.length_nil] at hlen
  have h0 : s.mRecvBuffer.mARegionSize = 0 := by omega
  have hp := h.inv.empty h0
  obtain ⟨hB, -⟩ := h.inv.aEmpty h0
  have hkeep : s.mRecvBuffer.getSpaceBeforeA ≤ s.mRecvBuffer.getAFreeSpace := by
    rw [CircularBuffer.getSpaceBeforeA, hp]
    exact Nat.zero_le _
  have hoff : s.offering = s.mRecvBuffer := by rw [offering, CircularBuffer.getFreeSpaceSize_keep hB hkeep]
  refine ⟨hoff, hB, ?_⟩
  rw [hoff]
  simp only [CircularBuffer.room, hB, Option.isSome_none, Bool.false_eq_true, if_false, hp, h0, h.capacity, Nat.sub_zero]

/-- Packets that arrive together are answered in their order, and nothing of them is
left. -/
theorem serverStep_packets (h : Ready s.mRecvBuffer) (hc : s.sender.mConnected = true) (he : s.mRecvBuffer.contents = [])
    (packets : List Packet) (hne : packets ≠ []) (hl : (packets.flatMap fun p => p.call.bytes).length ≤ clientBufSize)
    (sessionCount : Int32) :
    ∃ s', s.serverStep (.recv sessionCount (packets.flatMap fun p => p.call.bytes)) = some s' ∧
      s'.sender = ((packets.map (Packet.answer sessionCount)).foldl react s).sender ∧
      Ready s'.mRecvBuffer ∧ s'.mRecvBuffer.contents = [] := by
  obtain ⟨hoff, hB, hroom⟩ := offering_of_empty h he
  generalize hchunk : (packets.flatMap fun p => p.call.bytes) = chunk at hl
  have hstream : chunk = frameCode.stream (packets.map Packet.frame) := by rw [← hchunk, Packet.stream_frames]
  have hfits : chunk.length ≤ s.offering.room := by
    rw [hroom]
    exact hl
  have hin := ready_incoming h hfits
  have hcont := contents_incoming h hfits
  have hclosed : (s.incoming chunk).mBRegionPointer = none := by
    rw [incoming, CircularBuffer.mBRegionPointer_store, hoff, hB]
  rw [he, List.nil_append] at hcont
  have hA : (s.incoming chunk).regionA = frameCode.stream (packets.map Packet.frame) ++ [] := by
    rw [← CircularBuffer.contents_of_closed hclosed, hcont, List.append_nil, hstream]
  obtain ⟨b', hr, hsh⟩ := onReceive_begins hin.inv hin.intSized hA (frameCode.begins_nil [])
  have hb' : b'.contents = [] := by
    rw [hsh.contents, hcont, hstream, List.drop_length]
  have hrs : List.Forall₂ (fun d r => handlerTable (serverHandlers sessionCount) d = .ok r)
      (onReceive (s.incoming chunk)).dispatched (packets.map (Packet.answer sessionCount)) := by
    rw [hr, List.map_map, List.forall₂_map_left_iff, List.forall₂_map_right_iff]
    exact List.forall₂_same.2 fun p _ => Packet.server_handles sessionCount p
  have hne' : chunk ≠ [] := by
    cases packets with
    | nil => exact absurd rfl hne
    | cons p ps =>
      rw [hstream]
      exact List.append_ne_nil_of_left_ne_nil (frameCode.encode_ne_nil p.frame) _
  have hempty : ∀ t : Session, Ready t.mRecvBuffer → t.mRecvBuffer.contents = [] → t.echoBack = t := by
    intro t ht hnil
    have hlen := congrArg List.length hnil
    rw [CircularBuffer.contents, List.length_append, CircularBuffer.length_regionA ht.inv, List.length_nil] at hlen
    rcases echoBack_cases ht with ⟨-, e⟩ | ⟨hpos, -⟩ | ⟨hpos, -⟩
    · exact e
    · omega
    · omega
  have hgo : ¬ (chunk = [] ∨ s.offering.room < chunk.length) := fun hor =>
    hor.elim hne' (Nat.not_lt.2 hfits)
  rw [serverStep, recvWith_eq h hc (by rw [hroom]; decide), if_neg hgo, recvHandled_eq hrs]
  have hr' : onReceive ((s.offering.write chunk).commit chunk.length) = _ := hr
  simp only [hr', Except.map]
  refine ⟨_, rfl, ?_, ?_, ?_⟩
  all_goals rw [hempty _ (hin.shrunk hsh) hb']
  · rfl
  · exact hin.shrunk hsh
  · exact hb'

/-- So a server that has nothing of a packet in its receive buffer, whatever it has been
through, does for packets that arrive together what their handlers do. -/
theorem server_answers (events : List ServerEvent) (hr : run serverStep start events = some s)
    (hc : s.sender.mConnected = true) (he : s.mRecvBuffer.contents = []) (packets : List Packet) (hne : packets ≠ [])
    (hl : (packets.flatMap fun p => p.call.bytes).length ≤ clientBufSize) (sessionCount : Int32) :
    ∃ s', s.serverStep (.recv sessionCount (packets.flatMap fun p => p.call.bytes)) = some s' ∧
      s'.sender = ((packets.map (Packet.answer sessionCount)).foldl react s).sender ∧
      s'.mRecvBuffer.contents = [] := by
  have hready := inv_of_run (I := fun s => Ready s.mRecvBuffer) (fun _ _ _ => ready_serverStep) ready_start hr
  obtain ⟨s', hs', hsender, -, hnil⟩ := serverStep_packets hready hc he packets hne hl sessionCount
  exact ⟨s', hs', hsender, hnil⟩

theorem server_answers_two : ∃ s s', run serverStep start [.send (.call (.postSend [1]))] = some s ∧
    s.serverStep (.recv 3 ([Packet.login 7, Packet.login (-1)].flatMap fun p => p.call.bytes)) = some s' ∧
    s'.sender = (([Packet.login 7, Packet.login (-1)].map (Packet.answer 3)).foldl react s).sender ∧
    s'.mRecvBuffer.contents = [] := by
  have hempty : start.mRecvBuffer.contents = [] := CircularBuffer.contents_new _
  obtain ⟨s', h⟩ := server_answers [.send (.call (.postSend [1]))] rfl rfl hempty [Packet.login 7, Packet.login (-1)]
    (by simp) (by decide) 3
  exact ⟨_, s', rfl, h⟩

/-! ## The client reads -/

variable {gs hs : List Frame} {todo : List Byte}

theorem call_bytes_le (p : Packet) : p.call.bytes.length ≤ clientBufSize := by
  have hlen := p.length_call
  have hshort := p.short
  have h4 : headerSize = 4 := rfl
  have hcb : clientBufSize = 65536 := rfl
  omega

theorem react_send (s : Session) (q : Packet) :
    Sender.step s.sender (.call q.call) = some (s.react (.sendRequest q.packetType q.payload)).sender := rfl

end Session

end GameServer
