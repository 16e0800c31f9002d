import GameServer.Handlers.Exchange
import GameServer.MarketTable
import GameServer.SessionMgr
/-!
# The table of a connection

What ServerGUI makes of the packets that a session of the server sends to it.
protobuf-net is not part of the repository: it is a parameter, assumed to read what
`MyPacket.proto` says of a message (`ProtoNet.Faithful`).
-/

namespace GameServer

open Lib

/-! ## A stream that is cut anywhere -/

namespace SessionMgr

variable {Object : Type} {deserialize : Proto → List Byte → Option Object}

theorem receive_short {cut : List Byte} (h : cut.length < headerSize) :
    receive deserialize cut = (.error .endOfStream, []) := by
  match cut, h with
  | [], _ | [_], _ | [_, _], _ | [_, _, _], _ => rfl

/-- Of a packet that has not come as a whole, nothing passes the `switch`. -/
theorem receive_begins {f : Frame} {cut : List Byte} (hcut : cut <+: f.encode) (hne : cut ≠ f.encode) :
    receive deserialize cut = (.error .endOfStream, []) ∨ receive deserialize cut = (.ok none, []) := by
  by_cases hlen : cut.length < headerSize
  · exact .inl (receive_short hlen)
  · right
    have hheader : headerBytes ⟨f.mSize, f.mType⟩ <+: f.encode := List.prefix_append _ _
    obtain ⟨part, rfl⟩ := List.prefix_of_prefix_length_le hheader hcut (Nat.le_of_not_lt hlen)
    have hpart : part <+: f.payload := (List.prefix_append_right_inj _).1 hcut
    have hlt : part.length < f.payload.length := by
      apply Nat.lt_of_not_le
      intro hle
      exact hne (congrArg (headerBytes _ ++ ·) (hpart.eq_of_length_le hle))
    have hsize : f.mSize.toInt = f.payload.length := Int16.toInt_ofNat_of_lt f.short
    have hpos : ¬ ((f.payload.length : Int) < 0) := by omega
    simp only [receive, headerBytes, List.append_assoc, readInt16_shortBytes, hsize, if_neg hpos, Int.toNat_natCast,
      List.length_take]
    rw [if_neg (by omega), List.drop_eq_nil_of_le (Nat.le_of_lt hlt)]

theorem listenLoop_begins {fs : List Frame} {cut : List Byte} (h : frameCode.Begins fs cut) (n : Nat) :
    (listenLoop deserialize n cut).inbound = [] := by
  match n, fs with
  | 0, _ => rfl
  | n + 1, [] =>
    rw [show cut = [] from h]
    rfl
  | n + 1, f :: _ =>
    rw [listenLoop]
    split
    · rfl
    · rcases receive_begins h.1 h.2 with e | e
      · rw [e]
      · rw [e]
        cases n <;> rfl

/-- What `ListenLoop` hands out are the packets that came as a whole, if it can
deserialise each. -/
theorem listen_begins {P : Type} (frame : P → Frame) (inbound : P → Inbound Object) (packets : List P)
    (hd : ∀ p, dispatch deserialize (frame p).mType (frame p).payload = .ok (inbound p)) {hs : List Frame}
    {cut : List Byte} (h : frameCode.Begins hs cut) :
    (listen deserialize (frameCode.stream (packets.map frame) ++ cut)).inbound = packets.map inbound := by
  suffices hloop : ∀ n, (frameCode.stream (packets.map frame) ++ cut).length ≤ n →
      (listenLoop deserialize n (frameCode.stream (packets.map frame) ++ cut)).inbound = packets.map inbound from
    hloop _ (Nat.le_refl _)
  induction packets with
  | nil => exact fun n _ => listenLoop_begins h n
  | cons p packets ih =>
    intro n hn
    have hpos := frameCode.encode_length_pos (frame p)
    rw [List.map_cons, PrefixCode.stream_cons, List.append_assoc] at hn ⊢
    rw [List.length_append] at hn
    obtain ⟨m, rfl⟩ : ∃ m, n = m + 1 := ⟨n - 1, by omega⟩
    have hturn : listenLoop deserialize (m + 1) (frameCode.encode (frame p) ++ (frameCode.stream (packets.map frame) ++ cut)) =
        _ := listenLoop_packet (frame p).short m
    rw [hd p] at hturn
    have hrest := ih m (by omega)
    exact (congrArg Heard.inbound hturn).trans (congrArg (inbound p :: ·) hrest)

end SessionMgr

namespace MarketTable

open SessionMgr (Inbound Proto protoOf)

/-! ## From packets to the form -/

/-- The cast to `MyPacket.MessageType`, none for a value without a name. -/
def MessageType.ofValue (value : Int16) : Option MessageType :=
  match value.toInt with
  | 1 => some .csLogin
  | 2 => some .scLogin
  | 3 => some .csChat
  | 4 => some .scChat
  | 5 => some .csMove
  | 6 => some .scMove
  | 7 => some .scFeed
  | 8 => some .csServerStatus
  | 9 => some .scServerStatus
  | _ => none

/-- protobuf-net: `Serializer.Deserialize` into the class that the `switch` has chosen,
none where it throws, `Serializer.Serialize` of a `ServerStatus`, and what it makes of
the bytes of a string and the bits of a `float`. -/
structure ProtoNet (F : Type) where
  deserialize : Proto → List Byte → Option (ProtoObject F)
  serialize : Int32 → List Byte
  text : List Byte → String
  single : UInt32 → F

variable {F D : Type}

namespace ProtoNet

variable (net : ProtoNet F)

def depth (d : Protobuf.Depth) : Depth F := ⟨(d.count.getD 0).toInt, (d.qty.getD 0).toInt, net.single (d.price.getD 0)⟩

/-- The object of a message. -/
def feed (m : Protobuf.Feed) : Feed F :=
  ⟨net.text (m.productcode.getD []), m.biddepth.map net.depth, m.askdepth.map net.depth⟩

/-- It reads and writes the format of `MyPacket.proto`. -/
structure Faithful : Prop where
  feed : ∀ m : Protobuf.Feed, Protobuf.Feed.lite.isInitialized m = true → Protobuf.Feed.lite.byteSize m < 2 ^ 15 →
    net.deserialize .feed (Protobuf.Feed.lite.encoding m) = some (.feed (net.feed m))
  serverStatus : ∀ m : Protobuf.ServerStatus, Protobuf.ServerStatus.lite.isInitialized m = true →
    Protobuf.ServerStatus.lite.byteSize m < 2 ^ 15 →
    net.deserialize .serverStatus (Protobuf.ServerStatus.lite.encoding m) =
      some (.serverStatus (m.sessioncount.getD 0).toInt)
  loginResult : ∀ m : Protobuf.LoginResult, Protobuf.LoginResult.lite.isInitialized m = true →
    Protobuf.LoginResult.lite.byteSize m < 2 ^ 15 →
    net.deserialize .loginResult (Protobuf.LoginResult.lite.encoding m) = some .loginResult
  serialize : ∀ sessionCount : Int32,
    net.serialize sessionCount = Protobuf.ServerStatus.lite.encoding ⟨some sessionCount⟩

end ProtoNet

namespace Form1

variable [Zero D] (net : ProtoNet F) (double : F → D)

/-- `OnProtoRecvEvent`, which the `default` of the `switch` does not raise. -/
def onInbound (w : Form1 D) (inbound : Inbound (ProtoObject F)) : Option (Form1 D) :=
  match inbound.object with
  | none => some w
  | some inPacket => w.onProtoRecv double (some inPacket) (MessageType.ofValue inbound.type)

/-- The form when `ListenLoop` has taken all that came. -/
def watch (stream : List Byte) : Option (Form1 D) :=
  (SessionMgr.listen net.deserialize stream).inbound.foldlM (onInbound double) load

end Form1

/-! ## What it shows of the packets -/

namespace ProtoNet

variable (net : ProtoNet F)

def feedOf : Packet → Option (Feed F)
  | ⟨.pktScFeed, m, _, _⟩ => some (net.feed m)
  | _ => none

def feeds (packets : List Packet) : List (Feed F) := packets.filterMap net.feedOf

/-- What `ListenLoop` makes of a packet. -/
def object : Packet → Option (ProtoObject F)
  | ⟨.pktScFeed, m, _, _⟩ => some (.feed (net.feed m))
  | ⟨.pktCsServerStatus, m, _, _⟩ => some (.serverStatus (Protobuf.ServerStatus.sessioncount m |>.getD 0).toInt)
  | ⟨.pktScServerStatus, m, _, _⟩ => some (.serverStatus (Protobuf.ServerStatus.sessioncount m |>.getD 0).toInt)
  | ⟨.pktScLogin, _, _, _⟩ => some .loginResult
  | _ => none

def inbound (p : Packet) : Inbound (ProtoObject F) := ⟨p.frame.mType, p.frame.payload, net.object p⟩

end ProtoNet

/-- The number of sessions that a packet tells. -/
def countOf : Packet → Option Int
  | ⟨.pktCsServerStatus, m, _, _⟩ => some (Protobuf.ServerStatus.sessioncount m |>.getD 0).toInt
  | ⟨.pktScServerStatus, m, _, _⟩ => some (Protobuf.ServerStatus.sessioncount m |>.getD 0).toInt
  | _ => none

def counts (packets : List Packet) : List Int := packets.filterMap countOf

section
variable [Zero D] {net : ProtoNet F} {double : F → D} {w : Form1 D} {feeds : List (Feed F)} {feed : Feed F}

/-- The form after some packets. The color stays where a number has none. -/
structure Shown (net : ProtoNet F) (double : F → D) (w : Form1 D) (packets : List Packet) : Prop where
  table : Table double w (net.feeds packets)
  text : w.countText = (counts packets).getLast?.elim "" toString
  color : w.countBackColor = ((counts packets).filterMap Form1.backColor).getLast?

theorem shown_load (net : ProtoNet F) (double : F → D) : Shown net double Form1.load [] := ⟨table_load, rfl, rfl⟩

theorem Table.onFeed (h : Table double w feeds) (hb : feed.bidDepth ≠ []) (ha : feed.askDepth ≠ []) :
    ∃ w', w.onFeed double feed = some w' ∧ Table double w' (feeds ++ [feed]) := by
  cases hdict : w.mProductDict feed.productCode with
  | none => exact h.onFeed_new hdict
  | some fc => exact h.onFeed_again hdict hb ha

/-- The number of sessions is not part of the table. -/
theorem onFeed_count {w' : Form1 D} (h : w.onFeed double feed = some w') :
    w'.countText = w.countText ∧ w'.countBackColor = w.countBackColor := by
  unfold Form1.onFeed at h
  split at h
  · cases h
    exact ⟨rfl, rfl⟩
  · simp only [Option.bind_eq_bind, Option.bind_eq_some_iff, Option.pure_def, Option.some.injEq] at h
    obtain ⟨_, -, _, -, rfl⟩ := h
    exact ⟨rfl, rfl⟩

theorem Table.onServerStatus (h : Table double w feeds) (sessionCount : Int) :
    Table double (w.onServerStatus sessionCount) feeds := ⟨h.names, h.list, h.dict, h.handled, h.follows⟩

theorem feeds_concat (packets : List Packet) (p : Packet) :
    net.feeds (packets ++ [p]) = net.feeds packets ++ (net.feedOf p).toList := by
  rw [ProtoNet.feeds, List.filterMap_append, ProtoNet.feeds]
  cases h : net.feedOf p <;> simp [h]

theorem counts_concat (packets : List Packet) (p : Packet) :
    counts (packets ++ [p]) = counts packets ++ (countOf p).toList := by
  rw [counts, List.filterMap_append, counts]
  cases h : countOf p <;> simp [h]

/-- A packet that the form has nothing to do with. -/
theorem Shown.other {packets : List Packet} (h : Shown net double w packets) {p : Packet} (hf : net.feedOf p = none)
    (hc : countOf p = none) : Shown net double w (packets ++ [p]) := by
  constructor
  · rw [feeds_concat, hf, Option.toList_none, List.append_nil]
    exact h.table
  · rw [counts_concat, hc, Option.toList_none, List.append_nil]
    exact h.text
  · rw [counts_concat, hc, Option.toList_none, List.append_nil]
    exact h.color

theorem Shown.onServerStatus {packets : List Packet} (h : Shown net double w packets) {p : Packet} {count : Int}
    (hf : net.feedOf p = none) (hc : countOf p = some count) :
    Shown net double (w.onServerStatus count) (packets ++ [p]) := by
  constructor
  · rw [feeds_concat, hf, Option.toList_none, List.append_nil]
    exact h.table.onServerStatus count
  · rw [counts_concat, hc, Option.toList_some, List.getLast?_concat]
    rfl
  · rw [counts_concat, hc, Option.toList_some, List.filterMap_append]
    cases hb : Form1.backColor count with
    | none => simpa [Form1.onServerStatus, hb] using h.color
    | some color => simp [Form1.onServerStatus, hb]

theorem Shown.onFeed {packets : List Packet} (h : Shown net double w packets) {p : Packet} (hf : net.feedOf p = some feed)
    (hc : countOf p = none) (hb : feed.bidDepth ≠ []) (ha : feed.askDepth ≠ []) :
    ∃ w', w.onFeed double feed = some w' ∧ Shown net double w' (packets ++ [p]) := by
  obtain ⟨w', hw, ht⟩ := h.table.onFeed hb ha
  obtain ⟨htext, hcolor⟩ := onFeed_count hw
  refine ⟨w', hw, ?_, ?_, ?_⟩
  · rw [feeds_concat, hf]
    exact ht
  · rw [htext, counts_concat, hc, Option.toList_none, List.append_nil]
    exact h.text
  · rw [hcolor, counts_concat, hc, Option.toList_none, List.append_nil]
    exact h.color

theorem dispatch_packet (hnet : net.Faithful) (p : Packet) :
    SessionMgr.dispatch net.deserialize p.frame.mType p.frame.payload = .ok (net.inbound p) := by
  obtain ⟨packetType, m, hinit, hshort⟩ := p
  have hturn (proto : Proto) (inPacket : ProtoObject F) (type : Int16) (bytes : List Byte)
      (hp : protoOf type = some proto) (hread : net.deserialize proto bytes = some inPacket) :
      SessionMgr.dispatch net.deserialize type bytes = .ok ⟨type, bytes, some inPacket⟩ := by
    simp only [SessionMgr.dispatch, hp, hread]
  cases packetType with
  | pktScFeed => exact hturn .feed _ _ _ rfl (hnet.feed m hinit hshort)
  | pktCsServerStatus | pktScServerStatus => exact hturn .serverStatus _ _ _ rfl (hnet.serverStatus m hinit hshort)
  | pktScLogin => exact hturn .loginResult _ _ _ rfl (hnet.loginResult m hinit hshort)
  | pktCsLogin | pktCsChat | pktScChat | pktCsMove | pktScMove | pktCsOrder => rfl

/-- One packet, by its type. -/
theorem Shown.packet {packets : List Packet} (h : Shown net double w packets) (p : Packet)
    (hd : ∀ feed, net.feedOf p = some feed → feed.bidDepth ≠ [] ∧ feed.askDepth ≠ []) :
    ∃ w', w.onInbound double (net.inbound p) = some w' ∧ Shown net double w' (packets ++ [p]) := by
  obtain ⟨packetType, m, hinit, hshort⟩ := p
  cases packetType with
  | pktScFeed => exact h.onFeed (p := ⟨.pktScFeed, m, hinit, hshort⟩) rfl rfl (hd _ rfl).1 (hd _ rfl).2
  | pktCsServerStatus | pktScServerStatus => exact ⟨_, rfl, h.onServerStatus rfl rfl⟩
  | pktScLogin | pktCsLogin | pktCsChat | pktScChat | pktCsMove | pktScMove | pktCsOrder =>
    exact ⟨w, rfl, h.other rfl rfl⟩

/-- The packets, one after the other. -/
theorem shown_packets (net : ProtoNet F) (double : F → D) (packets : List Packet)
    (hd : ∀ feed ∈ net.feeds packets, feed.bidDepth ≠ [] ∧ feed.askDepth ≠ []) :
    ∃ w, (packets.map net.inbound).foldlM (Form1.onInbound double) Form1.load = some w ∧
      Shown net double w packets := by
  induction packets using List.reverseRecOn with
  | nil => exact ⟨_, rfl, shown_load net double⟩
  | append_singleton packets p ih =>
    rw [feeds_concat] at hd
    obtain ⟨w, hw, hs⟩ := ih fun feed hf => hd feed (List.mem_append_left _ hf)
    obtain ⟨w', hp, hs'⟩ := hs.packet p fun feed hf => hd feed (by simp [hf])
    refine ⟨w', ?_, hs'⟩
    rw [List.map_append, List.foldlM_append, hw]
    simpa using hp

/-- The beginning of what was sent: some packets, and nothing of the next but a part. -/
theorem watch_begins (hnet : net.Faithful) (double : F → D) (packets : List Packet)
    (hd : ∀ feed ∈ net.feeds packets, feed.bidDepth ≠ [] ∧ feed.askDepth ≠ []) {later : List Frame} {cut : List Byte}
    (hcut : frameCode.Begins later cut) :
    (SessionMgr.listen net.deserialize ((packets.flatMap fun p => p.call.bytes) ++ cut)).inbound =
      packets.map net.inbound ∧
    ∃ w, Form1.watch net double ((packets.flatMap fun p => p.call.bytes) ++ cut) = some w ∧ Shown net double w packets := by
  have hlisten := SessionMgr.listen_begins Packet.frame net.inbound packets (dispatch_packet hnet) hcut
  rw [Packet.stream_frames] at hlisten
  obtain ⟨w, hw, hs⟩ := shown_packets net double packets hd
  refine ⟨hlisten, w, ?_, hs⟩
  rw [Form1.watch, hlisten]
  exact hw

/-- At any moment, when `n` bytes of what the server sends have come: `ListenLoop` has
handed out the packets that are whole by then, and the form shows them, the table as far
as each product's feed came again. -/
theorem watch_shows (hnet : net.Faithful) (double : F → D) (packets : List Packet) (actions : List Sender.Action)
    {s : Sender} (hs : run Sender.step (.start clientBufSize) actions = some s)
    (hp : s.accepted = packets.map Packet.call)
    (hd : ∀ feed ∈ net.feeds packets, feed.bidDepth ≠ [] ∧ feed.askDepth ≠ []) (n : Nat) :
    ∃ shown later cut w, packets = shown ++ later ∧
      s.committed.take n = (shown.flatMap fun p => p.call.bytes) ++ cut ∧
      frameCode.Begins (later.map Packet.frame) cut ∧
      (SessionMgr.listen net.deserialize (s.committed.take n)).inbound = shown.map net.inbound ∧
      Form1.watch net double (s.committed.take n) = some w ∧
      (Reflects double w (net.feeds shown) ↔ Settled double (net.feeds shown)) ∧
      w.countText = (counts shown).getLast?.elim "" toString ∧
      w.countBackColor = ((counts shown).filterMap Form1.backColor).getLast? := by
  have hcom := (inv_of_run (fun _ _ _ => Sender.inv_step) Sender.inv_start hs).committed
  rw [hp, List.flatMap_map] at hcom
  have hsplit : frameCode.stream (packets.map Packet.frame) = s.committed.take n ++ s.committed.drop n := by
    rw [Packet.stream_frames, List.take_append_drop, hcom]
  obtain ⟨gs, hs', cut, hgs, htake, hcut, -⟩ := PrefixCode.split_stream hsplit
  obtain ⟨shown, later, rfl, rfl, rfl⟩ := List.map_eq_append_iff.1 hgs
  rw [Packet.stream_frames] at htake
  have hshown : ∀ feed ∈ net.feeds shown, feed.bidDepth ≠ [] ∧ feed.askDepth ≠ [] := by
    intro feed hf
    apply hd
    rw [ProtoNet.feeds, List.filterMap_append]
    exact List.mem_append_left _ hf
  obtain ⟨hlisten, w, hw, hshow⟩ := watch_begins hnet double shown hshown hcut
  rw [htake]
  exact ⟨shown, later, cut, w, rfl, rfl, hcut, hlisten, hw, hshow.table.reflects_iff, hshow.text, hshow.color⟩

end

/-! ## A protobuf-net -/

/-- One that reads as the server does, with Latin text and prices as their bits. -/
def latinNet : ProtoNet UInt32 where
  deserialize
    | .feed, bytes => (Protobuf.Feed.lite.parseFromCodedStream (.ofArray bytes)).toOption.map fun m =>
      .feed ((⟨fun _ _ => none, fun _ => [], latin, id⟩ : ProtoNet UInt32).feed m)
    | .serverStatus, bytes => (Protobuf.ServerStatus.lite.parseFromCodedStream (.ofArray bytes)).toOption.map fun m =>
      .serverStatus (m.sessioncount.getD 0).toInt
    | .loginResult, bytes => (Protobuf.LoginResult.lite.parseFromCodedStream (.ofArray bytes)).toOption.map fun _ =>
      .loginResult
  serialize sessionCount := Protobuf.ServerStatus.lite.encoding ⟨some sessionCount⟩
  text := latin
  single := id
where
  latin (bytes : List Byte) : String := String.ofList (bytes.map fun b => Char.ofNat b.toNat)

theorem latinNet_faithful : latinNet.Faithful where
  feed m hinit hshort := by
    have hparse := Protobuf.Feed.described.parse_encoding (by decide) hinit (Nat.lt_trans hshort (by decide))
    simp only [latinNet, hparse]
    rfl
  serverStatus m hinit hshort := by
    have hparse := Protobuf.ServerStatus.described.parse_encoding (by decide) hinit (Nat.lt_trans hshort (by decide))
    simp only [latinNet, hparse]
    rfl
  loginResult m hinit hshort := by
    have hparse := Protobuf.LoginResult.described.parse_encoding (by decide) hinit (Nat.lt_trans hshort (by decide))
    simp only [latinNet, hparse]
    rfl
  serialize _ := rfl

/-- A feed of one level, and a status. -/
def quotes : List Packet :=
  [⟨.pktScFeed, ⟨some [65], [⟨some 1, some 2, some 3⟩], [⟨some 4, some 5, some 6⟩]⟩, by decide, by decide⟩,
    ⟨.pktScServerStatus, ⟨some 7⟩, by decide, by decide⟩]

theorem quotes_depth : ∀ feed ∈ latinNet.feeds quotes, feed.bidDepth ≠ [] ∧ feed.askDepth ≠ [] :=
  List.forall_mem_singleton.2 ⟨List.cons_ne_nil _ _, List.cons_ne_nil _ _⟩

theorem watch_shows_quotes : ∃ s shown later cut w,
    run Sender.step (.start clientBufSize) (quotes.map fun p => .call p.call) = some s ∧ quotes = shown ++ later ∧
      s.committed.take 30 = (shown.flatMap fun p => p.call.bytes) ++ cut ∧
      frameCode.Begins (later.map Packet.frame) cut ∧
      (SessionMgr.listen latinNet.deserialize (s.committed.take 30)).inbound = shown.map latinNet.inbound ∧
      Form1.watch latinNet UInt32.toNat (s.committed.take 30) = some w ∧
      (Reflects UInt32.toNat w (latinNet.feeds shown) ↔ Settled UInt32.toNat (latinNet.feeds shown)) ∧
      w.countText = (counts shown).getLast?.elim "" toString ∧
      w.countBackColor = ((counts shown).filterMap Form1.backColor).getLast? := by
  obtain ⟨s, hs⟩ : ∃ s, run Sender.step (.start clientBufSize) (quotes.map fun p => .call p.call) = some s := ⟨_, rfl⟩
  have hp : s.accepted = quotes.map Packet.call := by
    cases hs
    rfl
  obtain ⟨shown, later, cut, w, h⟩ := watch_shows latinNet_faithful UInt32.toNat quotes _ hs hp quotes_depth 30
  exact ⟨s, shown, later, cut, w, hs, h⟩

/-! ## The status button -/

/-- What `timer1_Tick` sends. -/
def tick : Packet := ⟨.pktCsServerStatus, ⟨some 1⟩, by decide, by decide⟩

/-- What the server answers. -/
def status (sessionCount : Int32) : Packet where
  packetType := .pktScServerStatus
  message := myServerState sessionCount
  initialized := rfl
  short := Nat.lt_of_le_of_lt (myServerState_size sessionCount) (by decide)

theorem tick_bytes {net : ProtoNet F} (hnet : net.Faithful) :
    SessionMgr.sendPacket true true 8 (net.serialize 1) = tick.call.bytes := by
  rw [hnet.serialize]
  exact SessionMgr.sendPacket_eq 8 _

section
variable [Zero D] {net : ProtoNet F} {s : Session}

/-- A tick on a connection at rest, with nothing stored or in flight and all sent that
was committed: the form ends with the number of sessions the server has just then,
whatever packets it was sent before. -/
theorem tick_shows (hnet : net.Faithful) (double : F → D) (events : List Session.ServerEvent)
    (hr : run Session.serverStep .start events = some s) (hc : s.sender.mConnected = true)
    (he : s.mRecvBuffer.contents = []) (hstored : s.sender.mSendBuffer.contents = []) (hi : s.sender.inFlight = [])
    (hwire : s.sender.wire = s.sender.committed) {packets : List Packet}
    (hp : s.sender.accepted = packets.map Packet.call)
    (hd : ∀ feed ∈ net.feeds packets, feed.bidDepth ≠ [] ∧ feed.askDepth ≠ []) (sessionCount : Int32) :
    ∃ s₁ s₂ w, s.serverStep (.recv sessionCount (SessionMgr.sendPacket true true 8 (net.serialize 1))) = some s₁ ∧
      s₁.mRecvBuffer.contents = [] ∧ s₁.serverStep (.send .transmit) = some s₂ ∧
      Form1.watch net double s₂.sender.wire = some w ∧ w.countText = toString sessionCount.toInt ∧
      (∀ color, Form1.backColor sessionCount.toInt = some color → w.countBackColor = some color) ∧
      (Reflects double w (net.feeds packets) ↔ Settled double (net.feeds packets)) := by
  have hready := inv_of_run (I := fun s => Session.Ready s.mRecvBuffer) (fun _ _ _ => Session.ready_serverStep)
    Session.ready_start hr
  have hinv := inv_of_run (I := fun s : Session => s.sender.Inv) (fun _ _ _ => Session.sender_inv) Sender.inv_start hr
  have hflat : ([tick].flatMap fun p => p.call.bytes) = tick.call.bytes := by simp
  obtain ⟨s₁, hs₁, hsender, -, hnil⟩ := Session.serverStep_packets hready hc he [tick] (by simp)
    (by rw [hflat]; exact Session.call_bytes_le tick) sessionCount
  have hcall : s.sender.step (.call (status sessionCount).call) = some s₁.sender := by
    rw [hsender, List.map_singleton, List.foldl_cons, List.foldl_nil]
    exact Session.react_send s (status sessionCount)
  have h0 := (CircularBuffer.contents_nil hinv.buffer).1 hstored
  have hfits := Sender.fits_of_empty hinv hc h0 (Session.call_bytes_le (status sessionCount))
  obtain ⟨sender, htransmit, hsent⟩ := Sender.transmit_alone hinv hfits h0 hi hcall
  have hstream : sender.wire = ((packets ++ [status sessionCount]).flatMap fun p => p.call.bytes) ++ [] := by
    rw [hsent, hwire, hinv.committed, hp, List.flatMap_map, List.flatMap_append, List.append_nil]
    simp
  have hfeeds : net.feeds (packets ++ [status sessionCount]) = net.feeds packets := by
    rw [feeds_concat]
    exact List.append_nil _
  obtain ⟨-, w, hw, hshown⟩ := watch_begins hnet double (packets ++ [status sessionCount]) (by rwa [hfeeds])
    (frameCode.begins_nil [])
  have hcount : countOf (status sessionCount) = some sessionCount.toInt := rfl
  have hlast : counts (packets ++ [status sessionCount]) = counts packets ++ [sessionCount.toInt] := by
    rw [counts_concat, hcount, Option.toList_some]
  have htext := hshown.text
  have hcolor := hshown.color
  rw [hlast] at htext hcolor
  refine ⟨s₁, { s₁ with sender }, w, ?_, hnil, ?_, ?_, ?_, ?_, ?_⟩
  · rw [tick_bytes hnet, ← hflat]
    exact hs₁
  · rw [Session.serverStep, htransmit]
    rfl
  · rw [hstream]
    exact hw
  · rw [htext, List.getLast?_concat]
    rfl
  · intro color hback
    rw [hcolor, List.filterMap_append, List.filterMap_cons_some hback]
    exact List.getLast?_concat
  · rw [← hfeeds]
    exact hshown.table.reflects_iff

end

/-- A tick that has been answered and another. -/
theorem tick_shows_again : ∃ s s₁ s₂ w,
    run Session.serverStep .start [.recv 7 tick.call.bytes, .send .transmit, .send (.complete 0)] = some s ∧
      s.serverStep (.recv 120 (SessionMgr.sendPacket true true 8 (latinNet.serialize 1))) = some s₁ ∧
      s₁.serverStep (.send .transmit) = some s₂ ∧ Form1.watch latinNet UInt32.toNat s₂.sender.wire = some w ∧
      w.countText = toString (120 : Int32).toInt ∧ w.countBackColor = some .lightGreen := by
  obtain ⟨s, hs⟩ : ∃ s, run Session.serverStep .start [.recv 7 tick.call.bytes, .send .transmit, .send (.complete 0)] =
      some s := ⟨_, rfl⟩
  have hp : s.sender.accepted = [status 7].map Packet.call := by
    cases hs
    rfl
  have hrest : s.sender.mConnected = true ∧ s.mRecvBuffer.contents = [] ∧ s.sender.mSendBuffer.contents = [] ∧
      s.sender.inFlight = [] ∧ s.sender.wire = s.sender.committed := by
    cases hs
    decide
  obtain ⟨hc, he, hstored, hi, hwire⟩ := hrest
  obtain ⟨s₁, s₂, w, hs₁, -, hs₂, hw, htext, hcolor, -⟩ := tick_shows latinNet_faithful UInt32.toNat _ hs hc he hstored hi
    hwire hp (List.forall_mem_nil _) 120
  exact ⟨s, s₁, s₂, w, hs, hs₁, hs₂, hw, htext, hcolor .lightGreen (by decide)⟩

end MarketTable

end GameServer
