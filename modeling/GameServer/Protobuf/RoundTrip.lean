import GameServer.Protobuf.Messages
/-!
# Messages there and back

What is written of a message of any class, and what a parser makes of any bytes: of
those that were written, of several messages behind one another with fields among
them that it does not know, and of whatever else arrives.
-/

namespace GameServer

namespace Protobuf

open Lib
open Lib.Wire (WireType)

variable {M : Type}

/-- The bytes of a message. -/
def MessageLite.encoding (lite : MessageLite M) (m : M) : List Byte :=
  (lite.serializeWithCachedSizes m (.ofArray (lite.byteSize m))).written

/-- A record that no `case` of the loop is for. -/
def Unknown (cases : List (Case M)) (r : Wire.Record) : Prop :=
  (caseOf cases r.number).filter (·.wireType = r.value.wireType) = none

/-- Whole records and groups, which the loop passes over. -/
def Foreign (cases : List (Case M)) (bytes : List Byte) : Prop :=
  ∃ records, Wire.scan (fun _ => false) defaultRecursionLimit bytes = some (records, true) ∧
    ∀ r ∈ records, Unknown cases r

namespace Described

variable {cases : List (Case M)} {lite : MessageLite M} (desc : Described cases lite)

include desc

/-! ## Writing -/

section Writing
variable {m : M} (h : lite.byteSize m < 2 ^ 31)
include h

theorem encoding_eq : lite.encoding m = bytesOf (desc.records m) := by
  have hpart := desc.part m h
  rw [MessageLite.encoding, hpart.writes, CodedOutputStream.writeRaw, if_neg (by rw [hpart.length]; exact Nat.lt_irrefl _)]
  exact List.nil_append _

theorem encoding_length : (lite.encoding m).length = lite.byteSize m := by
  rw [desc.encoding_eq h, (desc.part m h).length]

theorem serialize_eq (output : CodedOutputStream) :
    lite.serializeWithCachedSizes m output = output.writeRaw (lite.encoding m) := by
  rw [desc.encoding_eq h]
  exact (desc.part m h).writes output

theorem toArray_eq : lite.serializeWithCachedSizesToArray m (lite.byteSize m) = some (lite.encoding m) := by
  have hlen := desc.encoding_length h
  have hstore : lite.serializeWithCachedSizes m (.ofArray (lite.byteSize m)) =
      (CodedOutputStream.ofArray (lite.byteSize m)).store (lite.encoding m) := by
    rw [desc.serialize_eq h, CodedOutputStream.store_eq (by rw [hlen]; exact Nat.le_refl _)]
  rw [MessageLite.serializeWithCachedSizesToArray, hstore]
  simp only [CodedOutputStream.store, CodedOutputStream.ofArray, Bool.or_self, Bool.false_eq_true, if_false,
    List.nil_append, hlen, Nat.sub_self, List.replicate_zero, List.append_nil]

/-- Directly or through the stream, the bytes are the same. -/
theorem toStream_eq {output : CodedOutputStream} (hcheck : output.checkFailed = false) :
    lite.serializeToCodedStream m output =
      some (decide (lite.byteSize m ≤ output.bufferSize), output.writeRaw (lite.encoding m)) := by
  have hlen := desc.encoding_length h
  unfold MessageLite.serializeToCodedStream CodedOutputStream.getDirectBufferForNBytesAndAdvance
  simp only [desc.toArray_eq h, desc.serialize_eq h]
  by_cases hroom : lite.byteSize m ≤ output.bufferSize
  · simp only [hroom, decide_true, if_true, Option.map_some]
    rw [CodedOutputStream.store_eq (by omega)]
  · have herror : output.writeRaw (lite.encoding m) =
        { output with
          written := output.written ++ (lite.encoding m).take output.bufferSize, bufferSize := 0, hadError := true } := by
      rw [CodedOutputStream.writeRaw, if_pos (by omega)]
    simp only [hroom, decide_false, Bool.false_eq_true, if_false, herror, hcheck, if_true]

end Writing

/-! ## Reading -/

/-- A parser on an array. -/
theorem merges_ofArray {data : List Byte} (hdata : data.length < defaultTotalBytesLimit) (m : M) :
    Merges (.ofArray data) (lite.mergePartialFromCodedStream (.ofArray data) m)
      (absorb desc.fields defaultRecursionLimit data m) := by
  obtain ⟨he, hready⟩ := CodedInputStream.ready_ofArray hdata
  have hspec := desc.merges _ m hready
  rw [he] at hspec ⊢
  exact hspec

theorem parse_eq {data : List Byte} (hdata : data.length < defaultTotalBytesLimit) :
    lite.parseFromCodedStream (.ofArray data) =
      match absorb desc.fields defaultRecursionLimit data lite.clear with
      | none => .error .returnedFalse
      | some (m, _) => if lite.isInitialized m then .ok m else .error .returnedFalse := by
  have hspec := desc.merges_ofArray hdata lite.clear
  unfold MessageLite.parseFromCodedStream MessageLite.mergeFromCodedStream
  match ho : absorb desc.fields defaultRecursionLimit data lite.clear with
  | none =>
    rw [ho] at hspec
    rw [hspec]
    rfl
  | some (m, true) =>
    rw [ho] at hspec
    rw [hspec]
    rfl
  | some (m, false) =>
    rw [ho] at hspec
    obtain ⟨s', he, -⟩ := hspec
    rw [he]
    rfl

theorem whole_encoding {m : M} (h : lite.byteSize m < 2 ^ 31) (c : Nat → Bool) (d : Nat) :
    Wire.Whole c d (lite.encoding m) (desc.records m) := by
  rw [desc.encoding_eq h]
  exact Wire.whole_flatMap (desc.part m h).valid c d

/-- The fields are those of the cases. -/
theorem unknown_field {r : Wire.Record} (h : Unknown cases r) :
    (fieldOf desc.fields r.number).filter (·.wireType = r.value.wireType) = none := by
  rcases caseOf_fieldOf desc.reads r.number with ⟨-, hf⟩ | ⟨c, f, hc, hf, -, hreads⟩
  · rw [hf]
    rfl
  · rw [Unknown, hc] at h
    rw [hf]
    simpa [Option.filter, hreads.wireType] using h

theorem whole_foreign {bytes : List Byte} {records : List Wire.Record}
    (h : Wire.scan (fun _ => false) defaultRecursionLimit bytes = some (records, true))
    (hu : ∀ r ∈ records, Unknown cases r) :
    Wire.Whole (capped desc.fields) defaultRecursionLimit bytes records := by
  apply Wire.whole_of_scan (Wire.scan_capped _ h)
  intro r hr htype
  have hnone := desc.unknown_field (hu r hr)
  rcases caseOf_fieldOf desc.reads r.number with ⟨-, hf⟩ | ⟨c, f, -, hf, -, hreads⟩
  · rw [capped, hf]
    rfl
  · have hw : f.wireType ≠ .lengthDelimited := by
      intro he
      rw [hf, htype] at hnone
      simp [Option.filter, he] at hnone
    rw [capped, hf, Option.any_some, Bool.eq_false_iff]
    intro hc
    exact hw (hreads.capped hc)

theorem foldlM_unknown {records : List Wire.Record} (h : ∀ r ∈ records, Unknown cases r) (d : Nat) (m : M) :
    records.foldlM (storeRecord desc.fields d) m = some m := by
  induction records with
  | nil => rfl
  | cons r records ih =>
    have hr : storeRecord desc.fields d m r = some m := by
      rw [storeRecord, desc.unknown_field (h r (by simp))]
    rw [List.foldlM_cons, hr]
    exact ih fun q hq => h q (by simp [hq])

end Described

/-! ## Messages and unknown fields behind one another -/

/-- A message, or bytes of fields that the class does not have. -/
inductive Piece (M : Type) where
  | message (m : M)
  | foreign (bytes : List Byte)

namespace Piece

def bytes (lite : MessageLite M) : Piece M → List Byte
  | .message m => lite.encoding m
  | .foreign bytes => bytes

def Good (cases : List (Case M)) (lite : MessageLite M) : Piece M → Prop
  | .message m => lite.byteSize m < 2 ^ 31
  | .foreign bytes => Foreign cases bytes

def merge (lite : MessageLite M) (m : M) : Piece M → M
  | .message other => lite.mergeFrom m other
  | .foreign _ => m

end Piece

theorem Described.whole_pieces {cases : List (Case M)} {lite : MessageLite M} (desc : Described cases lite)
    (hdepth : desc.depth ≤ defaultRecursionLimit) {pieces : List (Piece M)} (h : ∀ p ∈ pieces, p.Good cases lite) :
    ∃ records, Wire.Whole (capped desc.fields) defaultRecursionLimit (pieces.flatMap (Piece.bytes lite)) records ∧
      ∀ m, records.foldlM (storeRecord desc.fields defaultRecursionLimit) m =
        some (pieces.foldl (Piece.merge lite) m) := by
  induction pieces with
  | nil => exact ⟨[], Wire.whole_nil _ _, fun m => rfl⟩
  | cons p pieces ih =>
    obtain ⟨records, hwhole, hfold⟩ := ih fun q hq => h q (by simp [hq])
    have hp := h p (by simp)
    cases p with
    | message m' =>
      refine ⟨desc.records m' ++ records, (desc.whole_encoding hp _ _).append hwhole, fun m => ?_⟩
      rw [List.foldlM_append, desc.stored _ m m' hdepth hp]
      exact hfold _
    | foreign bytes =>
      obtain ⟨unknown, hscan, hu⟩ := hp
      refine ⟨unknown ++ records, (desc.whole_foreign hscan hu).append hwhole, fun m => ?_⟩
      rw [List.foldlM_append, desc.foldlM_unknown hu]
      exact hfold m

/-- A parser reads them all, and merges the messages into what there is. -/
theorem Described.merge_pieces {cases : List (Case M)} {lite : MessageLite M} (desc : Described cases lite)
    (hdepth : desc.depth ≤ defaultRecursionLimit) (pieces : List (Piece M)) (h : ∀ p ∈ pieces, p.Good cases lite)
    (m : M) :
    absorb desc.fields defaultRecursionLimit (pieces.flatMap (Piece.bytes lite)) m =
      some (pieces.foldl (Piece.merge lite) m, true) := by
  obtain ⟨records, hwhole, hfold⟩ := desc.whole_pieces hdepth h
  rw [absorb, hwhole.scan_eq]
  simp only [hfold, Option.map_some]

/-- What was written is read. -/
theorem Described.parse_encoding {cases : List (Case M)} {lite : MessageLite M} (desc : Described cases lite)
    (hdepth : desc.depth ≤ defaultRecursionLimit) {m : M} (hinit : lite.isInitialized m = true)
    (hsize : lite.byteSize m < defaultTotalBytesLimit) :
    lite.parseFromCodedStream (.ofArray (lite.encoding m)) = .ok m := by
  have hsmall : lite.byteSize m < 2 ^ 31 := Nat.lt_trans hsize (by decide)
  have habsorb := desc.merge_pieces hdepth [.message m] (by simpa [Piece.Good] using hsmall) lite.clear
  simp only [List.flatMap_cons, List.flatMap_nil, List.append_nil, Piece.bytes, List.foldl_cons, List.foldl_nil,
    Piece.merge, desc.mergeFrom_clear] at habsorb
  rw [desc.parse_eq (by rw [desc.encoding_length hsmall]; exact hsize), habsorb]
  simp only [hinit, if_true]

theorem Described.parse_ends {cases : List (Case M)} {lite : MessageLite M} (desc : Described cases lite)
    {data : List Byte} (h : data.length < defaultTotalBytesLimit) :
    lite.parseFromCodedStream (.ofArray data) = .error .returnedFalse ∨
      ∃ m, lite.parseFromCodedStream (.ofArray data) = .ok m ∧ lite.isInitialized m = true := by
  rw [desc.parse_eq h]
  cases absorb desc.fields defaultRecursionLimit data lite.clear with
  | none => exact .inl rfl
  | some r =>
    by_cases hinit : lite.isInitialized r.1 = true
    · exact .inr ⟨r.1, if_pos hinit, hinit⟩
    · exact .inl (if_neg hinit)

/-! ## The packets -/

namespace MyPacket

/-- `ByteSize` bytes are written, whichever way they go, and that they do not fit is
all that can go wrong. -/
theorem serialize_exact (p : MyPacket) (m : p.Message) (h : p.lite.byteSize m < 2 ^ 31) :
    (p.lite.encoding m).length = p.lite.byteSize m ∧
      ∀ output : CodedOutputStream, output.checkFailed = false →
        p.lite.serializeWithCachedSizes m output = output.writeRaw (p.lite.encoding m) ∧
        p.lite.serializeToCodedStream m output =
          some (decide (p.lite.byteSize m ≤ output.bufferSize), output.writeRaw (p.lite.encoding m)) :=
  ⟨p.described.encoding_length h, fun output hcheck =>
    ⟨p.described.serialize_eq h output, p.described.toStream_eq h hcheck⟩⟩

theorem serialize_exact_feed : (MyPacket.feed.lite.encoding
      (⟨some [65], [⟨some 1, some (-1), some 7⟩], []⟩ : Feed)).length =
    MyPacket.feed.lite.byteSize (⟨some [65], [⟨some 1, some (-1), some 7⟩], []⟩ : Feed) :=
  (serialize_exact .feed (⟨some [65], [⟨some 1, some (-1), some 7⟩], []⟩ : Feed) (by decide)).1

/-- A parser gets the message back. -/
theorem parse_serialized (p : MyPacket) (m : p.Message) (hinit : p.lite.isInitialized m = true)
    (hsize : p.lite.byteSize m < defaultTotalBytesLimit) {size : Nat} (hroom : p.lite.byteSize m ≤ size) :
    ∃ output, p.lite.serializeToCodedStream m (.ofArray size) = some (true, output) ∧
      output.written.length = p.lite.byteSize m ∧
      p.lite.parseFromCodedStream (.ofArray output.written) = .ok m := by
  have hsmall : p.lite.byteSize m < 2 ^ 31 := Nat.lt_trans hsize (by decide)
  have hlen := p.described.encoding_length hsmall
  have hwritten : ((CodedOutputStream.ofArray size).writeRaw (p.lite.encoding m)).written = p.lite.encoding m := by
    rw [CodedOutputStream.writeRaw, if_neg (by rw [hlen]; exact Nat.not_lt.2 hroom)]
    exact List.nil_append _
  refine ⟨(CodedOutputStream.ofArray size).writeRaw (p.lite.encoding m), ?_, ?_, ?_⟩
  · rw [p.described.toStream_eq hsmall rfl]
    simp only [CodedOutputStream.ofArray, hroom, decide_true]
  · rw [hwritten, hlen]
  · rw [hwritten, p.described.parse_encoding (Nat.le_trans p.depth_le (by decide)) hinit hsize]

theorem parse_serialized_order : ∃ output,
    Order.lite.serializeToCodedStream ⟨some 7, some (-2), some 1, some [75, 82]⟩ (.ofArray 64) = some (true, output) ∧
      output.written.length = Order.lite.byteSize ⟨some 7, some (-2), some 1, some [75, 82]⟩ ∧
      Order.lite.parseFromCodedStream (.ofArray output.written) = .ok ⟨some 7, some (-2), some 1, some [75, 82]⟩ :=
  parse_serialized .order (⟨some 7, some (-2), some 1, some [75, 82]⟩ : Order) (by decide) (by decide) (by decide)

/-- Messages behind one another are merged, and what lies between them is ignored. -/
theorem merge_concatenated (p : MyPacket) {pieces : List (Piece p.Message)}
    (h : ∀ piece ∈ pieces, piece.Good p.cases p.lite)
    (hsize : (pieces.flatMap (Piece.bytes p.lite)).length < defaultTotalBytesLimit) (m : p.Message) :
    ∃ input, p.lite.mergePartialFromCodedStream (.ofArray (pieces.flatMap (Piece.bytes p.lite))) m =
        .ok (pieces.foldl (Piece.merge p.lite) m, input) ∧
      input.buffer = [] ∧ input.consumedEntireMessage = true := by
  have hdepth : p.described.depth ≤ defaultRecursionLimit := Nat.le_trans p.depth_le (by decide)
  have hspec := p.described.merges_ofArray hsize m
  rw [p.described.merge_pieces hdepth pieces h m] at hspec
  exact ⟨_, hspec, rfl, rfl⟩

/-- A login result in two parts, with a group and a field between them that it does not have. -/
def parts : List (Piece LoginResult) :=
  [.message ⟨some 7, none, none⟩, .foreign [51, 40, 1, 52, 40, 1], .message ⟨none, some [65], none⟩]

theorem merge_concatenated_parts : ∃ input,
    LoginResult.lite.mergePartialFromCodedStream (.ofArray (parts.flatMap (Piece.bytes LoginResult.lite)))
        ⟨some 1, none, none⟩ = .ok (⟨some 7, some [65], none⟩, input) ∧
      input.buffer = [] ∧ input.consumedEntireMessage = true := by
  have hgood : ∀ piece ∈ parts, piece.Good LoginResult.cases LoginResult.lite := by
    intro piece hmem
    simp only [parts, List.mem_cons, List.not_mem_nil, or_false] at hmem
    rcases hmem with rfl | rfl | rfl
    · exact show LoginResult.lite.byteSize ⟨some 7, none, none⟩ < 2 ^ 31 by decide
    · exact ⟨[⟨5, .varint 1⟩], rfl, by simp [Unknown, caseOf, LoginResult.cases]⟩
    · exact show LoginResult.lite.byteSize ⟨none, some [65], none⟩ < 2 ^ 31 by decide
  exact merge_concatenated .loginResult hgood (by decide) (⟨some 1, none, none⟩ : LoginResult)

/-- Bytes from anywhere: the parser stays within them, ends, and what it accepts is
initialized. -/
theorem parse_safe (p : MyPacket) (data : List Byte) (h : data.length < defaultTotalBytesLimit) :
    (∀ m, p.lite.mergePartialFromCodedStream (.ofArray data) m = .error .returnedFalse ∨
      ∃ r, p.lite.mergePartialFromCodedStream (.ofArray data) m = .ok r) ∧
    (p.lite.parseFromCodedStream (.ofArray data) = .error .returnedFalse ∨
      ∃ m, p.lite.parseFromCodedStream (.ofArray data) = .ok m ∧ p.lite.isInitialized m = true) := by
  constructor
  · intro m
    have hspec := p.described.merges_ofArray h m
    match ho : absorb p.described.fields defaultRecursionLimit data m with
    | none =>
      rw [ho] at hspec
      exact .inl hspec
    | some (m', true) =>
      rw [ho] at hspec
      exact .inr ⟨_, hspec⟩
    | some (m', false) =>
      rw [ho] at hspec
      obtain ⟨s', he, -⟩ := hspec
      exact .inr ⟨_, he⟩
  · exact p.described.parse_ends h

theorem parse_safe_cut : Feed.lite.parseFromCodedStream (.ofArray [10, 1, 65, 18, 200]) = .error .returnedFalse ∨
    ∃ m, Feed.lite.parseFromCodedStream (.ofArray [10, 1, 65, 18, 200]) = .ok m ∧ Feed.lite.isInitialized m = true :=
  (parse_safe .feed [10, 1, 65, 18, 200] (by decide)).2

/-- The loop with its jumps reads what a plain pass over the records does. -/
theorem merge_plain (p : MyPacket) (data : List Byte) (h : data.length < defaultTotalBytesLimit) (m : p.Message) :
    Merges (.ofArray data) (p.lite.mergePartialFromCodedStream (.ofArray data) m)
      (absorb p.described.fields defaultRecursionLimit data m) :=
  p.described.merges_ofArray h m

theorem merge_plain_order : Merges (.ofArray [8, 1, 16, 2, 8, 3])
    (Order.lite.mergePartialFromCodedStream (.ofArray [8, 1, 16, 2, 8, 3]) Order.lite.clear)
    (absorb Order.described.fields defaultRecursionLimit [8, 1, 16, 2, 8, 3] Order.lite.clear) :=
  merge_plain .order [8, 1, 16, 2, 8, 3] (by decide) Order.lite.clear

/-- Groups may be open in each other up to the limit. -/
theorem merge_nested (p : MyPacket) {number : Nat} (hpos : 0 < number) (hlt : number < 2 ^ 29) {n : Nat}
    (h : (Wire.nested number n).length < defaultTotalBytesLimit) (m : p.Message) :
    (n ≤ defaultRecursionLimit → ∃ input,
      p.lite.mergePartialFromCodedStream (.ofArray (Wire.nested number n)) m = .ok (m, input)) ∧
    (defaultRecursionLimit < n →
      p.lite.mergePartialFromCodedStream (.ofArray (Wire.nested number n)) m = .error .returnedFalse) := by
  have hspec := p.described.merges_ofArray h m
  rw [absorb, Wire.scan_nested hpos hlt] at hspec
  constructor
  · intro hn
    rw [if_pos hn] at hspec
    exact ⟨_, hspec⟩
  · intro hn
    rw [if_neg (by omega)] at hspec
    exact hspec

theorem merge_nested_two : ∃ input,
    Order.lite.mergePartialFromCodedStream (.ofArray (Wire.nested 9 2)) Order.lite.clear = .ok (Order.lite.clear, input) := by
  have hlen : (Wire.nested 9 2).length < defaultTotalBytesLimit := by
    simp [Wire.nested, Wire.openTag, Wire.closeTag, Wire.WireType.bits, Varint.encode_small, defaultTotalBytesLimit]
  exact (merge_nested .order (by decide) (by decide) hlen Order.lite.clear).1 (by decide)

end MyPacket

end Protobuf

end GameServer
