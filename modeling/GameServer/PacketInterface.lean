import GameServer.CircularBuffer
import GameServer.Lib.PrefixCode
/-!
# Packets on the wire

`PacketInterface.h`: every packet is a `PacketHeader` of two little-endian
`short`s followed by `mSize` payload bytes. A `Frame` is a packet the framing
rules allow; its bytes form a prefix code.
-/

namespace GameServer

open Lib

/-- The two bytes of a `short` in memory. -/
def shortBytes (x : Int16) : List Byte :=
  [UInt8.ofNat x.toUInt16.toNat, UInt8.ofNat (x.toUInt16.toNat / 256)]

/-- The `short` two bytes of memory hold. -/
def readShort (lo hi : Byte) : Int16 := (UInt16.ofNat (lo.toNat + 256 * hi.toNat)).toInt16

structure PacketHeader where
  mSize : Int16
  mType : Int16
  deriving DecidableEq

/-- `HEADER_SIZE`, the size of a `PacketHeader`. -/
def headerSize : Nat := 4

/-- `MAX_PKT_TYPE`. -/
def maxPktType : Int := 1024

/-- `CLIENT_BUFSIZE`. -/
def clientBufSize : Nat := 65536

def headerBytes (header : PacketHeader) : List Byte := shortBytes header.mSize ++ shortBytes header.mType

/-- The constructor's header when there are not four bytes to copy. -/
def readHeader : List Byte → PacketHeader
  | [a, b, c, d] => ⟨readShort a b, readShort c d⟩
  | _ => ⟨0, -1⟩

/-- The types `OnReceive` dispatches. -/
def ValidType (t : Int16) : Prop := 0 < t.toInt ∧ t.toInt < maxPktType

instance (t : Int16) : Decidable (ValidType t) := inferInstanceAs (Decidable (_ ∧ _))

/-- A packet with a type that is dispatched and a payload whose length a
`short` holds. -/
structure Frame where
  mType : Int16
  payload : List Byte
  valid : ValidType mType
  short : payload.length < 2 ^ 15

def Frame.mSize (f : Frame) : Int16 := Int16.ofNat f.payload.length

def Frame.encode (f : Frame) : List Byte := headerBytes ⟨f.mSize, f.mType⟩ ++ f.payload

@[simp] theorem length_headerBytes (header : PacketHeader) : (headerBytes header).length = headerSize := rfl

theorem readShort_shortBytes (x : Int16) :
    readShort (UInt8.ofNat x.toUInt16.toNat) (UInt8.ofNat (x.toUInt16.toNat / 256)) = x := by
  have hlt : x.toUInt16.toNat < 65536 := x.toUInt16.toNat_lt
  have e : (UInt8.ofNat x.toUInt16.toNat).toNat + 256 * (UInt8.ofNat (x.toUInt16.toNat / 256)).toNat = x.toUInt16.toNat := by
    simp only [UInt8.toNat_ofNat']
    omega
  rw [readShort, e, UInt16.ofNat_toNat, Int16.toInt16_toUInt16]

theorem shortBytes_readShort (lo hi : Byte) : shortBytes (readShort lo hi) = [lo, hi] := by
  have hlo : lo.toNat < 256 := lo.toNat_lt
  have hhi : hi.toNat < 256 := hi.toNat_lt
  have e : (lo.toNat + 256 * hi.toNat) % 2 ^ 16 = lo.toNat + 256 * hi.toNat := Nat.mod_eq_of_lt (by omega)
  simp only [shortBytes, readShort, UInt16.toUInt16_toInt16, UInt16.toNat_ofNat', e, List.cons.injEq, and_true]
  constructor <;> (apply UInt8.toNat_inj.1; simp only [UInt8.toNat_ofNat']; omega)

@[simp] theorem readHeader_headerBytes (header : PacketHeader) : readHeader (headerBytes header) = header := by
  simp only [headerBytes, shortBytes, List.cons_append, List.nil_append, readHeader, readShort_shortBytes]

theorem headerBytes_readHeader {bytes : List Byte} (h : bytes.length = headerSize) :
    headerBytes (readHeader bytes) = bytes := by
  match bytes, h with
  | [a, b, c, d], _ => simp [headerBytes, readHeader, shortBytes_readShort]

theorem headerBytes_inj {g h : PacketHeader} (e : headerBytes g = headerBytes h) : g = h := by
  rw [← readHeader_headerBytes g, e, readHeader_headerBytes]

theorem Frame.mSize_toInt (f : Frame) : f.mSize.toInt = f.payload.length := by
  have := f.short
  exact Int16.toInt_ofNat_of_lt this

theorem Frame.length_encode (f : Frame) : f.encode.length = headerSize + f.payload.length := by
  rw [encode, List.length_append, length_headerBytes]

/-- Frames are self-delimiting: the header says how long the payload is. -/
def frameCode : PrefixCode Frame Byte where
  encode := Frame.encode
  encode_ne_nil f h := by
    have := f.length_encode
    rw [h] at this
    simp only [List.length_nil, headerSize] at this
    omega
  prefix_free f g h := by
    obtain ⟨rest, h⟩ := h
    simp only [Frame.encode, List.append_assoc] at h
    obtain ⟨hh, hp⟩ := List.append_inj h rfl
    have hs := headerBytes_inj hh
    have hlen : f.payload.length = g.payload.length := by
      have := congrArg (fun p => Int16.toInt p.mSize) hs
      simp only [Frame.mSize_toInt] at this
      omega
    have hpay : f.payload = g.payload := List.IsPrefix.eq_of_length ⟨rest, hp⟩ hlen
    cases f
    cases g
    simp_all

/-- A valid type and enough bytes for a size that is not negative: a frame. -/
theorem frame_of_header {header : PacketHeader} {rest : List Byte} (hv : ValidType header.mType)
    (h0 : 0 ≤ header.mSize.toInt) (hle : header.mSize.toInt ≤ rest.length) :
    ∃ f : Frame, f.encode <+: headerBytes header ++ rest := by
  have hlt := header.mSize.toInt_lt
  have hlen : (rest.take header.mSize.toInt.toNat).length = header.mSize.toInt.toNat := by
    rw [List.length_take]; omega
  have hs : Int16.ofNat header.mSize.toInt.toNat = header.mSize := by
    apply Int16.toInt_inj.1
    rw [Int16.toInt_ofNat_of_lt (by omega), Int.toNat_of_nonneg h0]
  refine ⟨⟨header.mType, rest.take header.mSize.toInt.toNat, hv, by omega⟩, rest.drop header.mSize.toInt.toNat, ?_⟩
  simp only [Frame.encode, Frame.mSize, hlen, hs, List.append_assoc, List.take_append_drop]

end GameServer
