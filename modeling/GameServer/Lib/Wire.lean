import GameServer.Lib.Varint
/-!
# Tagged records

A message is a string of records: a tag, which holds a number and how the value is
written, and the value. Groups are pairs of tags with records between them, and are
passed over; a tag that is 0 or not complete ends the message early, as does the
end of a group that nobody opened. `capped` says of which numbers a value that is
cut off by the end of the bytes is taken as it is.
-/

namespace Lib

namespace Wire

inductive WireType where
  | varint | fixed64 | lengthDelimited | startGroup | endGroup | fixed32 | other
  deriving DecidableEq

def WireType.ofBits : Nat → WireType
  | 0 => .varint
  | 1 => .fixed64
  | 2 => .lengthDelimited
  | 3 => .startGroup
  | 4 => .endGroup
  | 5 => .fixed32
  | _ => .other

def WireType.bits : WireType → Nat
  | .varint => 0
  | .fixed64 => 1
  | .lengthDelimited => 2
  | .startGroup => 3
  | .endGroup => 4
  | .fixed32 => 5
  | .other => 6

inductive Value where
  | varint (n : Nat)
  | fixed64 (bytes : List UInt8)
  | delimited (bytes : List UInt8)
  | fixed32 (bytes : List UInt8)
  deriving DecidableEq

namespace Value

def wireType : Value → WireType
  | .varint _ => .varint
  | .fixed64 _ => .fixed64
  | .delimited _ => .lengthDelimited
  | .fixed32 _ => .fixed32

def encode : Value → List UInt8
  | .varint n => Varint.encode n
  | .fixed64 bytes => bytes
  | .delimited bytes => Varint.encode bytes.length ++ bytes
  | .fixed32 bytes => bytes

def Valid : Value → Prop
  | .varint n => n < 2 ^ 64
  | .fixed64 bytes => bytes.length = 8
  | .delimited bytes => bytes.length < 2 ^ 32
  | .fixed32 bytes => bytes.length = 4

end Value

structure Record where
  number : Nat
  value : Value
  deriving DecidableEq

namespace Record

def encode (r : Record) : List UInt8 := Varint.encode (r.number * 8 + r.value.wireType.bits) ++ r.value.encode

structure Valid (r : Record) : Prop where
  pos : 0 < r.number
  lt : r.number < 2 ^ 29
  value : r.value.Valid

end Record

/-- The value at the front, and what follows it. -/
def readValue (capped : Bool) : WireType → List UInt8 → Option (Value × List UInt8)
  | .varint, bytes => (Varint.read 10 bytes).map fun r => (.varint (r.1 % 2 ^ 64), r.2)
  | .fixed64, bytes => if 8 ≤ bytes.length then some (.fixed64 (bytes.take 8), bytes.drop 8) else none
  | .lengthDelimited, bytes =>
    match Varint.read 10 bytes with
    | none => none
    | some (n, rest) =>
      if n % 2 ^ 32 ≤ rest.length ∨ capped = true then
        some (.delimited (rest.take (n % 2 ^ 32)), rest.drop (n % 2 ^ 32))
      else none
  | .fixed32, bytes => if 4 ≤ bytes.length then some (.fixed32 (bytes.take 4), bytes.drop 4) else none
  | _, _ => none

/-- What is at the front of some bytes. -/
inductive Item where
  /-- There are no bytes. -/
  | finished
  /-- A tag that is 0 or not complete. -/
  | stopped
  | close (number : Nat) (rest : List UInt8)
  /-- A whole group. -/
  | skipped (rest : List UInt8)
  | record (r : Record) (rest : List UInt8)
  | failed
  deriving DecidableEq

/-- The item of a tag, with `group` to pass over a group of a number. -/
def tagged (group : Nat → List UInt8 → Option (List UInt8)) (capped : Nat → Bool) (tag : Nat)
    (bytes : List UInt8) : Item :=
  match WireType.ofBits (tag % 8) with
  | .endGroup => .close (tag / 8) bytes
  | .startGroup =>
    match group (tag / 8) bytes with
    | none => .failed
    | some rest => .skipped rest
  | type =>
    match readValue (capped (tag / 8)) type bytes with
    | none => .failed
    | some (value, rest) => .record ⟨tag / 8, value⟩ rest

def item (group : Nat → List UInt8 → Option (List UInt8)) (capped : Nat → Bool) (bytes : List UInt8) : Item :=
  if bytes = [] then .finished
  else
    match Varint.read 10 bytes with
    | none => .stopped
    | some (n, rest) => if n % 2 ^ 32 = 0 then .stopped else tagged group capped (n % 2 ^ 32) rest

/-- What follows the end of the group, `n` items away at most. -/
def closeGroup (item : List UInt8 → Item) (number : Nat) : Nat → List UInt8 → Option (List UInt8)
  | 0, _ => none
  | n + 1, bytes =>
    match item bytes with
    | .close k rest => if k = number then some rest else none
    | .skipped rest => closeGroup item number n rest
    | .record _ rest => closeGroup item number n rest
    | _ => none

/-- What follows a group with at most `d` groups in each other, itself included. -/
def skipGroup : Nat → Nat → List UInt8 → Option (List UInt8)
  | 0, _, _ => none
  | d + 1, number, bytes => closeGroup (item (skipGroup d) fun _ => false) number bytes.length bytes

def scanItems (item : List UInt8 → Item) : Nat → List UInt8 → Option (List Record × Bool)
  | 0, _ => none
  | n + 1, bytes =>
    match item bytes with
    | .finished => some ([], true)
    | .stopped => some ([], false)
    | .close _ _ => some ([], false)
    | .skipped rest => scanItems item n rest
    | .record r rest => (scanItems item n rest).map fun m => (r :: m.1, m.2)
    | .failed => none

/-- The records of a message and whether it takes all the bytes. -/
def scan (capped : Nat → Bool) (d : Nat) (bytes : List UInt8) : Option (List Record × Bool) :=
  scanItems (item (skipGroup d) capped) (bytes.length + 1) bytes

theorem tagged_endGroup (group : Nat → List UInt8 → Option (List UInt8)) (capped : Nat → Bool) {tag : Nat}
    (bytes : List UInt8) (h : WireType.ofBits (tag % 8) = .endGroup) :
    tagged group capped tag bytes = .close (tag / 8) bytes := by
  rw [tagged, h]

theorem tagged_startGroup (group : Nat → List UInt8 → Option (List UInt8)) (capped : Nat → Bool) {tag : Nat}
    (bytes : List UInt8) (h : WireType.ofBits (tag % 8) = .startGroup) :
    tagged group capped tag bytes =
      match group (tag / 8) bytes with
      | none => .failed
      | some rest => .skipped rest := by
  rw [tagged, h]

theorem tagged_value (group : Nat → List UInt8 → Option (List UInt8)) (capped : Nat → Bool) {tag : Nat}
    (bytes : List UInt8) (hs : WireType.ofBits (tag % 8) ≠ .startGroup) (he : WireType.ofBits (tag % 8) ≠ .endGroup) :
    tagged group capped tag bytes =
      match readValue (capped (tag / 8)) (.ofBits (tag % 8)) bytes with
      | none => .failed
      | some (value, rest) => .record ⟨tag / 8, value⟩ rest := by
  unfold tagged
  split
  · exact absurd ‹_› he
  · exact absurd ‹_› hs
  · rfl

/-! ## Every item takes a byte -/

/-- What an item leaves. -/
def Item.rest : Item → Option (List UInt8)
  | .close _ rest => some rest
  | .skipped rest => some rest
  | .record _ rest => some rest
  | _ => none

def Shrinks (item : List UInt8 → Item) : Prop :=
  ∀ bytes rest, (item bytes).rest = some rest → rest.length < bytes.length

theorem readValue_length_le {capped : Bool} {type : WireType} {bytes rest : List UInt8} {v : Value}
    (h : readValue capped type bytes = some (v, rest)) : rest.length ≤ bytes.length := by
  cases type with
  | varint =>
    simp only [readValue, Option.map_eq_some_iff, Prod.mk.injEq] at h
    obtain ⟨r, hr, -, rfl⟩ := h
    exact Nat.le_of_lt (Varint.read_length_lt hr)
  | lengthDelimited =>
    simp only [readValue] at h
    split at h
    · cases h
    case h_2 n left hr =>
      have := Varint.read_length_lt hr
      split at h
      · simp only [Option.some.injEq, Prod.mk.injEq] at h
        rw [← h.2, List.length_drop]
        omega
      · cases h
  | fixed64 | fixed32 =>
    simp only [readValue] at h
    split at h
    · simp only [Option.some.injEq, Prod.mk.injEq] at h
      rw [← h.2, List.length_drop]
      omega
    · cases h
  | startGroup | endGroup | other => cases h

theorem tagged_length_le {group : Nat → List UInt8 → Option (List UInt8)} {capped : Nat → Bool}
    (hg : ∀ number bytes rest, group number bytes = some rest → rest.length < bytes.length)
    {tag : Nat} {bytes rest : List UInt8} (h : (tagged group capped tag bytes).rest = some rest) :
    rest.length ≤ bytes.length := by
  unfold tagged at h
  split at h
  · simp only [Item.rest, Option.some.injEq] at h
    exact Nat.le_of_eq (congrArg List.length h.symm)
  · split at h
    · cases h
    case h_2 left hleft =>
      simp only [Item.rest, Option.some.injEq] at h
      rw [← h]
      exact Nat.le_of_lt (hg _ _ _ hleft)
  · split at h
    · cases h
    case h_2 v left hleft =>
      simp only [Item.rest, Option.some.injEq] at h
      rw [← h]
      exact readValue_length_le hleft

theorem item_shrinks {group : Nat → List UInt8 → Option (List UInt8)} (capped : Nat → Bool)
    (hg : ∀ number bytes rest, group number bytes = some rest → rest.length < bytes.length) :
    Shrinks (item group capped) := by
  intro bytes rest h
  unfold item at h
  split at h
  · cases h
  · split at h
    · cases h
    case h_2 n left hread =>
      split at h
      · cases h
      · exact Nat.lt_of_le_of_lt (tagged_length_le hg h) (Varint.read_length_lt hread)

theorem closeGroup_length_lt {item : List UInt8 → Item} (hi : Shrinks item) {number n : Nat}
    {bytes rest : List UInt8} (h : closeGroup item number n bytes = some rest) : rest.length < bytes.length := by
  induction n generalizing bytes with
  | zero => cases h
  | succ n ih =>
    have hs := hi bytes
    unfold closeGroup at h
    split at h
    case h_1 k left hitem =>
      split at h
      · simp only [Option.some.injEq] at h
        exact h ▸ hs left (by rw [hitem]; rfl)
      · cases h
    case h_2 left hitem => exact Nat.lt_trans (ih h) (hs left (by rw [hitem]; rfl))
    case h_3 r left hitem => exact Nat.lt_trans (ih h) (hs left (by rw [hitem]; rfl))
    case h_4 => cases h

theorem skipGroup_length_lt {d number : Nat} {bytes rest : List UInt8} (h : skipGroup d number bytes = some rest) :
    rest.length < bytes.length := by
  induction d generalizing number bytes rest with
  | zero => cases h
  | succ d ih => exact closeGroup_length_lt (item_shrinks _ fun _ _ _ h => ih h) h

theorem shrinks (d : Nat) (capped : Nat → Bool) : Shrinks (item (skipGroup d) capped) :=
  item_shrinks capped fun _ _ _ h => skipGroup_length_lt h

/-! ## As many items as bytes are enough -/

theorem closeGroup_enough {item : List UInt8 → Item} (hi : Shrinks item) {number n m : Nat} {bytes : List UInt8}
    (hn : bytes.length ≤ n) (hm : bytes.length ≤ m) (h0 : item [] = .finished) :
    closeGroup item number n bytes = closeGroup item number m bytes := by
  induction n generalizing m bytes with
  | zero =>
    have : bytes = [] := List.length_eq_zero_iff.1 (by omega)
    subst this
    cases m with
    | zero => rfl
    | succ m => simp [closeGroup, h0]
  | succ n ih =>
    cases m with
    | zero =>
      have : bytes = [] := List.length_eq_zero_iff.1 (by omega)
      subst this
      simp [closeGroup, h0]
    | succ m =>
      have hs := hi bytes
      unfold closeGroup
      split
      case h_1 => rfl
      case h_2 rest hitem =>
        have := hs rest (by rw [hitem]; rfl)
        exact ih (by omega) (by omega)
      case h_3 r rest hitem =>
        have := hs rest (by rw [hitem]; rfl)
        exact ih (by omega) (by omega)
      case h_4 => rfl

theorem scanItems_enough {item : List UInt8 → Item} (hi : Shrinks item) {n m : Nat} {bytes : List UInt8}
    (hn : bytes.length < n) (hm : bytes.length < m) : scanItems item n bytes = scanItems item m bytes := by
  induction n generalizing m bytes with
  | zero => omega
  | succ n ih =>
    obtain ⟨m, rfl⟩ : ∃ k, m = k + 1 := ⟨m - 1, by omega⟩
    have hs := hi bytes
    unfold scanItems
    split
    case h_4 rest hitem =>
      have := hs rest (by rw [hitem]; rfl)
      exact ih (by omega) (by omega)
    case h_5 r rest hitem =>
      have := hs rest (by rw [hitem]; rfl)
      rw [ih (m := m) (by omega) (by omega)]
    all_goals rfl

/-- `scan` without its bound. -/
theorem scan_eq (capped : Nat → Bool) (d : Nat) (bytes : List UInt8) :
    scan capped d bytes =
      match item (skipGroup d) capped bytes with
      | .finished => some ([], true)
      | .stopped => some ([], false)
      | .close _ _ => some ([], false)
      | .skipped rest => scan capped d rest
      | .record r rest => (scan capped d rest).map fun m => (r :: m.1, m.2)
      | .failed => none := by
  have hs := shrinks d capped bytes
  rw [scan, scanItems]
  cases hitem : item (skipGroup d) capped bytes with
  | skipped rest =>
    have := hs rest (by rw [hitem]; rfl)
    exact scanItems_enough (shrinks d capped) (by omega) (by omega)
  | record r rest =>
    have := hs rest (by rw [hitem]; rfl)
    simp only [scan]
    rw [scanItems_enough (m := rest.length + 1) (shrinks d capped) (by omega) (by omega)]
  | finished | stopped | close | failed => rfl

/-- `skipGroup` without its bound. -/
theorem skipGroup_succ_eq (d number : Nat) (bytes : List UInt8) :
    skipGroup (d + 1) number bytes =
      match item (skipGroup d) (fun _ => false) bytes with
      | .close k rest => if k = number then some rest else none
      | .skipped rest => skipGroup (d + 1) number rest
      | .record _ rest => skipGroup (d + 1) number rest
      | _ => none := by
  have hs := shrinks d (fun _ => false) bytes
  have h0 : item (skipGroup d) (fun _ => false) [] = .finished := rfl
  have hfuel : skipGroup (d + 1) number bytes =
      closeGroup (item (skipGroup d) fun _ => false) number (bytes.length + 1) bytes :=
    closeGroup_enough (shrinks d _) (Nat.le_refl _) (by omega) h0
  rw [hfuel, closeGroup]
  cases hitem : item (skipGroup d) (fun _ => false) bytes with
  | skipped rest | record r rest =>
    have := hs rest (by rw [hitem]; rfl)
    exact closeGroup_enough (shrinks d _) (by omega) (Nat.le_refl _) h0
  | finished | stopped | close | failed => rfl

/-- What follows an item that is passed over. -/
def Item.past : Item → Option (List UInt8)
  | .skipped rest => some rest
  | .record _ rest => some rest
  | _ => none

theorem Item.rest_of_past {i : Item} {rest : List UInt8} (h : i.past = some rest) : i.rest = some rest := by
  cases i with
  | skipped left | record r left => exact h
  | finished | stopped | close | failed => cases h

/-! ## What is written is read back -/

@[simp] theorem ofBits_bits (v : Value) : WireType.ofBits v.wireType.bits = v.wireType := by
  cases v <;> rfl

theorem bits_lt (v : Value) : v.wireType.bits < 8 := by
  cases v <;> simp [Value.wireType, WireType.bits]

theorem readValue_encode {v : Value} (hv : v.Valid) (capped : Bool) (rest : List UInt8) :
    readValue capped v.wireType (v.encode ++ rest) = some (v, rest) := by
  cases v with
  | varint n =>
    have hn : n < 2 ^ 64 := hv
    have hlen : (Varint.encode n).length ≤ 10 := Varint.length_encode_le (Nat.lt_of_lt_of_le hn (by decide))
    simp only [Value.wireType, Value.encode, readValue, Varint.read_encode rest hlen, Option.map_some,
      Nat.mod_eq_of_lt hn]
  | delimited bytes =>
    have hn : bytes.length < 2 ^ 32 := hv
    have hlen : (Varint.encode bytes.length).length ≤ 10 :=
      Varint.length_encode_le (Nat.lt_of_lt_of_le hn (by decide))
    simp only [Value.wireType, Value.encode, List.append_assoc, readValue, Varint.read_encode _ hlen,
      Nat.mod_eq_of_lt hn, List.length_append, List.take_left, List.drop_left]
    rw [if_pos (.inl (Nat.le_add_right _ _))]
  | fixed64 bytes | fixed32 bytes =>
    have hn := hv
    simp only [Value.Valid] at hn
    simp only [Value.wireType, Value.encode, readValue, List.length_append, hn, Nat.le_add_right, if_true]
    rw [← hn, List.take_left, List.drop_left]

theorem item_tag {number bits : Nat} (hpos : 0 < number) (hlt : number < 2 ^ 29) (hbits : bits < 8)
    (group : Nat → List UInt8 → Option (List UInt8)) (capped : Nat → Bool) (rest : List UInt8) :
    item group capped (Varint.encode (number * 8 + bits) ++ rest) = tagged group capped (number * 8 + bits) rest := by
  have hlen : (Varint.encode (number * 8 + bits)).length ≤ 10 :=
    Varint.length_encode_le (Nat.lt_of_lt_of_le (show _ < 2 ^ 32 by omega) (by decide))
  have hmod : (number * 8 + bits) % 2 ^ 32 = number * 8 + bits := Nat.mod_eq_of_lt (by omega)
  rw [item, if_neg (by simp [Varint.encode_ne_nil]), Varint.read_encode _ hlen]
  simp only [hmod]
  rw [if_neg (by omega)]

theorem item_encode {r : Record} (hr : r.Valid) (group : Nat → List UInt8 → Option (List UInt8))
    (capped : Nat → Bool) (rest : List UInt8) : item group capped (r.encode ++ rest) = .record r rest := by
  have hbits := bits_lt r.value
  have htype : (r.number * 8 + r.value.wireType.bits) % 8 = r.value.wireType.bits := by omega
  have hnumber : (r.number * 8 + r.value.wireType.bits) / 8 = r.number := by omega
  have hread := readValue_encode hr.value (capped r.number) rest
  rw [Record.encode, List.append_assoc, item_tag hr.pos hr.lt hbits]
  unfold tagged
  rw [htype, hnumber, ofBits_bits]
  obtain ⟨number, value⟩ := r
  cases value <;> simp only [Value.wireType] at hread ⊢ <;> rw [hread]

/-! ## Strings of whole items -/

@[simp] theorem scan_nil (capped : Nat → Bool) (d : Nat) : scan capped d [] = some ([], true) := rfl

/-- The bytes are the records, whatever follows them. -/
def Whole (capped : Nat → Bool) (d : Nat) (bytes : List UInt8) (records : List Record) : Prop :=
  ∀ rest, scan capped d (bytes ++ rest) = (scan capped d rest).map fun m => (records ++ m.1, m.2)

theorem whole_nil (capped : Nat → Bool) (d : Nat) : Whole capped d [] [] := by
  intro rest
  simp

theorem Whole.append {capped : Nat → Bool} {d : Nat} {a b : List UInt8} {rs qs : List Record}
    (ha : Whole capped d a rs) (hb : Whole capped d b qs) : Whole capped d (a ++ b) (rs ++ qs) := by
  intro rest
  rw [List.append_assoc, ha, hb, Option.map_map]
  simp only [Function.comp_def, List.append_assoc]

theorem Whole.scan_eq {capped : Nat → Bool} {d : Nat} {bytes : List UInt8} {records : List Record}
    (h : Whole capped d bytes records) : scan capped d bytes = some (records, true) := by
  simpa using h []

theorem whole_encode {r : Record} (hr : r.Valid) (capped : Nat → Bool) (d : Nat) :
    Whole capped d r.encode [r] := by
  intro rest
  rw [Wire.scan_eq, item_encode hr]
  rfl

theorem whole_flatMap {records : List Record} (h : ∀ r ∈ records, r.Valid) (capped : Nat → Bool) (d : Nat) :
    Whole capped d (records.flatMap Record.encode) records := by
  induction records with
  | nil => exact whole_nil capped d
  | cons r records ih =>
    rw [List.flatMap_cons]
    exact (whole_encode (h r (by simp)) capped d).append (ih fun q hq => h q (by simp [hq]))

/-! ## Bytes added behind -/

theorem readValue_append {type : WireType} {bytes rest : List UInt8} {v : Value} (more : List UInt8)
    (h : readValue false type bytes = some (v, rest)) :
    readValue false type (bytes ++ more) = some (v, rest ++ more) := by
  cases type with
  | varint =>
    simp only [readValue, Option.map_eq_some_iff, Prod.mk.injEq] at h ⊢
    obtain ⟨r, hr, hv, hrest⟩ := h
    exact ⟨(r.1, r.2 ++ more), Varint.read_append more hr, hv, by rw [hrest]⟩
  | lengthDelimited =>
    simp only [readValue] at h ⊢
    split at h
    · cases h
    case h_2 n left hr =>
      rw [Varint.read_append more hr]
      simp only [Bool.false_eq_true, or_false] at h ⊢
      split at h
      case isTrue hle =>
        simp only [Option.some.injEq, Prod.mk.injEq] at h
        rw [if_pos (by rw [List.length_append]; omega), List.take_append_of_le_length hle,
          List.drop_append_of_le_length hle, h.1, h.2]
      case isFalse => cases h
  | fixed64 | fixed32 =>
    simp only [readValue] at h ⊢
    split at h
    case isTrue hle =>
      simp only [Option.some.injEq, Prod.mk.injEq] at h
      rw [if_pos (by rw [List.length_append]; omega), List.take_append_of_le_length hle,
        List.drop_append_of_le_length hle, h.1, h.2]
    case isFalse => cases h
  | startGroup | endGroup | other => cases h

def Item.append (more : List UInt8) : Item → Item
  | .close number rest => .close number (rest ++ more)
  | .skipped rest => .skipped (rest ++ more)
  | .record r rest => .record r (rest ++ more)
  | i => i

/-- A group is passed over whatever follows it. -/
def Extends (group : Nat → List UInt8 → Option (List UInt8)) : Prop :=
  ∀ number bytes rest more, group number bytes = some rest → group number (bytes ++ more) = some (rest ++ more)

/-- Nothing in the item depends on where the bytes end. -/
def Item.Uncapped (capped : Nat → Bool) : Item → Prop
  | .close _ _ => True
  | .skipped _ => True
  | .record r _ => r.value.wireType = .lengthDelimited → capped r.number = false
  | _ => False

theorem readValue_wireType {capped : Bool} {type : WireType} {bytes : List UInt8} {r : Value × List UInt8}
    (h : readValue capped type bytes = some r) : r.1.wireType = type := by
  obtain ⟨v, rest⟩ := r
  cases type <;> simp only [readValue] at h
  case varint =>
    simp only [Option.map_eq_some_iff, Prod.mk.injEq] at h
    obtain ⟨r, -, rfl, -⟩ := h
    rfl
  case lengthDelimited =>
    split at h
    · cases h
    · split at h
      · simp only [Option.some.injEq, Prod.mk.injEq] at h
        rw [← h.1]
        rfl
      · cases h
  case fixed64 | fixed32 =>
    split at h
    · simp only [Option.some.injEq, Prod.mk.injEq] at h
      rw [← h.1]
      rfl
    · cases h
  all_goals cases h

theorem readValue_uncapped {capped : Bool} {type : WireType} (bytes : List UInt8)
    (h : type = .lengthDelimited → capped = false) : readValue capped type bytes = readValue false type bytes := by
  cases type with
  | lengthDelimited => rw [h rfl]
  | varint | fixed64 | startGroup | endGroup | fixed32 | other => rfl

theorem tagged_append {group : Nat → List UInt8 → Option (List UInt8)} (hg : Extends group) {capped : Nat → Bool}
    {tag : Nat} {bytes : List UInt8} (more : List UInt8) (h : (tagged group capped tag bytes).Uncapped capped) :
    tagged group capped tag (bytes ++ more) = (tagged group capped tag bytes).append more := by
  unfold tagged at h ⊢
  split at h
  · rfl
  · split at h
    · exact h.elim
    case h_2 rest hrest =>
      rw [hg _ _ _ _ hrest]
      rfl
  · split at h
    · exact h.elim
    case h_2 v rest hv =>
      have hc : WireType.ofBits (tag % 8) = .lengthDelimited → capped (tag / 8) = false := by
        intro ht
        exact h ((readValue_wireType hv).trans ht)
      rw [readValue_uncapped _ hc] at hv ⊢
      rw [readValue_append more hv]
      rfl

theorem item_append {group : Nat → List UInt8 → Option (List UInt8)} (hg : Extends group) (capped : Nat → Bool)
    (bytes : List UInt8) (more : List UInt8) (h : (item group capped bytes).Uncapped capped) :
    item group capped (bytes ++ more) = (item group capped bytes).append more := by
  by_cases hne : bytes = []
  · simp [item, hne, Item.Uncapped] at h
  · have hne' : bytes ++ more ≠ [] := by simp [hne]
    simp only [item, if_neg hne, if_neg hne'] at h ⊢
    cases hread : Varint.read 10 bytes with
    | none => simp [hread, Item.Uncapped] at h
    | some r =>
      simp only [hread] at h
      simp only [Varint.read_append more hread]
      by_cases hn : r.1 % 2 ^ 32 = 0
      · rw [if_pos hn] at h
        exact h.elim
      · rw [if_neg hn] at h ⊢
        rw [if_neg hn]
        exact tagged_append hg more h

theorem closeGroup_mono {item : List UInt8 → Item} {number n m : Nat} {bytes rest : List UInt8} (hnm : n ≤ m)
    (h : closeGroup item number n bytes = some rest) : closeGroup item number m bytes = some rest := by
  induction n generalizing m bytes with
  | zero => cases h
  | succ n ih =>
    obtain ⟨m, rfl⟩ : ∃ k, m = k + 1 := ⟨m - 1, by omega⟩
    unfold closeGroup at h ⊢
    cases hitem : item bytes with
    | skipped left | record r left =>
      simp only [hitem] at h
      exact ih (by omega) h
    | finished | stopped | close | failed => simpa only [hitem] using h

theorem closeGroup_append {group : Nat → List UInt8 → Option (List UInt8)} (hg : Extends group) {number n : Nat}
    {bytes rest : List UInt8} (more : List UInt8)
    (h : closeGroup (item group fun _ => false) number n bytes = some rest) :
    closeGroup (item group fun _ => false) number n (bytes ++ more) = some (rest ++ more) := by
  induction n generalizing bytes with
  | zero => cases h
  | succ n ih =>
    have happend := item_append hg (fun _ => false) bytes more
    unfold closeGroup at h ⊢
    cases hitem : item group (fun _ => false) bytes with
    | close k left =>
      rw [happend (by rw [hitem]; trivial)]
      simp only [hitem] at h
      simp only [hitem, Item.append]
      split at h
      case isTrue hk =>
        simp only [Option.some.injEq] at h
        rw [if_pos hk, h]
      case isFalse => cases h
    | skipped left =>
      rw [happend (by rw [hitem]; trivial)]
      simp only [hitem] at h
      simp only [hitem, Item.append]
      exact ih h
    | record r left =>
      rw [happend (by rw [hitem]; exact fun _ => rfl)]
      simp only [hitem] at h
      simp only [hitem, Item.append]
      exact ih h
    | finished | stopped | failed =>
      simp only [hitem] at h
      cases h

theorem skipGroup_extends (d : Nat) : Extends (skipGroup d) := by
  induction d with
  | zero =>
    intro number bytes rest more h
    cases h
  | succ d ih =>
    intro number bytes rest more h
    exact closeGroup_mono (by rw [List.length_append]; omega) (closeGroup_append ih more h)

/-- Bytes that are whole items which no end of a value cuts off. -/
theorem whole_of_scan {capped : Nat → Bool} {d : Nat} {bytes : List UInt8} {records : List Record}
    (h : scan capped d bytes = some (records, true))
    (hu : ∀ r ∈ records, r.value.wireType = .lengthDelimited → capped r.number = false) :
    Whole capped d bytes records := by
  intro more
  induction hn : bytes.length using Nat.strongRecOn generalizing bytes records with
  | ind n ih =>
    have hs := shrinks d capped bytes
    have happend := item_append (skipGroup_extends d) capped bytes more
    rw [Wire.scan_eq] at h
    cases hitem : item (skipGroup d) capped bytes with
    | finished =>
      simp only [hitem, Option.some.injEq, Prod.mk.injEq, and_true] at h
      have hnil : bytes = [] := by
        unfold item at hitem
        split at hitem
        · assumption
        · split at hitem
          · cases hitem
          · split at hitem
            · cases hitem
            · unfold tagged at hitem
              split at hitem
              · cases hitem
              · split at hitem <;> cases hitem
              · split at hitem <;> cases hitem
      subst hnil
      simp [← h]
    | skipped rest =>
      simp only [hitem] at h
      rw [Wire.scan_eq, happend (by rw [hitem]; trivial), hitem]
      exact ih rest.length (hn ▸ hs rest (by rw [hitem]; rfl)) h hu rfl
    | record r rest =>
      simp only [hitem, Option.map_eq_some_iff, Prod.mk.injEq] at h
      obtain ⟨m, hm, rfl, hclean⟩ := h
      have hm' : scan capped d rest = some (m.1, true) := by rw [hm, ← hclean]
      rw [Wire.scan_eq, happend (by rw [hitem]; exact hu r (by simp)), hitem]
      simp only [Item.append]
      rw [ih rest.length (hn ▸ hs rest (by rw [hitem]; rfl)) hm' (fun q hq => hu q (by simp [hq])) rfl,
        Option.map_map]
      rfl
    | stopped | close | failed =>
      simp [hitem] at h

/-! ## Values that are cut off only where they may be -/

theorem readValue_capped {type : WireType} {bytes : List UInt8} {r : Value × List UInt8} (capped : Bool)
    (h : readValue false type bytes = some r) : readValue capped type bytes = some r := by
  cases type with
  | lengthDelimited =>
    simp only [readValue, Bool.false_eq_true, or_false] at h ⊢
    cases hread : Varint.read 10 bytes with
    | none =>
      rw [hread] at h
      cases h
    | some q =>
      simp only [hread] at h ⊢
      split at h
      case isTrue hle => rw [if_pos (.inl hle), h]
      case isFalse => cases h
  | varint | fixed64 | startGroup | endGroup | fixed32 | other => exact h

theorem item_capped {group : Nat → List UInt8 → Option (List UInt8)} (capped : Nat → Bool) {bytes : List UInt8}
    (h : item group (fun _ => false) bytes ≠ .failed) :
    item group capped bytes = item group (fun _ => false) bytes := by
  by_cases hne : bytes = []
  · rw [item, item, if_pos hne, if_pos hne]
  · simp only [item, if_neg hne] at h ⊢
    cases hread : Varint.read 10 bytes with
    | none => rfl
    | some q =>
      simp only [hread] at h ⊢
      by_cases hzero : q.1 % 2 ^ 32 = 0
      · rw [if_pos hzero, if_pos hzero]
      · rw [if_neg hzero] at h ⊢
        rw [if_neg hzero]
        by_cases hend : WireType.ofBits (q.1 % 2 ^ 32 % 8) = .endGroup
        · rw [tagged_endGroup _ _ _ hend, tagged_endGroup _ _ _ hend]
        · by_cases hstart : WireType.ofBits (q.1 % 2 ^ 32 % 8) = .startGroup
          · rw [tagged_startGroup _ _ _ hstart, tagged_startGroup _ _ _ hstart]
          · rw [tagged_value _ _ _ hstart hend] at h ⊢
            rw [tagged_value _ _ _ hstart hend]
            cases hvalue : readValue false (.ofBits (q.1 % 2 ^ 32 % 8)) q.2 with
            | none =>
              rw [hvalue] at h
              exact absurd rfl h
            | some r => rw [readValue_capped _ hvalue]

theorem scan_capped (capped : Nat → Bool) {d : Nat} {bytes : List UInt8} {q : List Record × Bool}
    (h : scan (fun _ => false) d bytes = some q) : scan capped d bytes = some q := by
  induction hn : bytes.length using Nat.strongRecOn generalizing bytes q with
  | ind n ih =>
    have hs := shrinks d (fun _ => false) bytes
    rw [Wire.scan_eq] at h
    have hitem : item (skipGroup d) capped bytes = item (skipGroup d) (fun _ => false) bytes := by
      apply item_capped
      intro hf
      rw [hf] at h
      cases h
    rw [Wire.scan_eq, hitem]
    cases hi : item (skipGroup d) (fun _ => false) bytes with
    | skipped rest =>
      rw [hi] at h hs
      exact ih rest.length (hn ▸ hs rest rfl) h rfl
    | record r rest =>
      rw [hi] at h hs
      simp only [Option.map_eq_some_iff] at h ⊢
      obtain ⟨m, hm, rfl⟩ := h
      exact ⟨m, ih rest.length (hn ▸ hs rest rfl) hm rfl, rfl⟩
    | finished | stopped | close | failed =>
      rw [hi] at h
      exact h

/-! ## Groups in groups -/

def openTag (number : Nat) : List UInt8 := Varint.encode (number * 8 + WireType.startGroup.bits)

def closeTag (number : Nat) : List UInt8 := Varint.encode (number * 8 + WireType.endGroup.bits)

/-- `n` groups of a number, each in the one before. -/
def nested (number : Nat) : Nat → List UInt8
  | 0 => []
  | n + 1 => openTag number ++ nested number n ++ closeTag number

section Nested
variable {number : Nat} (hpos : 0 < number) (hlt : number < 2 ^ 29)
include hpos hlt

theorem item_closeTag (group : Nat → List UInt8 → Option (List UInt8)) (capped : Nat → Bool) (rest : List UInt8) :
    item group capped (closeTag number ++ rest) = .close number rest := by
  have hmod : (number * 8 + 4) % 8 = 4 := by omega
  have hdiv : (number * 8 + 4) / 8 = number := by omega
  rw [closeTag, item_tag hpos hlt (by decide), tagged_endGroup _ _ _ (by simp only [WireType.bits, hmod]; rfl)]
  simp only [WireType.bits, hdiv]

theorem item_openTag (group : Nat → List UInt8 → Option (List UInt8)) (capped : Nat → Bool) (rest : List UInt8) :
    item group capped (openTag number ++ rest) =
      match group number rest with
      | none => .failed
      | some rest => .skipped rest := by
  have hmod : (number * 8 + 3) % 8 = 3 := by omega
  have hdiv : (number * 8 + 3) / 8 = number := by omega
  rw [openTag, item_tag hpos hlt (by decide), tagged_startGroup _ _ _ (by simp only [WireType.bits, hmod]; rfl)]
  simp only [WireType.bits, hdiv]

/-- A group is passed over if no more than `d` groups are open in each other. -/
theorem skipGroup_nested (d n : Nat) (rest : List UInt8) :
    skipGroup d number (nested number n ++ closeTag number ++ rest) = if n < d then some rest else none := by
  induction d generalizing n rest with
  | zero => rfl
  | succ d ih =>
    rw [skipGroup_succ_eq]
    cases n with
    | zero =>
      rw [nested, List.nil_append, item_closeTag hpos hlt]
      simp
    | succ n =>
      have hinner := ih n (closeTag number ++ rest)
      rw [nested, List.append_assoc, List.append_assoc, List.append_assoc, item_openTag hpos hlt,
        ← List.append_assoc (nested number n), hinner]
      by_cases hn : n < d
      · rw [if_pos hn, if_pos (by omega)]
        simp only
        rw [skipGroup_succ_eq, item_closeTag hpos hlt]
        simp
      · rw [if_neg hn, if_neg (by omega)]

theorem scan_nested (capped : Nat → Bool) (d n : Nat) :
    scan capped d (nested number n) = if n ≤ d then some ([], true) else none := by
  rw [Wire.scan_eq]
  cases n with
  | zero => rfl
  | succ n =>
    have hgroup := skipGroup_nested hpos hlt d n []
    rw [List.append_nil] at hgroup
    rw [nested, List.append_assoc, item_openTag hpos hlt, hgroup]
    by_cases hn : n < d
    · rw [if_pos hn, if_pos (by omega)]
      rfl
    · rw [if_neg hn, if_neg (by omega)]

end Nested

end Wire

end Lib
