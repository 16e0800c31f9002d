import GameServer.Protobuf.Skipping
import GameServer.Protobuf.MessageLite
/-!
# What a generated parser does

`absorb` is the plain reading of a message: its records, one after the other, each
stored in the field it is for. A generated loop, with its jumps from case to case and
its early return, computes that (`mergeCases_eq`), on any bytes.
-/

namespace GameServer

namespace Protobuf

open Lib
open Lib.Wire (WireType)

variable {M : Type}

/-- A field of a message: what a value of its wire type does to the message, with
`d` messages and groups still to be opened in it. `capped` fields are messages. -/
structure Field (M : Type) where
  number : Nat
  wireType : WireType
  capped : Bool
  store : Nat → Wire.Value → M → Option M

def fieldOf (fields : List (Field M)) (number : Nat) : Option (Field M) := fields.find? (·.number == number)

def capped (fields : List (Field M)) (number : Nat) : Bool := (fieldOf fields number).any (·.capped)

/-- A record of another field, or of another wire type than the field's, is ignored. -/
def storeRecord (fields : List (Field M)) (d : Nat) (m : M) (r : Wire.Record) : Option M :=
  match (fieldOf fields r.number).filter (·.wireType = r.value.wireType) with
  | some f => f.store d r.value m
  | none => some m

/-- The message with the records of `bytes`, and whether they are all there is. -/
def absorb (fields : List (Field M)) (d : Nat) (bytes : List Byte) (m : M) : Option (M × Bool) :=
  match Wire.scan (capped fields) d bytes with
  | none => none
  | some (records, clean) => (records.foldlM (storeRecord fields d) m).map fun m => (m, clean)

theorem absorb_eq (fields : List (Field M)) (d : Nat) (bytes : List Byte) (m : M) :
    absorb fields d bytes m =
      match Wire.item (Wire.skipGroup d) (capped fields) bytes with
      | .finished => some (m, true)
      | .stopped => some (m, false)
      | .close _ _ => some (m, false)
      | .skipped rest => absorb fields d rest m
      | .record r rest => (storeRecord fields d m r).bind (absorb fields d rest)
      | .failed => none := by
  unfold absorb
  rw [Wire.scan_eq]
  cases Wire.item (Wire.skipGroup d) (capped fields) bytes with
  | record r rest =>
    simp only
    cases hscan : Wire.scan (capped fields) d rest with
    | none => simp
    | some q =>
      simp only [Option.map_some, List.foldlM_cons]
      cases storeRecord fields d m r <;> rfl
  | finished | stopped | close | skipped | failed => rfl

/-- What a case of the loop does after its tag. -/
def absorbField (fields : List (Field M)) (f : Field M) (d : Nat) (bytes : List Byte) (m : M) : Option (M × Bool) :=
  (Wire.readValue f.capped f.wireType bytes).bind fun r => (f.store d r.1 m).bind (absorb fields d r.2)

/-! ## Calls on a stream -/

/-- A call that reads one value: it moves to the rest, or returns false. -/
def Answers (s : CodedInputStream) (r : Result (M × CodedInputStream)) : Option (M × List Byte) → Prop
  | none => r = .error .returnedFalse
  | some (m, rest) => ∃ tag, r = .ok (m, { s with buffer := rest, lastTag := tag })

/-- A call that reads a message: it says whether it has got to the end of it. -/
def Merges (s : CodedInputStream) (r : Result (M × CodedInputStream)) : Option (M × Bool) → Prop
  | none => r = .error .returnedFalse
  | some (m, true) => r = .ok (m, { s with buffer := [], lastTag := 0, legitimateMessageEnd := true })
  | some (m, false) => ∃ s', r = .ok (m, s') ∧ s'.legitimateMessageEnd = false

theorem Merges.of_move {s : CodedInputStream} {r : Result (M × CodedInputStream)} {o : Option (M × Bool)}
    (buffer : List Byte) (tag : UInt32) (h : Merges { s with buffer, lastTag := tag } r o) : Merges s r o := by
  match o with
  | none => exact h
  | some (m, true) => exact h
  | some (m, false) => exact h

/-- The code of a case does what its field is for. -/
structure Case.Reads (c : Case M) (f : Field M) : Prop where
  number : c.number = f.number
  wireType : c.wireType = f.wireType
  plain : f.wireType ≠ .startGroup ∧ f.wireType ≠ .endGroup
  capped : f.capped = true → f.wireType = .lengthDelimited
  read : ∀ (s : CodedInputStream) (m : M), s.Ready →
    Answers s (c.read s m)
      ((Wire.readValue f.capped f.wireType s.buffer).bind fun r => (f.store s.allowance r.1 m).map fun m => (m, r.2))

/-- Every tag that is looked for is that of the case it leads to, in one byte. -/
def Linked (cases : List (Case M)) : Prop :=
  ∀ c ∈ cases, ∀ e ∈ c.expectTags, e.1 < 0x80 ∧ e.1 ≠ 0 ∧ getTagFieldNumber e.1 = e.2 ∧
    (caseOf cases e.2).any fun next => next.wireType = getTagWireType e.1

instance (cases : List (Case M)) : Decidable (Linked cases) := by
  unfold Linked
  infer_instance

theorem caseOf_fieldOf {cases : List (Case M)} {fields : List (Field M)}
    (h : List.Forall₂ Case.Reads cases fields) (number : Nat) :
    (caseOf cases number = none ∧ fieldOf fields number = none) ∨
      ∃ c f, caseOf cases number = some c ∧ fieldOf fields number = some f ∧ c ∈ cases ∧ c.Reads f := by
  induction h with
  | nil => exact .inl ⟨rfl, rfl⟩
  | @cons c f cases fields hcf h ih =>
    by_cases hnumber : c.number = number
    · have hf : f.number = number := hcf.number ▸ hnumber
      refine .inr ⟨c, f, ?_, ?_, by simp, hcf⟩
      · simp [caseOf, hnumber]
      · simp [fieldOf, hf]
    · have hf : f.number ≠ number := fun he => hnumber (hcf.number.trans he)
      have hc' : caseOf (c :: cases) number = caseOf cases number := by simp [caseOf, hnumber]
      have hf' : fieldOf (f :: fields) number = fieldOf fields number := by simp [fieldOf, hf]
      rw [hc', hf']
      rcases ih with hnone | ⟨c', f', h1, h2, h3, h4⟩
      · exact .inl hnone
      · exact .inr ⟨c', f', h1, h2, by simp [h3], h4⟩

theorem storeRecord_field {fields : List (Field M)} {f : Field M} {d : Nat} {m : M} {r : Wire.Record}
    (hf : fieldOf fields r.number = some f) (hw : f.wireType = r.value.wireType) :
    storeRecord fields d m r = f.store d r.value m := by
  simp [storeRecord, hf, Option.filter, hw]

/-- A tag of a known field leads to the field. -/
theorem absorb_field {fields : List (Field M)} {f : Field M} {d v t : Nat} {bytes rest : List Byte} (m : M)
    (hread : Varint.read 10 bytes = some (v, rest)) (ht : v % 2 ^ 32 = t) (hzero : t ≠ 0)
    (hf : fieldOf fields (t / 8) = some f) (htype : f.wireType = .ofBits (t % 8))
    (hplain : f.wireType ≠ .startGroup ∧ f.wireType ≠ .endGroup) :
    absorb fields d bytes m = absorbField fields f d rest m := by
  have hne : bytes ≠ [] := by
    intro hnil
    rw [hnil] at hread
    cases hread
  have hc : capped fields (t / 8) = f.capped := by simp [capped, hf]
  rw [absorb_eq, Wire.item, if_neg hne, hread]
  simp only [ht, if_neg hzero]
  rw [Wire.tagged_value _ _ _ (htype ▸ hplain.1) (htype ▸ hplain.2), hc, ← htype, absorbField]
  cases hvalue : Wire.readValue f.capped f.wireType rest with
  | none => rfl
  | some r =>
    have hw := Wire.readValue_wireType hvalue
    simp only [storeRecord_field (r := ⟨t / 8, r.1⟩) hf hw.symm, Option.bind_some]

/-- Where nothing in the message wants a record of this number and wire type. -/
theorem absorb_unknown {fields : List (Field M)} {d v t : Nat} {bytes rest : List Byte} (m : M)
    (hread : Varint.read 10 bytes = some (v, rest)) (ht : v % 2 ^ 32 = t) (hzero : t ≠ 0)
    (hnone : (fieldOf fields (t / 8)).filter (·.wireType = .ofBits (t % 8)) = none)
    (hcapped : ∀ f, fieldOf fields (t / 8) = some f → f.capped = true → f.wireType = .lengthDelimited) :
    absorb fields d bytes m =
      if WireType.ofBits (t % 8) = .endGroup then some (m, false)
      else (Wire.tagged (Wire.skipGroup d) (fun _ => false) t rest).past.bind fun rest => absorb fields d rest m := by
  have hne : bytes ≠ [] := by
    intro hnil
    rw [hnil] at hread
    cases hread
  have huncapped : Wire.readValue (capped fields (t / 8)) (.ofBits (t % 8)) rest =
      Wire.readValue false (.ofBits (t % 8)) rest := by
    apply Wire.readValue_uncapped
    intro hd
    cases hf : fieldOf fields (t / 8) with
    | none => simp [capped, hf]
    | some f =>
      have hw : f.wireType ≠ .ofBits (t % 8) := by simpa [hf] using hnone
      have : f.capped ≠ true := by
        intro hc
        exact hw ((hcapped f hf hc).trans hd.symm)
      simpa [capped, hf] using this
  rw [absorb_eq, Wire.item, if_neg hne, hread]
  simp only [ht, if_neg hzero]
  by_cases hend : WireType.ofBits (t % 8) = .endGroup
  · rw [if_pos hend, Wire.tagged_endGroup _ _ _ hend]
  · rw [if_neg hend]
    by_cases hstart : WireType.ofBits (t % 8) = .startGroup
    · rw [Wire.tagged_startGroup _ _ _ hstart, Wire.tagged_startGroup _ _ _ hstart]
      cases Wire.skipGroup d (t / 8) rest <;> rfl
    · rw [Wire.tagged_value _ _ _ hstart hend, Wire.tagged_value _ _ _ hstart hend, huncapped]
      cases hvalue : Wire.readValue false (WireType.ofBits (t % 8)) rest with
      | none => rfl
      | some r =>
        have hw := Wire.readValue_wireType hvalue
        have hstore : storeRecord fields d m ⟨t / 8, r.1⟩ = some m := by
          simp only [storeRecord, hw, hnone]
        simp only [hstore]
        rfl

/-! ## The loop -/

section Loop
variable {cases : List (Case M)} {fields : List (Field M)} (hcases : List.Forall₂ Case.Reads cases fields)
variable (hlinked : Linked cases)

/-- The loop does its part in `n` turns and jumps. -/
def LoopSpec (cases : List (Case M)) (fields : List (Field M)) (n : Nat) : Prop :=
  ∀ (s : CodedInputStream) (m : M), s.Ready → 2 * s.buffer.length + 1 ≤ n →
    Merges s (mergeLoop cases n s m) (absorb fields s.allowance s.buffer m)

/-- So does a case, from its label on. -/
def CaseSpec (cases : List (Case M)) (fields : List (Field M)) (n : Nat) : Prop :=
  ∀ (s : CodedInputStream) (m : M) (c : Case M) (f : Field M), s.Ready → c ∈ cases → c.Reads f →
    2 * s.buffer.length + 2 ≤ n →
    Merges s (mergeCase cases n c s m) (absorbField fields f s.allowance s.buffer m)

include hcases

/-- A turn of the loop after its tag. -/
theorem mergeLoop_tag {n : Nat} (hloop : LoopSpec cases fields n) (hcase : CaseSpec cases fields n)
    {s : CodedInputStream} (hs : s.Ready) (m : M) {v : Nat} {tag : UInt32} {bytes : List Byte}
    (hread : Varint.read 10 s.buffer = some (v, bytes)) (ht : v % 2 ^ 32 = tag.toNat) (hzero : tag ≠ 0)
    (hn : 2 * s.buffer.length ≤ n) :
    Merges s
      (match (caseOf cases (getTagFieldNumber tag)).filter (·.wireType = getTagWireType tag) with
        | some c => mergeCase cases n c { s with buffer := bytes, lastTag := tag } m
        | none =>
          if getTagWireType tag = .endGroup then pure (m, { s with buffer := bytes, lastTag := tag })
          else do
            let input ← skipField tag { s with buffer := bytes, lastTag := tag }
            mergeLoop cases n input m)
      (absorb fields s.allowance s.buffer m) := by
  have hlen := Varint.read_length_lt hread
  have hready := hs.move (Nat.le_of_lt hlen) tag
  have hzero' : tag.toNat ≠ 0 := fun h => hzero (UInt32.toNat_inj.1 h)
  have hallow : CodedInputStream.allowance { s with buffer := bytes, lastTag := tag } = s.allowance := rfl
  have unknown (hnone : (caseOf cases (getTagFieldNumber tag)).filter (·.wireType = getTagWireType tag) = none)
      (habsorb : absorb fields s.allowance s.buffer m =
        if WireType.ofBits (tag.toNat % 8) = .endGroup then some (m, false)
        else (Wire.tagged (Wire.skipGroup s.allowance) (fun _ => false) tag.toNat bytes).past.bind
          fun rest => absorb fields s.allowance rest m) :
      Merges s
        (if getTagWireType tag = .endGroup then pure (m, { s with buffer := bytes, lastTag := tag })
          else do
            let input ← skipField tag { s with buffer := bytes, lastTag := tag }
            mergeLoop cases n input m)
        (absorb fields s.allowance s.buffer m) := by
    rw [habsorb, ← getTagWireType_eq]
    by_cases hend : getTagWireType tag = .endGroup
    · rw [if_pos hend, if_pos hend]
      exact ⟨_, rfl, hs.running⟩
    · have hskip := skipField_spec hready tag
      rw [if_neg hend, if_neg hend]
      rw [hallow] at hskip
      cases hpast : (Wire.tagged (Wire.skipGroup s.allowance) (fun _ => false) tag.toNat bytes).past with
      | none =>
        rw [hpast] at hskip
        rw [hskip]
        rfl
      | some rest =>
        rw [hpast] at hskip
        obtain ⟨t, he⟩ := hskip
        have hrest : rest.length ≤ bytes.length :=
          Wire.tagged_length_le (fun _ _ _ h => Wire.skipGroup_length_lt h) (Wire.Item.rest_of_past hpast)
        rw [he]
        exact (hloop _ m (hs.move (by omega) t) (by dsimp only; omega)).of_move _ _
  rcases caseOf_fieldOf hcases (getTagFieldNumber tag) with ⟨hc, hf⟩ | ⟨c, f, hc, hf, hmem, hreads⟩
  · have hnone : (caseOf cases (getTagFieldNumber tag)).filter (·.wireType = getTagWireType tag) = none := by
      rw [hc]
      rfl
    rw [hnone]
    rw [getTagFieldNumber_eq] at hf
    exact unknown hnone (absorb_unknown m hread ht hzero' (by rw [hf]; rfl) (by simp [hf]))
  · have hf' := hf
    rw [getTagFieldNumber_eq] at hf'
    by_cases htype : c.wireType = getTagWireType tag
    · have hsome : (caseOf cases (getTagFieldNumber tag)).filter (·.wireType = getTagWireType tag) = some c := by
        simp [hc, Option.filter, htype]
      have hw : f.wireType = .ofBits (tag.toNat % 8) := by rw [← hreads.wireType, htype, getTagWireType_eq]
      rw [hsome, absorb_field m hread ht hzero' hf' hw hreads.plain]
      exact (hcase _ m c f hready hmem hreads (by dsimp only; omega)).of_move _ _
    · have hnone : (caseOf cases (getTagFieldNumber tag)).filter (·.wireType = getTagWireType tag) = none := by
        simp [hc, Option.filter, htype]
      have hw : f.wireType ≠ .ofBits (tag.toNat % 8) := by
        rw [← hreads.wireType, ← getTagWireType_eq]
        exact htype
      rw [hnone]
      refine unknown hnone (absorb_unknown m hread ht hzero' (by simp [hf', Option.filter, hw]) ?_)
      intro g hg
      rw [hf'] at hg
      cases hg
      exact hreads.capped

theorem mergeLoop_turn {n : Nat} (hloop : LoopSpec cases fields n) (hcase : CaseSpec cases fields n) :
    LoopSpec cases fields (n + 1) := by
  intro s m hs hn
  rw [mergeLoop]
  by_cases hnil : s.buffer = []
  · have habsorb : absorb fields s.allowance s.buffer m = some (m, true) := by rw [hnil]; rfl
    rw [CodedInputStream.readTag_finished hs hnil, habsorb]
    simp only [Merges, ok_bind, if_true, pure_eq_ok, ← hnil]
  · cases hread : Varint.read 10 s.buffer with
    | none =>
      have habsorb : absorb fields s.allowance s.buffer m = some (m, false) := by
        rw [absorb_eq, Wire.item, if_neg hnil, hread]
      obtain ⟨left, hleft⟩ := CodedInputStream.readTag_none hnil hread
      rw [hleft, habsorb]
      exact ⟨_, rfl, hs.running⟩
    | some r =>
      have hr : Varint.read 10 s.buffer = some (r.1, r.2) := hread
      have htag : r.1 % 2 ^ 32 = (UInt32.ofNat r.1).toNat := UInt32.toNat_ofNat'.symm
      rw [CodedInputStream.readTag_some hr]
      simp only [ok_bind]
      by_cases hzero : UInt32.ofNat r.1 = 0
      · have hmod : r.1 % 2 ^ 32 = 0 := by rw [htag, hzero]; rfl
        have habsorb : absorb fields s.allowance s.buffer m = some (m, false) := by
          rw [absorb_eq, Wire.item, if_neg hnil, hr]
          simp only [hmod, if_true]
        rw [if_pos hzero, habsorb]
        exact ⟨_, rfl, hs.running⟩
      · rw [if_neg hzero]
        exact mergeLoop_tag hcases hloop hcase hs m hr htag hzero (by omega)

include hlinked

/-- After a value comes the case of the tag that is there, or the end, or the loop. -/
theorem mergeCase_turn {n : Nat} (hloop : LoopSpec cases fields n) (hcase : CaseSpec cases fields n) :
    CaseSpec cases fields (n + 1) := by
  intro s m c f hs hmem hreads hn
  have hread := hreads.read s m hs
  rw [mergeCase, absorbField]
  cases hvalue : Wire.readValue f.capped f.wireType s.buffer with
  | none =>
    rw [hvalue] at hread
    rw [hread]
    rfl
  | some r =>
    rw [hvalue] at hread
    simp only [Option.bind_some] at hread ⊢
    cases hstore : f.store s.allowance r.1 m with
    | none =>
      rw [hstore] at hread
      rw [hread]
      rfl
    | some m' =>
      rw [hstore] at hread
      obtain ⟨tag, he⟩ := hread
      have hle : r.2.length ≤ s.buffer.length := Wire.readValue_length_le (v := r.1) hvalue
      have hready := hs.move hle tag
      rw [he]
      simp only [ok_bind, Option.bind_some]
      apply Merges.of_move r.2 tag
      cases hgoto : c.goto { s with buffer := r.2, lastTag := tag } with
      | some next =>
        obtain ⟨e, hmemE, hexpect⟩ := List.exists_of_findSome?_eq_some hgoto
        rw [Option.map_eq_some_iff] at hexpect
        obtain ⟨s', hs', rfl⟩ := hexpect
        obtain ⟨hlt, hne, hnumber, hany⟩ := hlinked c hmem e hmemE
        obtain ⟨hvarint, hmove⟩ := CodedInputStream.expectTag_some hlt hs'
        obtain ⟨next, hnext, htype⟩ := (Option.any_eq_true _ _).1 hany
        simp only [decide_eq_true_eq] at htype
        have hzero : e.1.toNat ≠ 0 := fun h => hne (UInt32.toNat_inj.1 h)
        have hlen := Varint.read_length_lt hvarint
        rcases caseOf_fieldOf hcases e.2 with ⟨hc, -⟩ | ⟨c', f', hc, hf, hmem', hreads'⟩
        · rw [hnext] at hc
          cases hc
        · rw [hnext] at hc
          cases hc
          have hf' : fieldOf fields (e.1.toNat / 8) = some f' := by rw [← getTagFieldNumber_eq, hnumber, hf]
          have hw : f'.wireType = .ofBits (e.1.toNat % 8) := by rw [← hreads'.wireType, htype, getTagWireType_eq]
          have hmod : e.1.toNat % 2 ^ 32 = e.1.toNat := Nat.mod_eq_of_lt e.1.toNat_lt
          have habsorb := absorb_field (d := s.allowance) m' hvarint hmod hzero hf' hw hreads'.plain
          simp only [hnext]
          have hready' : s'.Ready := by
            rw [hmove]
            exact hready.move (Nat.le_of_lt hlen) tag
          have hallow : s'.allowance = s.allowance := by rw [hmove]; rfl
          have := hcase s' m' next f' hready' hmem' hreads' (by dsimp only at hlen; omega)
          rw [hallow] at this
          show Merges _ _ (absorb fields s.allowance r.2 m')
          rw [habsorb]
          rw [hmove] at this ⊢
          exact this.of_move _ tag
      | none =>
        simp only
        split
        case h_1 s' hs' =>
          have hend : CodedInputStream.expectAtEnd { s with buffer := r.2, lastTag := tag } = some s' := by
            split at hs'
            · exact hs'
            · cases hs'
          obtain ⟨hnil, rfl⟩ := CodedInputStream.expectAtEnd_some hend
          simp only at hnil
          simp only [hnil]
          rfl
        case h_2 => exact hloop _ m' hready (by dsimp only; omega)

theorem merge_spec (n : Nat) : LoopSpec cases fields n ∧ CaseSpec cases fields n := by
  induction n with
  | zero => exact ⟨fun s m hs h => by omega, fun s m c f hs hmem hreads h => by omega⟩
  | succ n ih => exact ⟨mergeLoop_turn hcases ih.1 ih.2, mergeCase_turn hcases hlinked ih.1 ih.2⟩

/-- A generated parser reads the records one after the other. -/
theorem mergeCases_eq {s : CodedInputStream} (hs : s.Ready) (m : M) :
    Merges s (mergeCases cases s m) (absorb fields s.allowance s.buffer m) :=
  (merge_spec hcases hlinked _).1 s m hs (Nat.le_refl _)

end Loop

end Protobuf

end GameServer
