import GameServer.Lib.Directory
import GameServer.Lib.Entries
import GameServer.Lib.LastWrite
import Mathlib.Algebra.Notation.Defs
import Mathlib.Algebra.Ring.Int.Defs
/-!
# The market table

`Form1.cs` and `FeedClass.cs` of ServerGUI. The binding list that the grid shows and
the dictionary of products hold the same rows, so both are lists of references here.
`Invoke` waits for what it is given. A step has no result where an exception is thrown.
Prices come as `float` and are kept as `double`, which may be any types.
-/

namespace GameServer

namespace MarketTable

open Lib

/-! ## Messages -/

/-- `MyPacket.Depth`. -/
structure Depth (F : Type) where
  count : Int
  qty : Int
  price : F

/-- `MyPacket.Feed`. -/
structure Feed (F : Type) where
  productCode : String
  bidDepth : List (Depth F)
  askDepth : List (Depth F)

/-- `MyPacket.MessageType`. -/
inductive MessageType where
  | csLogin | scLogin | csChat | scChat | csMove | scMove | scFeed | csServerStatus | scServerStatus
  deriving DecidableEq

/-- `deserializedProtoObject`. -/
inductive ProtoObject (F : Type) where
  | feed (feed : Feed F)
  | serverStatus (sessionCount : Int)
  | loginResult

/-! ## Rows -/

structure DepthClass (D : Type) where
  mCount : Int
  mQty : Int
  mPrice : D
  deriving DecidableEq

/-- `DEPTH_LEVELS`. -/
abbrev depthLevels : Nat := 10

/-- A row. `propertyChanged` says if the event has a handler, and `raised` (ghost) what
it was raised for. -/
structure FeedClass (D : Type) where
  name : String
  bidDepth : Vector (DepthClass D) depthLevels
  askDepth : Vector (DepthClass D) depthLevels
  propertyChanged : Bool
  raised : List String

namespace FeedClass

variable {F D : Type}

def bCnt (fc : FeedClass D) : Int := fc.bidDepth[0].mCount
def bQty (fc : FeedClass D) : Int := fc.bidDepth[0].mQty
def bPrc (fc : FeedClass D) : D := fc.bidDepth[0].mPrice
def aPrc (fc : FeedClass D) : D := fc.askDepth[0].mPrice
def aQty (fc : FeedClass D) : Int := fc.askDepth[0].mQty
def aCnt (fc : FeedClass D) : Int := fc.askDepth[0].mCount

/-- Raising an event without a handler throws. -/
def raise (fc : FeedClass D) (property : String) : Option (FeedClass D) :=
  if fc.propertyChanged then some { fc with raised := fc.raised ++ [property] } else none

/-- The constructor. Nobody can have a handler yet, so it raises nothing. -/
def new [Zero D] (name : String) : FeedClass D where
  name := name
  bidDepth := .replicate depthLevels ⟨0, 0, 0⟩
  askDepth := .replicate depthLevels ⟨0, 0, 0⟩
  propertyChanged := false
  raised := []

/-- The conversion of what is first in a list, which throws if nothing is. -/
def level0 (double : F → D) (depth : List (Depth F)) : Option (DepthClass D) :=
  depth.head?.map fun d => ⟨d.count, d.qty, double d.price⟩

def updateFields (double : F → D) (fc : FeedClass D) (feed : Feed F) : Option (FeedClass D) := do
  let bid ← level0 double feed.bidDepth
  let fc := { fc with bidDepth := fc.bidDepth.set 0 bid }
  let ask ← level0 double feed.askDepth
  let fc := { fc with askDepth := fc.askDepth.set 0 ask }
  ["BCnt", "BQty", "BPrc", "ACnt", "AQty", "APrc"].foldlM raise fc

end FeedClass

/-! ## The form -/

inductive Color where
  | green | lightGreen | lightCyan | blue | yellow | orange | lightPink | red
  deriving DecidableEq

/-- `objects` is the rows that were made, by their references. -/
structure Form1 (D : Type) where
  mProductDict : String → Option Nat
  mFeedBindingList : List Nat
  objects : List (FeedClass D)
  countText : String
  countBackColor : Option Color

namespace Form1

variable {F D : Type}

/-- `Form1_Load`. -/
def load : Form1 D := ⟨fun _ => none, [], [], "", none⟩

/-- `mFeedBindingList.Add`: a binding list handles its rows' `PropertyChanged`. -/
def add (w : Form1 D) (fc : Nat) : Form1 D :=
  { w with
    mFeedBindingList := w.mFeedBindingList ++ [fc]
    objects := w.objects.modify fc fun row => { row with propertyChanged := true } }

/-- The `PKT_SC_FEED` case. -/
def onFeed [Zero D] (double : F → D) (w : Form1 D) (feed : Feed F) : Option (Form1 D) :=
  match w.mProductDict feed.productCode with
  | none =>
    let fc := w.objects.length
    some (add { w with
      objects := w.objects ++ [.new feed.productCode]
      mProductDict := Function.update w.mProductDict feed.productCode (some fc) } fc)
  | some fc => do
    let row ← w.objects[fc]?
    let row ← row.updateFields double feed
    return { w with objects := w.objects.set fc row }

/-- The color for a number of sessions. From 5000 on it stays. -/
def backColor (sessionCount : Int) : Option Color :=
  if sessionCount < 100 then some .green
  else if sessionCount < 500 then some .lightGreen
  else if sessionCount < 1000 then some .lightCyan
  else if sessionCount < 1500 then some .blue
  else if sessionCount < 2000 then some .yellow
  else if sessionCount < 3000 then some .orange
  else if sessionCount < 4000 then some .lightPink
  else if sessionCount < 5000 then some .red
  else none

def onServerStatus (w : Form1 D) (sessionCount : Int) : Form1 D :=
  { w with countText := toString sessionCount, countBackColor := backColor sessionCount <|> w.countBackColor }

/-- An object of another class is null after `as`, and a null has no members. -/
def onProtoRecv [Zero D] (double : F → D) (w : Form1 D) (object : Option (ProtoObject F)) (type : Option MessageType) :
    Option (Form1 D) :=
  match object, type with
  | none, _ | _, none => some w
  | some object, some .scFeed =>
    match object with
    | .feed feed => w.onFeed double feed
    | _ => none
  | some object, some .csServerStatus | some object, some .scServerStatus =>
    match object with
    | .serverStatus sessionCount => some (w.onServerStatus sessionCount)
    | _ => none
  | _, _ => some w

/-- The form after the feeds, each handed over with its type. -/
def afterFeeds [Zero D] (double : F → D) (feeds : List (Feed F)) : Option (Form1 D) :=
  feeds.foldlM (fun w feed => w.onProtoRecv double (some (.feed feed)) (some .scFeed)) load

/-- What the grid shows. -/
def rows (w : Form1 D) : List (FeedClass D) := w.mFeedBindingList.filterMap (w.objects[·]?)

end Form1

/-! ## What the table is for -/

variable {F D : Type} {double : F → D} {fc : FeedClass D} {feed : Feed F} {feeds : List (Feed F)} {w : Form1 D}

/-- The columns are what is first in the feed. -/
def FeedClass.Shows (double : F → D) (fc : FeedClass D) (feed : Feed F) : Prop :=
  ∃ bid ask, feed.bidDepth.head? = some bid ∧ feed.askDepth.head? = some ask ∧
    fc.bCnt = bid.count ∧ fc.bQty = bid.qty ∧ fc.bPrc = double bid.price ∧
    fc.aCnt = ask.count ∧ fc.aQty = ask.qty ∧ fc.aPrc = double ask.price

/-- The rows are the products in the order they came, the dictionary finds each, and
each shows the last feed of its product. -/
structure Reflects (double : F → D) (w : Form1 D) (feeds : List (Feed F)) : Prop where
  names : w.rows.map FeedClass.name = (feeds.map Feed.productCode).eraseDups
  dict : ∀ (code : String) (fc : Nat), w.mProductDict code = some fc ↔
    fc ∈ w.mFeedBindingList ∧ ∃ row, w.objects[fc]? = some row ∧ row.name = code
  latest : ∀ row ∈ w.rows, ∀ feed, lastWrite Feed.productCode row.name feeds = some feed → row.Shows double feed

/-- Each product came twice, or with what a new row shows anyway. -/
def Settled [Zero D] (double : F → D) (feeds : List (Feed F)) : Prop :=
  ∀ feed ∈ feeds, 2 ≤ (feeds.map Feed.productCode).count feed.productCode ∨
    (FeedClass.new feed.productCode).Shows double feed

theorem FeedClass.shows_iff : fc.Shows double feed ↔
    level0 double feed.bidDepth = some fc.bidDepth[0] ∧ level0 double feed.askDepth = some fc.askDepth[0] := by
  unfold Shows level0 bCnt bQty bPrc aCnt aQty aPrc
  rw [Option.map_eq_some_iff, Option.map_eq_some_iff]
  constructor
  · rintro ⟨bid, ask, hb, ha, h₁, h₂, h₃, h₄, h₅, h₆⟩
    exact ⟨⟨bid, hb, by rw [← h₁, ← h₂, ← h₃]⟩, ⟨ask, ha, by rw [← h₄, ← h₅, ← h₆]⟩⟩
  · rintro ⟨⟨bid, hb, h⟩, ⟨ask, ha, h'⟩⟩
    rw [← h, ← h']
    exact ⟨bid, ask, hb, ha, rfl, rfl, rfl, rfl, rfl, rfl⟩

/-! ## A row is updated -/

theorem FeedClass.updateFields_spec (double : F → D) (hp : fc.propertyChanged = true) (hb : feed.bidDepth ≠ [])
    (ha : feed.askDepth ≠ []) :
    ∃ row, fc.updateFields double feed = some row ∧ row.name = fc.name ∧ row.propertyChanged = true ∧
      row.Shows double feed := by
  obtain ⟨bid, hbid⟩ := Option.ne_none_iff_exists'.1 (mt List.head?_eq_none_iff.1 hb)
  obtain ⟨ask, hask⟩ := Option.ne_none_iff_exists'.1 (mt List.head?_eq_none_iff.1 ha)
  simp only [shows_iff]
  unfold updateFields level0 raise
  rw [hbid, hask]
  simp [hp]

/-! ## The form after a feed -/

section
variable [Zero D]

/-- A row shows zeros until its product comes again, then the last feed. -/
def FeedClass.Follows (double : F → D) (row : FeedClass D) (feeds : List (Feed F)) : Prop :=
  ∀ feed, lastWrite Feed.productCode row.name feeds = some feed →
    if 2 ≤ (feeds.map Feed.productCode).count row.name then row.Shows double feed
    else row.bidDepth[0] = ⟨0, 0, 0⟩ ∧ row.askDepth[0] = ⟨0, 0, 0⟩

/-- What the form is after the feeds. -/
structure Table (double : F → D) (w : Form1 D) (feeds : List (Feed F)) : Prop where
  names : w.objects.map FeedClass.name = (feeds.map Feed.productCode).eraseDups
  list : w.mFeedBindingList = List.range w.objects.length
  dict : Directory.InStep w.mProductDict (w.objects.map FeedClass.name)
  handled : ∀ row ∈ w.objects, row.propertyChanged = true
  follows : ∀ row ∈ w.objects, row.Follows double feeds

theorem table_load : Table double (Form1.load : Form1 D) ([] : List (Feed F)) where
  names := rfl
  list := rfl
  dict := Directory.inStep_nil
  handled row h := by cases h
  follows row h := by cases h

theorem Table.mem_codes (h : Table double w feeds) {row : FeedClass D} (hr : row ∈ w.objects) :
    row.name ∈ feeds.map Feed.productCode := by
  rw [← List.mem_eraseDups, ← h.names]
  exact List.mem_map_of_mem hr

/-- A feed of one product changes nothing for a row of another. -/
theorem FeedClass.Follows.other {row : FeedClass D} (h : row.Follows double feeds) (hne : feed.productCode ≠ row.name) :
    row.Follows double (feeds ++ [feed]) := by
  intro last hl
  rw [lastWrite_append_singleton, if_neg hne] at hl
  have hcount : [feed.productCode].count row.name = 0 := by
    rw [List.count_singleton, if_neg (by simpa using hne)]
  rw [List.map_append, List.map_singleton, List.count_append, hcount]
  exact h last hl

/-- The first feed of a product makes a row. -/
theorem Table.onFeed_new (h : Table double w feeds) (hd : w.mProductDict feed.productCode = none) :
    ∃ w', w.onFeed double feed = some w' ∧ Table double w' (feeds ++ [feed]) := by
  have hnew : feed.productCode ∉ w.objects.map FeedClass.name := by
    rw [← h.dict.isSome_iff, hd]
    simp
  have hcode : feed.productCode ∉ feeds.map Feed.productCode := by
    rwa [← List.mem_eraseDups, ← h.names]
  refine ⟨{ w with
    mProductDict := Function.update w.mProductDict feed.productCode (some w.objects.length)
    mFeedBindingList := w.mFeedBindingList ++ [w.objects.length]
    objects := w.objects ++ [{ FeedClass.new feed.productCode with propertyChanged := true }] }, ?_, ?_⟩
  · unfold Form1.onFeed Form1.add
    rw [hd]
    simp only [modify_concat]
  · constructor
    · rw [List.map_append, List.map_append, List.map_singleton, List.map_singleton, eraseDups_concat, if_neg hcode, h.names]
      rfl
    · rw [h.list, List.length_append, List.length_singleton, List.range_succ]
    · have hlen : w.objects.length = (w.objects.map FeedClass.name).length := (List.length_map ..).symm
      rw [List.map_append, hlen]
      exact h.dict.add hnew
    · intro r hr
      rcases List.mem_append.1 hr with hr | hr
      · exact h.handled r hr
      · rw [List.mem_singleton.1 hr]
    · intro r hr
      rcases List.mem_append.1 hr with hr | hr
      · exact (h.follows r hr).other fun he => hcode (he ▸ h.mem_codes hr)
      · rw [List.mem_singleton.1 hr]
        intro last _
        have hcount : ((feeds ++ [feed]).map Feed.productCode).count feed.productCode = 1 := by
          rw [List.map_append, List.map_singleton, List.count_append, List.count_eq_zero_of_not_mem hcode,
            List.count_singleton_self]
        have honce : ¬ 2 ≤ ((feeds ++ [feed]).map Feed.productCode).count feed.productCode := by omega
        exact (if_neg honce).mpr ⟨rfl, rfl⟩

/-- Another feed of a product updates its row. -/
theorem Table.onFeed_again (h : Table double w feeds) {fc : Nat} (hd : w.mProductDict feed.productCode = some fc)
    (hb : feed.bidDepth ≠ []) (ha : feed.askDepth ≠ []) :
    ∃ w', w.onFeed double feed = some w' ∧ Table double w' (feeds ++ [feed]) := by
  have hname := (h.dict feed.productCode fc).1 hd
  obtain ⟨row, hrow, hcode⟩ : ∃ row, w.objects[fc]? = some row ∧ row.name = feed.productCode := by
    rw [List.getElem?_map] at hname
    exact Option.map_eq_some_iff.1 hname
  have hmem : row ∈ w.objects := List.mem_of_getElem? hrow
  obtain ⟨row', hup, hname', hhandled, hshows⟩ :=
    FeedClass.updateFields_spec double (h.handled row hmem) hb ha
  have hnames : (w.objects.set fc row').map FeedClass.name = w.objects.map FeedClass.name := by
    rw [List.map_set, hname', hcode]
    exact set_of_getElem? hname
  have hcodes : feed.productCode ∈ feeds.map Feed.productCode := hcode ▸ h.mem_codes hmem
  refine ⟨{ w with objects := w.objects.set fc row' }, ?_, ?_⟩
  · unfold Form1.onFeed
    rw [hd]
    simp [hrow, hup]
  · constructor
    · rw [hnames, h.names, List.map_append, List.map_singleton, eraseDups_concat, if_pos hcodes]
    · rw [List.length_set]
      exact h.list
    · rw [hnames]
      exact h.dict
    · exact forall_set h.handled hhandled
    · intro r hr
      obtain ⟨j, hj⟩ := List.getElem?_of_mem hr
      by_cases hjfc : fc = j
      · subst hjfc
        rw [List.getElem?_set_self (List.getElem?_eq_some_iff.1 hrow).1] at hj
        cases hj
        intro last hl
        rw [hname', hcode] at hl ⊢
        rw [lastWrite_append_singleton, if_pos rfl] at hl
        cases hl
        have hcount : 2 ≤ ((feeds ++ [feed]).map Feed.productCode).count feed.productCode := by
          rw [List.map_append, List.map_singleton, List.count_append, List.count_singleton_self]
          exact Nat.succ_le_succ (List.one_le_count_iff.2 hcodes)
        exact (if_pos hcount).mpr hshows
      · rw [List.getElem?_set_ne hjfc] at hj
        refine (h.follows r (List.mem_of_getElem? hj)).other fun he => hjfc ?_
        have hdj : w.mProductDict feed.productCode = some j := by
          rw [h.dict, List.getElem?_map, hj, he]
          rfl
        exact Option.some.inj (hd.symm.trans hdj)

/-- The feeds, one after the other. -/
theorem table_afterFeeds (double : F → D) (hd : ∀ feed ∈ feeds, feed.bidDepth ≠ [] ∧ feed.askDepth ≠ []) :
    ∃ w, Form1.afterFeeds double feeds = some w ∧ Table double w feeds := by
  induction feeds using List.reverseRecOn with
  | nil => exact ⟨Form1.load, rfl, table_load⟩
  | append_singleton feeds feed ih =>
    obtain ⟨w, hw, ht⟩ := ih fun f hf => hd f (List.mem_append_left _ hf)
    obtain ⟨hb, ha⟩ := hd feed (List.mem_append_right _ (List.mem_singleton_self feed))
    have hstep : ∃ w', w.onFeed double feed = some w' ∧ Table double w' (feeds ++ [feed]) := by
      cases hdict : w.mProductDict feed.productCode with
      | none => exact ht.onFeed_new hdict
      | some fc => exact ht.onFeed_again hdict hb ha
    obtain ⟨w', hon, ht'⟩ := hstep
    refine ⟨w', ?_, ht'⟩
    unfold Form1.afterFeeds at hw ⊢
    rw [List.foldlM_append, hw]
    simpa [Form1.onProtoRecv] using hon

/-! ## When the table is right -/

theorem Table.rows_eq (h : Table double w feeds) : w.rows = w.objects := by
  unfold Form1.rows
  rw [h.list]
  exact filterMap_range w.objects

/-- A product that came once has a row of zeros. -/
theorem Table.zeros_of_count (h : Table double w feeds) {row : FeedClass D} (hr : row ∈ w.objects)
    (hl : lastWrite Feed.productCode row.name feeds = some feed)
    (hc : ¬ 2 ≤ (feeds.map Feed.productCode).count row.name) :
    row.Shows double feed ↔ (FeedClass.new feed.productCode).Shows double feed := by
  have hf := h.follows row hr feed hl
  rw [if_neg hc] at hf
  rw [FeedClass.shows_iff, FeedClass.shows_iff, hf.1, hf.2]
  rfl

/-- The rows and the dictionary are always right, and the columns if each product's
feed came again. -/
theorem Table.reflects_iff (h : Table double w feeds) : Reflects double w feeds ↔ Settled double feeds := by
  constructor
  · intro hr feed hf
    by_cases hc : 2 ≤ (feeds.map Feed.productCode).count feed.productCode
    · exact .inl hc
    · have hl : lastWrite Feed.productCode feed.productCode feeds = some feed :=
        lastWrite_of_count_le_one hf (by omega)
      obtain ⟨row, hrow, hname⟩ : ∃ row ∈ w.objects, row.name = feed.productCode := by
        rw [← List.mem_map, h.names, List.mem_eraseDups]
        exact List.mem_map_of_mem hf
      rw [← hname] at hl hc
      exact .inr ((h.zeros_of_count hrow hl hc).1 (hr.latest row (h.rows_eq ▸ hrow) feed hl))
  · intro hs
    constructor
    · rw [h.rows_eq, h.names]
    · intro code fc
      rw [h.dict, List.getElem?_map, Option.map_eq_some_iff, h.list, List.mem_range]
      constructor
      · intro hx
        obtain ⟨row, hrow, hname⟩ := hx
        exact ⟨(List.getElem?_eq_some_iff.1 hrow).1, row, hrow, hname⟩
      · exact And.right
    · intro row hrow feed hl
      rw [h.rows_eq] at hrow
      by_cases hc : 2 ≤ (feeds.map Feed.productCode).count row.name
      · have hf := h.follows row hrow feed hl
        rwa [if_pos hc] at hf
      · obtain ⟨hf, hname⟩ := mem_of_lastWrite hl
        refine (h.zeros_of_count hrow hl hc).2 ((hs feed hf).resolve_left ?_)
        rwa [hname]

/-- The market table reflects the feeds if and only if every product came at least
twice: its first feed makes a row and leaves it empty. -/
theorem reflects_iff_settled (hd : ∀ feed ∈ feeds, feed.bidDepth ≠ [] ∧ feed.askDepth ≠ []) :
    (∃ w, Form1.afterFeeds double feeds = some w ∧ Reflects double w feeds) ↔ Settled double feeds := by
  obtain ⟨w, hw, ht⟩ := table_afterFeeds double hd
  constructor
  · intro h
    obtain ⟨w', hw', hr⟩ := h
    cases hw.symm.trans hw'
    exact ht.reflects_iff.1 hr
  · intro hs
    exact ⟨w, hw, ht.reflects_iff.2 hs⟩

end

/-- A feed of one level. -/
def levelFeed (code : String) (count qty price : Int) : Feed Int := ⟨code, [⟨count, qty, price⟩], [⟨count, qty, price⟩]⟩

theorem reflects_iff_settled_again :
    (∃ w, Form1.afterFeeds id [levelFeed "A" 1 2 3, levelFeed "B" 0 0 0, levelFeed "A" 4 5 6] = some w ∧
      Reflects id w [levelFeed "A" 1 2 3, levelFeed "B" 0 0 0, levelFeed "A" 4 5 6]) ↔
    Settled id [levelFeed "A" 1 2 3, levelFeed "B" 0 0 0, levelFeed "A" 4 5 6] :=
  reflects_iff_settled (by decide)

/-- A single feed is not shown. -/
theorem not_reflects_once :
    ¬ ∃ w, Form1.afterFeeds id [levelFeed "A" 1 2 3] = some w ∧ Reflects id w [levelFeed "A" 1 2 3] := by
  intro h
  obtain ⟨w, hw, hr⟩ := h
  have hd : ∀ feed ∈ [levelFeed "A" 1 2 3], feed.bidDepth ≠ [] ∧ feed.askDepth ≠ [] := by decide
  obtain ⟨w', hw', ht⟩ := table_afterFeeds id hd
  cases hw.symm.trans hw'
  rcases ht.reflects_iff.1 hr _ (List.mem_singleton_self _) with htwice | ⟨bid, ask, hb, -, hcnt, -⟩
  · exact absurd htwice (by decide)
  · cases hb
    cases hcnt

end MarketTable

end GameServer
