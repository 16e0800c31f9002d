import GameServer.Handlers.Exchange
/-!
# The feeds

`FeedCenter`'s feeds, and the assignments of `FeedGenerationThread` to them. The
sessions' threads send a feed while the thread goes on assigning, so what they find is
the state between two assignments, any two. From the first pass on a feed can be sent,
and its size is always the same.
-/

namespace GameServer.FeedCenter

open Protobuf (Depth Feed)

def depthMax : Nat := 30

def productCountMax : Nat := 11

/-- The bytes of a literal. -/
def literal (s : String) : List Byte := s.toList.map fun c => UInt8.ofNat c.toNat

def productCodes : List (List Byte) :=
  ["KR4101KC0000", "KR4201KC2500", "KR4201KC2520", "KR4201KC2550", "KR4201KC2570", "KR4201KC2600", "KR4301KC2520",
    "KR4301KC2550", "KR4301KC2570", "KR4301KC2600", "KR4301KC2500"].map literal

/-- `mRecentFeed` as the constructor leaves it: depths that are not set. -/
def created : List Feed :=
  productCodes.map fun code =>
    ⟨some code, List.replicate depthMax Depth.lite.clear, List.replicate depthMax Depth.lite.clear⟩

/-- What `rand()` returns in a pass, call by call, and what the expressions in
`double` come to as a `float`. -/
structure Chance where
  rand : Nat → Nat
  bidPrice : Nat → Nat → UInt32
  askPrice : UInt32 → Nat → UInt32

/-- On `mutable_biddepth(i)`. -/
def setBid (i : Nat) (set : Depth → Depth) (feed : Feed) : Feed := { feed with biddepth := feed.biddepth.modify i set }

/-- On `mutable_askdepth(i)`. -/
def setAsk (i : Nat) (set : Depth → Depth) (feed : Feed) : Feed := { feed with askdepth := feed.askdepth.modify i set }

def setCount (value : Int32) (d : Depth) : Depth := { d with count := some value }

def setQty (value : Int32) (d : Depth) : Depth := { d with qty := some value }

def setPrice (value : UInt32) (d : Depth) : Depth := { d with price := some value }

/-- The body of the inner loop, an assignment after the other. -/
def assignments (c : Chance) (index i : Nat) : List (Feed → Feed) :=
  let calls := 5 * (depthMax * index + i)
  [setBid i (setCount (Int32.ofNat (c.rand calls % 20))),
    setBid i (setPrice (c.bidPrice (c.rand (calls + 1) % 300) i)),
    setBid i (setQty (Int32.ofNat (c.rand (calls + 2) % 100))),
    setAsk i (setCount (Int32.ofNat (c.rand (calls + 3) % 20))),
    fun feed => setAsk i (setPrice (c.askPrice ((feed.biddepth[0]?.bind Depth.price).getD 0) i)) feed,
    setAsk i (setQty (Int32.ofNat (c.rand (calls + 4) % 100)))]

/-- A pass over the feeds: which feed is assigned to, and how. -/
def generation (c : Chance) : List (Nat × (Feed → Feed)) :=
  (List.range productCountMax).flatMap fun index =>
    (List.range depthMax).flatMap fun i => (assignments c index i).map fun f => (index, f)

def assign (mRecentFeed : List Feed) (a : Nat × (Feed → Feed)) : List Feed := mRecentFeed.modify a.1 a.2

/-- `mRecentFeed` after the first `n` assignments of some passes. -/
def feedsAfter (passes : List Chance) (n : Nat) : List Feed :=
  ((passes.flatMap generation).take n).foldl assign created

/-- `SendFeedDataContext::OnSuccess`, for the feed that `SendFeedOnce` has chosen. -/
def sentFeed (mRecentFeed : List Feed) (rand : Nat) : Option (List Byte) :=
  (mRecentFeed[rand % productCountMax]?).bind fun feed => serializePacket .pktScFeed Feed.lite feed

/-! ## What an assignment keeps -/

/-- Fields that have been set take a byte. -/
structure Small (d : Depth) : Prop where
  count : ∀ v ∈ d.count, Protobuf.int32Size v = 1
  qty : ∀ v ∈ d.qty, Protobuf.int32Size v = 1

theorem int32Size_ofNat {n : Nat} (h : n < 128) : Protobuf.int32Size (Int32.ofNat n) = 1 := by
  have : ∀ k : Fin 128, Protobuf.int32Size (Int32.ofNat k.val) = 1 := by decide
  exact this ⟨n, h⟩

/-- An assignment to a depth. -/
structure Assigns (set : Depth → Depth) : Prop where
  small : ∀ d, Small d → Small (set d)
  full : ∀ d, Depth.lite.isInitialized d = true → Depth.lite.isInitialized (set d) = true

theorem assigns_count {n : Nat} (h : n < 128) : Assigns (setCount (Int32.ofNat n)) where
  small d hd := ⟨fun v hv => by cases hv; exact int32Size_ofNat h, hd.qty⟩
  full d hd := by
    simp only [Depth.lite, Bool.and_eq_true] at hd ⊢
    exact ⟨⟨rfl, hd.1.2⟩, hd.2⟩

theorem assigns_qty {n : Nat} (h : n < 128) : Assigns (setQty (Int32.ofNat n)) where
  small d hd := ⟨hd.count, fun v hv => by cases hv; exact int32Size_ofNat h⟩
  full d hd := by
    simp only [Depth.lite, Bool.and_eq_true] at hd ⊢
    exact ⟨⟨hd.1.1, rfl⟩, hd.2⟩

theorem assigns_price (value : UInt32) : Assigns (setPrice value) where
  small d hd := ⟨hd.count, hd.qty⟩
  full d hd := by
    simp only [Depth.lite, Bool.and_eq_true] at hd ⊢
    exact ⟨hd.1, rfl⟩

/-- An assignment to a depth of a feed. -/
def AssignsFeed (f : Feed → Feed) : Prop :=
  ∀ feed, ∃ i set, Assigns set ∧ (f feed = setBid i set feed ∨ f feed = setAsk i set feed)

theorem assigns_assignments {c : Chance} {index i : Nat} {f : Feed → Feed} (hf : f ∈ assignments c index i) :
    AssignsFeed f := by
  have hcount (n : Nat) : Assigns (setCount (Int32.ofNat (n % 20))) := assigns_count (by omega)
  have hqty (n : Nat) : Assigns (setQty (Int32.ofNat (n % 100))) := assigns_qty (by omega)
  simp only [assignments, List.mem_cons, List.not_mem_nil, or_false] at hf
  intro feed
  rcases hf with rfl | rfl | rfl | rfl | rfl | rfl
  · exact ⟨i, _, hcount _, .inl rfl⟩
  · exact ⟨i, _, assigns_price _, .inl rfl⟩
  · exact ⟨i, _, hqty _, .inl rfl⟩
  · exact ⟨i, _, hcount _, .inr rfl⟩
  · exact ⟨i, _, assigns_price _, .inr rfl⟩
  · exact ⟨i, _, hqty _, .inr rfl⟩

/-- A feed as the constructor shapes it. -/
structure Shape (feed : Feed) : Prop where
  code : ∃ code, feed.productcode = some code ∧ code.length = 12
  bids : feed.biddepth.length = depthMax
  asks : feed.askdepth.length = depthMax
  smallBids : ∀ d ∈ feed.biddepth, Small d
  smallAsks : ∀ d ∈ feed.askdepth, Small d

/-- The depths at `i` have been set. -/
structure FullAt (i : Nat) (feed : Feed) : Prop where
  bid : ∀ d ∈ feed.biddepth[i]?, Depth.lite.isInitialized d = true
  ask : ∀ d ∈ feed.askdepth[i]?, Depth.lite.isInitialized d = true

theorem mem_modify {set : Depth → Depth} (hset : Assigns set) {depths : List Depth} (h : ∀ d ∈ depths, Small d) (i : Nat) :
    ∀ d ∈ depths.modify i set, Small d := by
  intro d hd
  obtain ⟨j, hj⟩ := List.mem_iff_getElem?.1 hd
  rw [List.getElem?_modify] at hj
  obtain ⟨e, he, rfl⟩ := Option.map_eq_some_iff.1 hj
  have hsmall := h e (List.mem_of_getElem? he)
  split
  · exact hset.small e hsmall
  · exact hsmall

theorem full_modify {set : Depth → Depth} (hset : Assigns set) {depths : List Depth} {i : Nat}
    (h : ∀ d ∈ depths[i]?, Depth.lite.isInitialized d = true) (j : Nat) :
    ∀ d ∈ (depths.modify j set)[i]?, Depth.lite.isInitialized d = true := by
  intro d hd
  rw [List.getElem?_modify] at hd
  obtain ⟨e, he, rfl⟩ := Option.map_eq_some_iff.1 hd
  have hfull := h e he
  split
  · exact hset.full e hfull
  · exact hfull

theorem AssignsFeed.shape {f : Feed → Feed} (hf : AssignsFeed f) {feed : Feed} (h : Shape feed) : Shape (f feed) := by
  obtain ⟨i, set, hset, e | e⟩ := hf feed <;> rw [e]
  · exact ⟨h.code, (List.length_modify ..).trans h.bids, h.asks, mem_modify hset h.smallBids i, h.smallAsks⟩
  · exact ⟨h.code, h.bids, (List.length_modify ..).trans h.asks, h.smallBids, mem_modify hset h.smallAsks i⟩

theorem AssignsFeed.fullAt {f : Feed → Feed} (hf : AssignsFeed f) {i : Nat} {feed : Feed} (h : FullAt i feed) :
    FullAt i (f feed) := by
  obtain ⟨j, set, hset, e | e⟩ := hf feed <;> rw [e]
  · exact ⟨full_modify hset h.bid j, h.ask⟩
  · exact ⟨h.bid, full_modify hset h.ask j⟩

/-! ## Runs of assignments -/

/-- What is kept by some assignments to a feed holds when they are done. -/
theorem foldl_keeps {P : Feed → Prop} {fs : List (Feed → Feed)} (h : ∀ f ∈ fs, ∀ feed, P feed → P (f feed))
    {feed : Feed} (h0 : P feed) : P (fs.foldl (fun feed f => f feed) feed) := by
  induction fs generalizing feed with
  | nil => exact h0
  | cons f fs ih => exact ih (fun g hg => h g (by simp [hg])) (h f (by simp) feed h0)

theorem assignments_full (c : Chance) (index i : Nat) (feed : Feed) :
    FullAt i ((assignments c index i).foldl (fun feed f => f feed) feed) := by
  constructor
  · intro d hd
    simp only [assignments, List.foldl_cons, List.foldl_nil, setBid, setAsk, List.getElem?_modify_eq,
      Option.map_eq_map, Option.map_map, Option.mem_def, Option.map_eq_some_iff] at hd
    obtain ⟨e, -, rfl⟩ := hd
    rfl
  · intro d hd
    simp only [assignments, List.foldl_cons, List.foldl_nil, setBid, setAsk, List.getElem?_modify_eq,
      Option.map_eq_map, Option.map_map, Option.mem_def, Option.map_eq_some_iff] at hd
    obtain ⟨e, -, rfl⟩ := hd
    rfl

/-- The assignments to one of the feeds. -/
def assigned (index : Nat) (as : List (Nat × (Feed → Feed))) : List (Feed → Feed) :=
  as.filterMap fun a => if a.1 = index then some a.2 else none

theorem assigned_append (index : Nat) (as bs : List (Nat × (Feed → Feed))) :
    assigned index (as ++ bs) = assigned index as ++ assigned index bs := List.filterMap_append

theorem assigned_map (index : Nat) (fs : List (Feed → Feed)) : assigned index (fs.map fun f => (index, f)) = fs := by
  rw [assigned, List.filterMap_map]
  simp

theorem mem_assigned {index : Nat} {as : List (Nat × (Feed → Feed))} {f : Feed → Feed} (h : f ∈ assigned index as) :
    (index, f) ∈ as := by
  obtain ⟨a, ha, he⟩ := List.mem_filterMap.1 h
  obtain ⟨rfl, rfl⟩ := Option.ite_none_right_eq_some.1 he |>.imp id Option.some.inj
  exact ha

/-- No feed's assignments touch another. -/
theorem getElem?_foldl_assign (as : List (Nat × (Feed → Feed))) (feeds : List Feed) (index : Nat) :
    (as.foldl assign feeds)[index]? = feeds[index]?.map fun feed => (assigned index as).foldl (fun feed f => f feed) feed := by
  induction as generalizing feeds with
  | nil => simp [assigned]
  | cons a as ih =>
    rw [List.foldl_cons, ih, assign, List.getElem?_modify]
    by_cases ha : a.1 = index
    · simp [assigned, ha, Option.map_map, Function.comp_def]
    · simp [assigned, ha]

theorem mem_generation {c : Chance} {a : Nat × (Feed → Feed)} (h : a ∈ generation c) : AssignsFeed a.2 := by
  simp only [generation, List.mem_flatMap, List.mem_map] at h
  obtain ⟨index, -, i, -, f, hf, rfl⟩ := h
  exact assigns_assignments hf

theorem length_generation (c : Chance) : (generation c).length = 1980 := by
  simp [generation, assignments, List.length_flatMap, productCountMax, depthMax]

/-- A pass has the assignments to depth `i` of each feed in it. -/
theorem assigned_generation (c : Chance) {index i : Nat} (hindex : index < productCountMax) (hi : i < depthMax) :
    ∃ before later, assigned index (generation c) = before ++ assignments c index i ++ later := by
  obtain ⟨as, bs, hab⟩ := List.append_of_mem (List.mem_range.2 hindex)
  obtain ⟨cs, ds, hcd⟩ := List.append_of_mem (List.mem_range.2 hi)
  have between (x y z w : List (Feed → Feed)) : ∃ before later,
      x ++ (y ++ (assignments c index i ++ (z ++ w))) = before ++ (assignments c index i ++ later) :=
    ⟨x ++ y, z ++ w, by simp only [List.append_assoc]⟩
  simp only [generation, hab, hcd, List.flatMap_append, List.flatMap_cons, assigned_append, assigned_map,
    List.append_assoc]
  exact between ..

/-- A feed after a pass and more assignments. -/
structure Ready (feed : Feed) : Prop extends Shape feed where
  full : ∀ i, i < depthMax → FullAt i feed

theorem created_shape {feed : Feed} (h : feed ∈ created) : Shape feed := by
  have hcodes : ∀ code ∈ productCodes, code.length = 12 := by decide
  obtain ⟨code, hmem, rfl⟩ := List.mem_map.1 h
  have hsmall : ∀ d ∈ List.replicate depthMax Depth.lite.clear, Small d := by
    intro d hd
    obtain rfl := List.eq_of_mem_replicate hd
    exact ⟨fun v hv => (by cases hv), fun v hv => (by cases hv)⟩
  exact ⟨⟨code, rfl, hcodes code hmem⟩, List.length_replicate, List.length_replicate, hsmall, hsmall⟩

/-- Between any two assignments after the first pass. -/
theorem feedsAfter_ready (c : Chance) (passes : List Chance) {n : Nat} (hn : (generation c).length ≤ n) :
    (feedsAfter (c :: passes) n).length = productCountMax ∧ ∀ feed ∈ feedsAfter (c :: passes) n, Ready feed := by
  have hsplit : ((c :: passes).flatMap generation).take n =
      generation c ++ (passes.flatMap generation).take (n - (generation c).length) := by
    rw [List.flatMap_cons, List.take_append, List.take_of_length_le hn]
  generalize hlater : (passes.flatMap generation).take (n - (generation c).length) = later at hsplit
  have hlen : ∀ (as : List (Nat × (Feed → Feed))) (feeds : List Feed), (as.foldl assign feeds).length = feeds.length := by
    intro as
    induction as with
    | nil => exact fun _ => rfl
    | cons a as ih => exact fun feeds => (ih _).trans (List.length_modify ..)
  have hassigns : ∀ index, ∀ f ∈ assigned index (generation c ++ later), AssignsFeed f := by
    intro index f hf
    rcases List.mem_append.1 (mem_assigned hf) with hmem | hmem
    · exact mem_generation hmem
    · rw [← hlater] at hmem
      obtain ⟨c', -, hmem'⟩ := List.mem_flatMap.1 (List.mem_of_mem_take hmem)
      exact mem_generation hmem'
  have hfeeds : feedsAfter (c :: passes) n = (generation c ++ later).foldl assign created := by rw [feedsAfter, hsplit]
  have hcount : (feedsAfter (c :: passes) n).length = productCountMax := by rw [hfeeds, hlen, created, List.length_map]; rfl
  refine ⟨hcount, fun feed hmem => ?_⟩
  obtain ⟨index, hindex⟩ := List.mem_iff_getElem?.1 hmem
  have hlt : index < productCountMax := hcount ▸ (List.getElem?_eq_some_iff.1 hindex).1
  rw [hfeeds, getElem?_foldl_assign] at hindex
  obtain ⟨first, hfirst, rfl⟩ := Option.map_eq_some_iff.1 hindex
  refine ⟨foldl_keeps (fun f hf _ => (hassigns index f hf).shape) (created_shape (List.mem_of_getElem? hfirst)),
    fun i hi => ?_⟩
  -- full from its own assignments on
  obtain ⟨before, after, hpass⟩ := assigned_generation c hlt hi
  have hall : assigned index (generation c ++ later) =
      before ++ (assignments c index i ++ (after ++ assigned index later)) := by
    rw [assigned_append, hpass]
    simp only [List.append_assoc]
  rw [hall, List.foldl_append, List.foldl_append]
  apply foldl_keeps
  · intro f hf feed hfull
    have hmem : f ∈ assigned index (generation c ++ later) := by
      rw [hall]
      exact List.mem_append_right _ (List.mem_append_right _ hf)
    exact (hassigns index f hmem).fullAt hfull
  · exact assignments_full c index i _

theorem depth_size {d : Depth} (hsmall : Small d) (hfull : Depth.lite.isInitialized d = true) :
    Depth.lite.byteSize d = 9 := by
  obtain ⟨count, qty, price⟩ := d
  simp only [Depth.lite, Bool.and_eq_true, Option.isSome_iff_exists] at hfull
  obtain ⟨⟨⟨v, rfl⟩, w, rfl⟩, x, rfl⟩ := hfull
  have hv := hsmall.count v rfl
  have hw := hsmall.qty w rfl
  simp only [Depth.lite, Protobuf.sizeIf, hv, hw]

theorem depthsSize_eq {depths : List Depth} (h : ∀ d ∈ depths, Depth.lite.byteSize d = 9) :
    Feed.depthsSize depths = 11 * depths.length := by
  induction depths with
  | nil => rfl
  | cons d depths ih =>
    have hd := h d (by simp)
    rw [Feed.depthsSize_cons, ih fun e he => h e (by simp [he]), hd, List.length_cons]
    show 1 + 10 + _ = _
    omega

theorem full_mem {depths : List Depth} (hlen : depths.length = depthMax)
    (h : ∀ i, i < depthMax → ∀ d ∈ depths[i]?, Depth.lite.isInitialized d = true) :
    ∀ d ∈ depths, Depth.lite.isInitialized d = true := by
  intro d hd
  obtain ⟨i, hi⟩ := List.mem_iff_getElem?.1 hd
  exact h i (hlen ▸ (List.getElem?_eq_some_iff.1 hi).1) d hi

theorem Ready.size {feed : Feed} (h : Ready feed) :
    Feed.lite.isInitialized feed = true ∧ Feed.lite.byteSize feed = 674 := by
  have hbids := full_mem h.bids fun i hi => (h.full i hi).bid
  have hasks := full_mem h.asks fun i hi => (h.full i hi).ask
  obtain ⟨code, hcode, hlen⟩ := h.code
  constructor
  · simp only [Feed.lite, hcode, Option.isSome_some, Bool.true_and, Bool.and_eq_true, List.all_eq_true]
    exact ⟨hbids, hasks⟩
  · have hb := depthsSize_eq fun d hd => depth_size (h.smallBids d hd) (hbids d hd)
    have ha := depthsSize_eq fun d hd => depth_size (h.smallAsks d hd) (hasks d hd)
    simp only [Feed.lite, hcode, hb, ha, h.bids, h.asks, Protobuf.sizeIf, Protobuf.stringSize, hlen]
    rfl

/-- Whenever a thread looks at it, a feed is complete and of the same size, so a size that
was found before still holds when the feed is written. Its packet is one that the client
can parse. -/
theorem feeds_always_sendable (c : Chance) (passes : List Chance) {n : Nat} (hn : (generation c).length ≤ n)
    (rand : Nat) :
    (∀ feed ∈ feedsAfter (c :: passes) n, Feed.lite.isInitialized feed = true ∧ Feed.lite.byteSize feed = 674) ∧
    ∃ feed ∈ feedsAfter (c :: passes) n, ∃ bytes, bytes.length = 674 ∧
      sentFeed (feedsAfter (c :: passes) n) rand = some (packetBytes MessageType.pktScFeed.value bytes) ∧
      Feed.lite.parseFromCodedStream (.ofArray bytes) = .ok feed := by
  obtain ⟨hlen, hready⟩ := feedsAfter_ready c passes hn
  refine ⟨fun feed hmem => (hready feed hmem).size, ?_⟩
  have hlt : rand % productCountMax < (feedsAfter (c :: passes) n).length := by
    rw [hlen]
    exact Nat.mod_lt _ (by decide)
  have hmem := List.getElem_mem hlt
  have hget : (feedsAfter (c :: passes) n)[rand % productCountMax]? = some _ := List.getElem?_eq_getElem hlt
  generalize (feedsAfter (c :: passes) n)[rand % productCountMax] = feed at hmem hget
  obtain ⟨hinit, hsize⟩ := (hready feed hmem).size
  have hsmall : Feed.lite.byteSize feed < 2 ^ 31 := by omega
  refine ⟨feed, hmem, Feed.lite.encoding feed, ?_, ?_, ?_⟩
  · rw [Feed.described.encoding_length hsmall, hsize]
  · rw [sentFeed, hget, Option.bind_some, serializePacket_eq Feed.described .pktScFeed hsmall]
  · exact Feed.described.parse_encoding (by decide) hinit (by rw [hsize]; decide)

/-- The first pass done, in the middle of the second. -/
theorem feeds_always_sendable_second :
    ∃ feed ∈ feedsAfter [⟨id, fun _ _ => 0, fun x _ => x⟩, ⟨id, fun _ _ => 1, fun x _ => x⟩] 2000,
      ∃ bytes, bytes.length = 674 ∧
        sentFeed (feedsAfter [⟨id, fun _ _ => 0, fun x _ => x⟩, ⟨id, fun _ _ => 1, fun x _ => x⟩] 2000) 5 =
          some (packetBytes MessageType.pktScFeed.value bytes) ∧
        Feed.lite.parseFromCodedStream (.ofArray bytes) = .ok feed :=
  (feeds_always_sendable ⟨id, fun _ _ => 0, fun x _ => x⟩ [⟨id, fun _ _ => 1, fun x _ => x⟩]
    (by rw [length_generation]; decide) 5).2

end GameServer.FeedCenter
