import GameServer.FeedCenter
import Mathlib.Algebra.Group.Nat.Defs
import Mathlib.Algebra.Group.Int.Defs
/-!
# A pass with sessions coming in between

`Machine.feedGeneration` is one step. Here other threads subscribe sessions between
two rounds of its loop, and `IsConnected` answers anything. The loop's `int` takes the
size of the vector, so a pass is the filter it is meant to be as long as the size
is at most 2^31 (`sweeps_iff`). `int` wraps around, as in the compiled program.
-/

namespace GameServer.FeedCenter

variable {σ : Type*}

/-- What the loop works on; a null pointer is `none`. `sent` and `subscribed` (ghost)
are the sessions that feeds were sent to and that came in since the pass began. -/
structure Center (σ : Type*) where
  mSessionVector : List (Option σ)
  mSessionCount : Int32
  sent : List σ
  subscribed : List (Option σ)

/-- What happens in a round: who comes in before it, and what `IsConnected` answers. -/
structure Round (σ : Type*) where
  subscribes : List (Option σ)
  isConnected : Bool

namespace Center

def subscribeFeed (c : Center σ) (session : Option σ) : Center σ :=
  { c with
    mSessionCount := c.mSessionCount + 1
    mSessionVector := c.mSessionVector ++ [session]
    subscribed := c.subscribed ++ [session] }

def sendFeedOnce (c : Center σ) (ses : σ) : Center σ := { c with sent := c.sent ++ [ses] }

/-- The loop from the index below the argument down to 0, a round to each index. There
is no result where an index is out of range. -/
def feedLoop (rounds : Nat → Round σ) : Nat → Center σ → Option (Center σ)
  | 0, c => some c
  | i + 1, c =>
    let c := (rounds i).subscribes.foldl subscribeFeed c
    match c.mSessionVector[i]? with
    | none => none
    | some none => some c
    | some (some ses) =>
      if (rounds i).isConnected then feedLoop rounds i (c.sendFeedOnce ses)
      else
        feedLoop rounds i { c with
          mSessionCount := c.mSessionCount - 1, mSessionVector := c.mSessionVector.eraseIdx i }

/-- The pass of `FeedGenerationThread`. -/
def feedGeneration (c : Center σ) (rounds : Nat → Round σ) : Option (Center σ) :=
  let count := Int32.ofNat c.mSessionVector.length
  let i := count - 1
  feedLoop rounds (i.toInt + 1).toNat { c with sent := [], subscribed := [] }

end Center

/-- The entries that are found connected. -/
def found (rounds : Nat → Round σ) (l : List σ) : List σ :=
  (l.zipIdx.filter fun e => (rounds e.2).isConnected).map Prod.fst

/-- The pass over `l` is a filter: no index is out of range, each entry found connected
is sent one feed, and those and the new sessions are left. -/
def Sweeps (rounds : Nat → Round σ) (l : List σ) (count : Int32) : Prop :=
  ∃ c : Center σ, Center.feedGeneration ⟨l.map some, count, [], []⟩ rounds = some c ∧
    c.sent = (found rounds l).reverse ∧
    c.mSessionVector = (found rounds l).map some ++ c.subscribed ∧
    c.mSessionCount = count + .ofNat c.subscribed.length - .ofNat (l.length - (found rounds l).length)

variable {rounds : Nat → Round σ} {l : List σ} {r : List (Option σ)} {c : Center σ}

theorem found_concat (l : List σ) (ses : σ) :
    found rounds (l ++ [ses]) = found rounds l ++ if (rounds l.length).isConnected then [ses] else [] := by
  unfold found
  rw [List.zipIdx_append, List.filter_append, List.map_append, Nat.zero_add]
  by_cases hc : (rounds l.length).isConnected = true <;> simp [hc]

theorem length_found_le (l : List σ) : (found rounds l).length ≤ l.length := by
  unfold found
  rw [List.length_map, ← List.length_zipIdx (l := l) (i := 0)]
  exact List.length_filter_le ..

namespace Center

theorem subscribeFeed_foldl (c : Center σ) (new : List (Option σ)) :
    new.foldl subscribeFeed c =
      { c with
        mSessionCount := c.mSessionCount + .ofNat new.length
        mSessionVector := c.mSessionVector ++ new
        subscribed := c.subscribed ++ new } := by
  induction new generalizing c with
  | nil => simp
  | cons session new ih =>
    rw [List.foldl_cons, ih]
    simp [subscribeFeed, Int32.ofNat_add, Int32.add_assoc, Int32.add_comm 1]

/-- The rounds below an index filter the entries below it. -/
theorem feedLoop_spec (rounds : Nat → Round σ) (hv : c.mSessionVector = l.map some ++ r) :
    ∃ c' new, feedLoop rounds l.length c = some c' ∧ c'.subscribed = c.subscribed ++ new ∧
      c'.sent = c.sent ++ (found rounds l).reverse ∧
      c'.mSessionVector = (found rounds l).map some ++ r ++ new ∧
      c'.mSessionCount = c.mSessionCount + .ofNat new.length - .ofNat (l.length - (found rounds l).length) := by
  induction l using List.reverseRecOn generalizing c r with
  | nil => exact ⟨c, [], rfl, by simp, by simp [found], by simp [hv, found], by simp [found]⟩
  | append_singleton l ses ih =>
    rw [List.length_append, List.length_singleton, feedLoop, subscribeFeed_foldl, found_concat]
    generalize hnew : (rounds l.length).subscribes = new
    have hvec : c.mSessionVector ++ new = l.map some ++ some ses :: (r ++ new) := by simp [hv]
    have hses : (c.mSessionVector ++ new)[l.length]? = some (some ses) := by simp [hvec]
    dsimp only
    rw [hses]
    dsimp only
    by_cases hc : (rounds l.length).isConnected = true
    · rw [if_pos hc, if_pos hc]
      obtain ⟨c', later, hloop, hsub, hsent, hleft, hcount⟩ := ih
        (c := sendFeedOnce ⟨c.mSessionVector ++ new, c.mSessionCount + .ofNat new.length, c.sent, c.subscribed ++ new⟩ ses)
        hvec
      refine ⟨c', new ++ later, hloop, ?_, ?_, ?_, ?_⟩
      · simp [hsub, sendFeedOnce]
      · simp [hsent, sendFeedOnce]
      · simp [hleft]
      · rw [hcount, List.length_append, List.length_append, Int32.ofNat_add]
        simp [sendFeedOnce, Int32.add_assoc]
    · have herase : (c.mSessionVector ++ new).eraseIdx l.length = l.map some ++ (r ++ new) := by
        rw [hvec, List.eraseIdx_append_of_length_le (by simp), List.length_map, Nat.sub_self]
        rfl
      have hle : (found rounds l).length ≤ l.length := length_found_le l
      rw [if_neg hc, if_neg hc, herase]
      obtain ⟨c', later, hloop, hsub, hsent, hleft, hcount⟩ := ih (r := r ++ new)
        (c := ⟨l.map some ++ (r ++ new), c.mSessionCount + .ofNat new.length - 1, c.sent, c.subscribed ++ new⟩) rfl
      refine ⟨c', new ++ later, hloop, ?_, ?_, ?_, ?_⟩
      · simp [hsub]
      · simp [hsent]
      · simp [hleft]
      · have herased : l.length + 1 - ((found rounds l).length + 0) = l.length - (found rounds l).length + 1 := by omega
        rw [hcount, List.length_append, List.length_append, List.length_nil, herased, Int32.ofNat_add, Int32.ofNat_add]
        grind

end Center

/-! ## The pass -/

/-- `count - 1`. -/
theorem toInt_first (n : Nat) : (Int32.ofNat n - 1).toInt = Int.bmod (n - 1) (2 ^ 32) := by
  rw [Int32.toInt_sub, Int32.toInt_ofNat', Int32.toInt_one]
  exact Int.bmod_sub_bmod

/-- The rounds of a pass, and none is missing up to a size of 2^31. -/
theorem exists_roundCount (n : Nat) :
    ∃ k, ((Int32.ofNat n - 1).toInt + 1).toNat = k ∧ k ≤ n ∧ (k = n ↔ n ≤ 2 ^ 31) := by
  refine ⟨_, rfl, ?_⟩
  rw [toInt_first, Int.bmod_def]
  split <;> omega

/-- A pass filters the entries that it comes to, and leaves the others. -/
theorem feedGeneration_take (rounds : Nat → Round σ) (l : List σ) (count : Int32) :
    ∃ c k, Center.feedGeneration ⟨l.map some, count, [], []⟩ rounds = some c ∧
      (k ≤ l.length ∧ (k = l.length ↔ l.length ≤ 2 ^ 31)) ∧
      c.sent = (found rounds (l.take k)).reverse ∧
      c.mSessionVector = (found rounds (l.take k)).map some ++ (l.drop k).map some ++ c.subscribed ∧
      c.mSessionCount = count + .ofNat c.subscribed.length - .ofNat (k - (found rounds (l.take k)).length) := by
  obtain ⟨k, hk, hle, hiff⟩ := exists_roundCount l.length
  have hlen : (l.take k).length = k := by
    rw [List.length_take]
    omega
  have hv : l.map some = (l.take k).map some ++ (l.drop k).map some := by
    rw [← List.map_append, List.take_append_drop]
  obtain ⟨c, new, hloop, hsub, hsent, hleft, hcount⟩ :=
    Center.feedLoop_spec rounds (c := ⟨l.map some, count, [], []⟩) hv
  rw [List.nil_append] at hsub hsent
  rw [hlen] at hloop hcount
  refine ⟨c, k, ?_, ⟨hle, hiff⟩, hsent, ?_, ?_⟩
  · unfold Center.feedGeneration
    dsimp only
    rw [List.length_map, hk]
    exact hloop
  · rw [hleft, hsub]
  · rw [hcount, hsub]

theorem length_le_of_sweeps {count : Int32} (h : Sweeps rounds l count) : l.length ≤ 2 ^ 31 := by
  obtain ⟨c, k, hpass, ⟨hle, hiff⟩, hsent, hleft, -⟩ := feedGeneration_take rounds l count
  obtain ⟨c', hpass', hsent', hleft', -⟩ := h
  cases hpass.symm.trans hpass'
  have hfound : found rounds (l.take k) = found rounds l := List.reverse_injective (hsent.symm.trans hsent')
  have hlen := congrArg List.length (hleft.symm.trans hleft')
  simp only [hfound, List.length_append, List.length_map, List.length_drop] at hlen
  exact hiff.1 (by omega)

/-- The pass is a filter if and only if the size of the vector is an `int`. -/
theorem sweeps_iff (rounds : Nat → Round σ) (l : List σ) (count : Int32) :
    Sweeps rounds l count ↔ l.length ≤ 2 ^ 31 := by
  constructor
  · exact length_le_of_sweeps
  · intro hle
    obtain ⟨c, k, hpass, ⟨-, hiff⟩, hsent, hleft, hcount⟩ := feedGeneration_take rounds l count
    have hk : k = l.length := hiff.2 hle
    subst hk
    rw [List.take_length] at hsent hleft hcount
    rw [List.drop_length, List.map_nil, List.append_nil] at hleft
    exact ⟨c, hpass, hsent, hleft, hcount⟩

/-- With one more entry the first index is negative, and no session gets a feed. -/
theorem not_sweeps_of_negative : ¬ Sweeps (fun _ => ⟨[], true⟩) (List.replicate (2 ^ 31 + 1) 0) 0 := by
  intro h
  have hle := length_le_of_sweeps h
  rw [List.length_replicate] at hle
  omega

/-! ## The pass that is one step -/

/-- `IsConnected` answers by the state. -/
theorem found_of_state {p : σ → Bool} (hp : ∀ i s, l[i]? = some s → (rounds i).isConnected = p s) :
    found rounds l = l.filter p := by
  induction l using List.reverseRecOn with
  | nil => rfl
  | append_singleton l s ih =>
    have hl : found rounds l = l.filter p := ih fun i s hs => hp i s (by
      rw [List.getElem?_append_left (List.getElem?_eq_some_iff.1 hs).1, hs])
    have hs : (rounds l.length).isConnected = p s := hp _ s (by simp)
    rw [found_concat, hl, hs, List.filter_append, List.filter_singleton]
    cases p s <;> rfl

/-- When nobody leaves during a pass, it does what the step does, and those who came are added. -/
theorem feedGeneration_refines {m m' : Machine} {rounds : Nat → Round Nat} (h : m.feedGeneration = some m')
    (hle : m.mSessionVector.length ≤ 2 ^ 31)
    (hp : ∀ i s, m.mSessionVector[i]? = some s → (rounds i).isConnected = m.isConnected s) (count : Int32) :
    ∃ c, Center.feedGeneration ⟨m.mSessionVector.map some, count, [], []⟩ rounds = some c ∧ c.sent = m'.sent ∧
      c.mSessionVector = m'.mSessionVector.map some ++ c.subscribed := by
  obtain ⟨hvec, -, -, hsent'⟩ := Machine.feedGeneration_spec h
  obtain ⟨c, k, hpass, ⟨-, hiff⟩, hsent, hleft, -⟩ := feedGeneration_take rounds m.mSessionVector count
  rw [hiff.2 hle, List.take_length, found_of_state hp] at hsent hleft
  rw [List.drop_length, List.map_nil, List.append_nil] at hleft
  exact ⟨c, hpass, by rw [hsent, hsent'], by rw [hleft, hvec]⟩

end GameServer.FeedCenter
