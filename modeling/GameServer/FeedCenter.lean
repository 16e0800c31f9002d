import GameServer.DatabaseJobs
import GameServer.Lib.Run
import Mathlib.Data.List.Induction
import Mathlib.Data.List.Nodup
/-!
# The feed center

`FeedCenter.cpp` of Homework7 and what the sessions do with it. `UnsubscribeFeed`
does nothing: a session that has gone is dropped by the next pass of the feed
thread, and may have come back by then. So it is in `mSessionVector` once if and
only if every session is accepted after such a pass (`exact_iff`). Each operation is
one step, the pass too.
-/

namespace GameServer.FeedCenter

open Lib
open DatabaseJobs (Pool)

/-- `accepts` is the sessions with an accept outstanding, `sent` (ghost) the
sessions that the last pass has sent a feed to. -/
structure Machine where
  pool : Pool
  accepts : List Nat
  mSessionVector : List Nat
  mSessionCount : Int
  sent : List Nat

namespace Machine

def isConnected (m : Machine) (s : Nat) : Bool := (m.pool.session s).mConnected

def setConnected (m : Machine) (s : Nat) (connected : Bool) : Machine :=
  { m with pool := m.pool.modify s fun ses => { ses with mConnected := connected } }

def subscribeFeed (m : Machine) (session : Nat) : Machine :=
  { m with mSessionCount := m.mSessionCount + 1, mSessionVector := m.mSessionVector ++ [session] }

/-- Its body is a comment. -/
def unsubscribeFeed (m : Machine) (_session : Nat) : Machine := m

/-- One round of `AcceptClientSessions`; `ok` is what `PostAccept` returns. -/
def acceptClientSession (m : Machine) (ok : Bool) : Option Machine :=
  m.pool.issue.map fun p =>
    { m with pool := p, accepts := if ok then m.accepts ++ m.pool.mFreeSessionList.head?.toList else m.accepts }

/-- `ok` if the calls on the socket succeed; otherwise the session disconnects at once. -/
def acceptCompletion (m : Machine) (s : Nat) (ok : Bool) : Option Machine :=
  if s ∈ m.accepts ∧ m.isConnected s = false then
    let m := { m with accepts := m.accepts.erase s }
    some (if ok then (m.setConnected s true).subscribeFeed s else m.setConnected s false)
  else none

/-- `OnDisconnect`, and the release of the reference for issuing. -/
def disconnectCompletion (m : Machine) (s : Nat) : Option Machine :=
  let m := m.unsubscribeFeed s
  (m.pool.use (.releaseRef s)).map ({ m with pool := · })

/-- The context takes a reference; where it goes is `DatabaseJobs.Machine.sendFeedOnce`. -/
def sendFeedOnce (m : Machine) (ses : Nat) : Option Machine :=
  (m.pool.use (.addRef ses)).map fun p => { m with pool := p, sent := m.sent ++ [ses] }

/-- The loop of `FeedGenerationThread` over the first `i` sessions, from the last. -/
def feedLoop (m : Machine) : Nat → Option Machine
  | 0 => some m
  | i + 1 =>
    match m.mSessionVector[i]? with
    | some ses =>
      if m.isConnected ses then (m.sendFeedOnce ses).bind fun m => feedLoop m i
      else
        feedLoop { m with
          mSessionCount := m.mSessionCount - 1, mSessionVector := m.mSessionVector.eraseIdx i } i
    | none => none

/-- A pass. -/
def feedGeneration (m : Machine) : Option Machine := feedLoop { m with sent := [] } m.mSessionVector.length

inductive Action where
  | acceptClientSession (ok : Bool)
  | acceptCompletion (s : Nat) (ok : Bool)
  /-- `DisconnectRequest`. -/
  | disconnectRequest (s : Nat)
  | disconnectCompletion (s : Nat)
  | addRef (s : Nat)
  | releaseRef (s : Nat)
  /-- `ReturnClientSession`. -/
  | enterReturn (s : Nat)
  | sessionReset
  | feedGeneration
  deriving DecidableEq

def step (m : Machine) : Action → Option Machine
  | .acceptClientSession ok => m.acceptClientSession ok
  | .acceptCompletion s ok => m.acceptCompletion s ok
  | .disconnectRequest s => some (m.setConnected s false)
  | .disconnectCompletion s => m.disconnectCompletion s
  | .addRef s => (m.pool.use (.addRef s)).map ({ m with pool := · })
  | .releaseRef s => (m.pool.use (.releaseRef s)).map ({ m with pool := · })
  | .enterReturn s => (m.pool.enterReturn s).map ({ m with pool := · })
  | .sessionReset => m.pool.sessionReset.map ({ m with pool := · })
  | .feedGeneration => m.feedGeneration

/-- `PrepareClientSessions`. -/
def start (maxConnection : Nat) : Machine where
  pool := ⟨fun _ => ⟨false, 0, 0, 0⟩, (List.range maxConnection).reverse, [], none⟩
  accepts := []
  mSessionVector := []
  mSessionCount := 0
  sent := []

/-- Each connected session is listed once and no other one twice, and each was sent
one feed at most by the last pass. -/
structure Exact (m : Machine) : Prop where
  nodup : m.mSessionVector.Nodup
  listed : ∀ s, m.isConnected s = true → m.mSessionVector.count s = 1
  count : m.mSessionCount = m.mSessionVector.length
  sent : ∀ s, m.sent.count s ≤ 1

/-- The session that is subscribed. -/
def Action.subscribes : Action → Option Nat
  | .acceptCompletion s true => some s
  | _ => none

/-- The session that is accepted is not listed any more. -/
def Dropped (m : Machine) (a : Action) : Prop := ∀ s ∈ a.subscribes, s ∉ m.mSessionVector

instance {m : Machine} {a : Action} : Decidable (m.Dropped a) :=
  inferInstanceAs (Decidable (∀ s ∈ a.subscribes, _))

variable {m m' : Machine} {a : Action} {s : Nat}

theorem isConnected_setConnected (b : Bool) (x : Nat) :
    (m.setConnected s b).isConnected x = if x = s then b else m.isConnected x := by
  by_cases hx : x = s <;> simp [setConnected, isConnected, Pool.modify, hx]

theorem isConnected_addRef {p : Pool} (h : m.pool.use (.addRef s) = some p) (x : Nat) :
    (p.session x).mConnected = m.isConnected x := by
  obtain ⟨p₁, ha, rfl⟩ := Option.map_eq_some_iff.1 h
  rw [Pool.addRef] at ha
  split at ha <;> cases ha
  by_cases hx : x = s <;> simp [isConnected, Pool.modify, hx]

theorem isConnected_releaseRef {p : Pool} (h : m.pool.use (.releaseRef s) = some p) (x : Nat) :
    (p.session x).mConnected = m.isConnected x := by
  rw [Pool.use, Pool.releaseRef] at h
  split at h <;> cases h
  by_cases hx : x = s <;> simp [isConnected, Pool.modify, hx]

/-! ## A pass -/

/-- What the loop does to the first sessions. -/
theorem feedLoop_spec {l r : List Nat} (hv : m.mSessionVector = l ++ r) (h : m.feedLoop l.length = some m') :
    m'.mSessionVector = l.filter m.isConnected ++ r ∧ m'.isConnected = m.isConnected ∧
      m'.mSessionCount + l.length = m.mSessionCount + (l.filter m.isConnected).length ∧
      m'.sent = m.sent ++ (l.filter m.isConnected).reverse := by
  induction l using List.reverseRecOn generalizing m r with
  | nil =>
    cases h
    simpa using hv
  | append_singleton l ses ih =>
    rw [List.length_append, List.length_singleton, feedLoop] at h
    have hses : m.mSessionVector[l.length]? = some ses := by simp [hv]
    rw [hses] at h
    dsimp only at h
    split at h
    case isTrue hc =>
      obtain ⟨m₁, hsend, h⟩ := Option.bind_eq_some_iff.1 h
      obtain ⟨p, hp, rfl⟩ := Option.map_eq_some_iff.1 hsend
      have hconn : isConnected { m with pool := p, sent := m.sent ++ [ses] } = m.isConnected :=
        funext (isConnected_addRef hp)
      obtain ⟨hvec, hcon, hcount, hsent⟩ := ih (r := ses :: r) (by simp [hv]) h
      rw [hconn] at hvec hcon hcount hsent
      refine ⟨by simp [hvec, hc], hcon, ?_, by simp [hsent, hc]⟩
      simp only [List.filter_append, List.length_append, List.filter_singleton, hc] at hcount ⊢
      simp only [cond_true, List.length_singleton]
      omega
    case isFalse hc =>
      have herase : m.mSessionVector.eraseIdx l.length = l ++ r := by
        rw [hv, List.append_assoc, List.eraseIdx_append_of_length_le (Nat.le_refl _)]
        simp
      obtain ⟨hvec, hcon, hcount, hsent⟩ := ih (r := r) herase h
      have hconn : isConnected { m with mSessionCount := m.mSessionCount - 1
                                        mSessionVector := m.mSessionVector.eraseIdx l.length } = m.isConnected := rfl
      rw [hconn] at hvec hcon hcount hsent
      refine ⟨by simp [hvec, hc], hcon, ?_, by simp [hsent, hc]⟩
      simp only [List.filter_append, List.length_append, List.filter_singleton, hc] at hcount ⊢
      simp only [cond_false, List.length_singleton, List.length_nil]
      omega

theorem feedGeneration_spec (h : m.feedGeneration = some m') :
    m'.mSessionVector = m.mSessionVector.filter m.isConnected ∧ m'.isConnected = m.isConnected ∧
      m'.mSessionCount + m.mSessionVector.length = m.mSessionCount + (m.mSessionVector.filter m.isConnected).length ∧
      m'.sent = (m.mSessionVector.filter m.isConnected).reverse := by
  have hspec := feedLoop_spec (m := { m with sent := [] }) (List.append_nil _).symm h
  have hconn : isConnected { m with sent := [] } = m.isConnected := rfl
  rw [hconn] at hspec
  simpa using hspec

/-! ## One step -/

theorem acceptCompletion_true (h : m.acceptCompletion s true = some m') :
    m'.mSessionVector = m.mSessionVector ++ [s] ∧ m'.mSessionCount = m.mSessionCount + 1 ∧ m'.sent = m.sent ∧
      ∀ x, x ≠ s → m'.isConnected x = m.isConnected x := by
  rw [acceptCompletion] at h
  split at h <;> cases h
  refine ⟨rfl, rfl, rfl, fun x hx => (isConnected_setConnected true x).trans ?_⟩
  rw [if_neg hx]
  rfl

/-- The feed stays exact as long as no session is connected. -/
theorem Exact.keep (he : m.Exact) (hv : m'.mSessionVector = m.mSessionVector) (hc : m'.mSessionCount = m.mSessionCount)
    (hs : m'.sent = m.sent) (hx : ∀ x, m'.isConnected x = true → m.isConnected x = true) : m'.Exact where
  nodup := hv ▸ he.nodup
  listed s h := hv ▸ he.listed s (hx s h)
  count := by rw [hv, hc, he.count]
  sent s := hs ▸ he.sent s

theorem exact_step (he : m.Exact) (hd : m.Dropped a) (hs : m.step a = some m') : m'.Exact := by
  cases a with
  | acceptClientSession ok =>
    obtain ⟨p, hp, rfl⟩ := Option.map_eq_some_iff.1 hs
    refine he.keep rfl rfl rfl fun x hx => ?_
    rw [Pool.issue] at hp
    split at hp <;> cases hp
    rename_i s _ _ _
    by_cases hxs : x = s <;> simpa [isConnected, Pool.modify, hxs] using hx
  | acceptCompletion s ok =>
    cases ok with
    | false =>
      rw [step, acceptCompletion] at hs
      split at hs <;> cases hs
      refine he.keep rfl rfl rfl fun x hx => ?_
      have hx := (isConnected_setConnected false x).symm.trans hx
      split at hx
      · cases hx
      · exact hx
    | true =>
      obtain ⟨hvec, hcount, hsent, hcon⟩ := acceptCompletion_true hs
      have hnew : s ∉ m.mSessionVector := hd s rfl
      constructor
      · rw [hvec]
        exact List.nodup_append.2 ⟨he.nodup, List.nodup_singleton s, fun x hx y hy => by
          rw [List.mem_singleton.1 hy]
          exact fun hxs => hnew (hxs ▸ hx)⟩
      · intro x hx
        rw [hvec, List.count_append]
        by_cases hxs : x = s
        · rw [hxs, List.count_eq_zero.2 hnew, List.count_singleton_self]
        · rw [hcon x hxs] at hx
          rw [he.listed x hx, List.count_eq_zero.2 (by simpa using hxs)]
      · rw [hcount, he.count, hvec, List.length_append]
        rfl
      · exact hsent ▸ he.sent
  | disconnectRequest s =>
    cases hs
    refine he.keep rfl rfl rfl fun x hx => ?_
    rw [isConnected_setConnected] at hx
    split at hx
    · cases hx
    · exact hx
  | disconnectCompletion s =>
    obtain ⟨p, hp, rfl⟩ := Option.map_eq_some_iff.1 hs
    exact he.keep rfl rfl rfl fun x hx => (isConnected_releaseRef hp x).symm.trans hx
  | addRef s =>
    obtain ⟨p, hp, rfl⟩ := Option.map_eq_some_iff.1 hs
    exact he.keep rfl rfl rfl fun x hx => (isConnected_addRef hp x).symm.trans hx
  | releaseRef s =>
    obtain ⟨p, hp, rfl⟩ := Option.map_eq_some_iff.1 hs
    exact he.keep rfl rfl rfl fun x hx => (isConnected_releaseRef hp x).symm.trans hx
  | enterReturn s =>
    obtain ⟨p, hp, rfl⟩ := Option.map_eq_some_iff.1 hs
    rw [Pool.enterReturn] at hp
    split at hp <;> cases hp
    exact he.keep rfl rfl rfl fun _ hx => hx
  | sessionReset =>
    obtain ⟨p, hp, rfl⟩ := Option.map_eq_some_iff.1 hs
    obtain ⟨s, -, rfl⟩ := Option.map_eq_some_iff.1 hp
    refine he.keep rfl rfl rfl fun x hx => ?_
    by_cases hxs : x = s
    · simp [isConnected, Pool.modify, hxs] at hx
    · simpa [isConnected, Pool.modify, hxs] using hx
  | feedGeneration =>
    obtain ⟨hvec, hcon, hc, hsen⟩ := feedGeneration_spec hs
    have hn : m'.mSessionVector.Nodup := hvec ▸ he.nodup.filter _
    constructor
    · exact hn
    · intro s hcs
      rw [hcon] at hcs
      rw [hvec, List.count_filter hcs]
      exact he.listed s hcs
    · have := he.count
      rw [hvec]
      omega
    · intro s
      rw [hsen]
      exact List.nodup_iff_count_le_one.1 (List.nodup_reverse.2 (hvec ▸ hn)) s

/-! ## Runs -/

theorem exact_start (c : Nat) : (start c).Exact where
  nodup := List.nodup_nil
  listed s h := by cases h
  count := rfl
  sent _ := Nat.zero_le 1

/-- The feed is exact in every state of a run if and only if no session is accepted
while it is still listed. -/
theorem exact_iff {c : Nat} {as : List Action} (hr : run step (start c) as = some m) :
    (∀ as₁ as₂ m₁, as = as₁ ++ as₂ → run step (start c) as₁ = some m₁ → Exact m₁) ↔
      Meets step Dropped (start c) as := by
  constructor
  · intro he
    refine meets_of_split fun as₁ a as₂ m₁ hsplit hr₁ s hsub hmem => ?_
    obtain ⟨m₁', hr₁', hr₂⟩ := run_append.1 (hsplit ▸ hr)
    cases hr₁.symm.trans hr₁'
    obtain ⟨m₂, hs, -⟩ := run_cons.1 hr₂
    have hr₂ : run step (start c) (as₁ ++ [a]) = some m₂ := run_append.2 ⟨m₁, hr₁, run_cons.2 ⟨m₂, hs, rfl⟩⟩
    have he₂ : m₂.Exact := he (as₁ ++ [a]) as₂ m₂ (by simp [hsplit]) hr₂
    cases a with
    | acceptCompletion x ok =>
      cases ok with
      | false => cases hsub
      | true =>
        cases hsub
        have hn := (acceptCompletion_true hs).1 ▸ he₂.nodup
        exact (List.nodup_append.1 hn).2.2 s hmem s (List.mem_singleton_self s) rfl
    | _ => cases hsub
  · rintro hm as₁ as₂ m₁ rfl hr₁
    exact inv_of_meets (fun _ _ _ he hd hs => exact_step he hd hs) (exact_start c) (meets_append hm hr₁).1 hr₁

/-- A session is used twice, with a pass between its two clients. -/
def swept : List Action :=
  [.acceptClientSession true, .acceptCompletion 0 true, .disconnectRequest 0, .disconnectCompletion 0, .enterReturn 0,
    .sessionReset, .feedGeneration, .acceptClientSession true, .acceptCompletion 0 true, .feedGeneration]

theorem exact_iff_swept : (run step (start 1) swept).isSome ∧
    ∀ m, run step (start 1) swept = some m →
      ((∀ as₁ as₂ m₁, swept = as₁ ++ as₂ → run step (start 1) as₁ = some m₁ → Exact m₁) ↔
        Meets step Dropped (start 1) swept) :=
  ⟨by decide +kernel, fun _ hr => exact_iff hr⟩

/-- No pass comes between them, and the next one sends two feeds to the second. -/
def recycled : List Action :=
  [.acceptClientSession true, .acceptCompletion 0 true, .disconnectRequest 0, .disconnectCompletion 0, .enterReturn 0,
    .sessionReset, .acceptClientSession true, .acceptCompletion 0 true, .feedGeneration]

theorem not_exact_recycled :
    ¬ ∀ (c : Nat) (as : List Action) (m : Machine), run step (start c) as = some m → m.Exact := by
  intro hall
  have hmap : (run step (start 1) recycled).map (fun m => (m.mSessionVector, m.sent)) = some ([0, 0], [0, 0]) := by
    decide +kernel
  obtain ⟨m, hr, hm⟩ := Option.map_eq_some_iff.1 hmap
  simp only [Prod.mk.injEq] at hm
  have hn := (hall 1 recycled m hr).nodup
  rw [hm.1] at hn
  exact absurd hn (by decide)

end Machine

end GameServer.FeedCenter
