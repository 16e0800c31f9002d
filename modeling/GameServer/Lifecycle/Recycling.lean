import GameServer.Lifecycle.Consistent
/-!
# Sessions used without a reference

`FlushSend` of Homework6 and the feed of Homework7 reach a session by a pointer
that holds no reference, and only test `IsConnected` before their `AddRef`. If
no session loses its last reference in between, everything is in order
(`flush_safe`, `feed_safe`). If one does, it is in use while it is free, and is
returned a second time (`flush_recycled`, `feed_recycled`).
-/

namespace GameServer.Lifecycle

open Lib Books

namespace Server

variable {h : Homework} {v : Server} {a : Action} {s : SessionId}

/-- The session that the action takes a reference on, for the call `c`. -/
def addsRef (v : Server) (c : Call) : Action → Option SessionId
  | .run t _ =>
    match v.next t with
    | some (.newContext c' s) => if c' = c then some s else none
    | _ => none
  | _ => none

/-- `FlushSend` takes no reference on a session that has none left, or that is
free, and every `ReleaseRef` leaves a count of at least 0. -/
structure FlushSafe (v : Server) (a : Action) : Prop where
  addRef : ∀ s, v.addsRef .flushSend a = some s → 0 < (v.session s).mRefCount ∧ s ∉ v.mFreeSessionList
  releaseRef : ∀ s, v.releases a = some s → 0 ≤ (v.session s).mRefCount - 1

/-- The feed takes no reference on a free session. -/
def FeedSafe (v : Server) (a : Action) : Prop :=
  ∀ s, v.addsRef .sendFeedOnce a = some s → s ∉ v.mFreeSessionList

/-- A session is returned at most once for each time it is issued. -/
def ReturnedOnce (v : Server) : Prop :=
  ∀ s, (v.session s).returned ≤ (v.session s).issued ∧ (v.session s).issued ≤ (v.session s).returned + 1

theorem next_eq {t : Nat} {i : Instr} (hn : v.next t = some i) :
    ∃ th rest, v.threads[t]? = some th ∧ th.todo = i :: rest := by
  unfold next at hn
  obtain ⟨th, ht, hhead⟩ := Option.bind_eq_some_iff.1 hn
  obtain ⟨rest, htodo⟩ := List.head?_eq_some_iff.1 hhead
  exact ⟨th, rest, ht, htodo⟩

theorem addsRef_referenced {c : Call} (hv : v.Consistent) (ha : v.addsRef c a = some s) :
    0 < (v.session s).mRefCount ∧ s ∉ v.mFreeSessionList := by
  unfold addsRef at ha
  split at ha
  · split at ha
    next t answer c' x hn =>
      split at ha <;> cases ha
      obtain ⟨th, rest, ht, htodo⟩ := next_eq hn
      exact referenced hv (referenced_of_newContext hv ht htodo)
    · cases ha
  · cases ha

theorem releases_referenced (hv : v.Consistent) (ha : v.releases a = some s) : 0 < (v.session s).mRefCount := by
  unfold releases at ha
  split at ha
  · split at ha
    next t answer x hn =>
      cases ha
      obtain ⟨th, rest, ht, htodo⟩ := next_eq hn
      exact referenced_of_releaseRef hv ht (htodo ▸ List.mem_cons_self) (.inl rfl)
    next t answer x hn =>
      cases ha
      obtain ⟨th, rest, ht, htodo⟩ := next_eq hn
      exact referenced_of_releaseRef hv ht (htodo ▸ List.mem_cons_self) (.inr rfl)
    · cases ha
  · cases ha

/-- Whatever the steps of such a run do, they do it in a consistent state. -/
theorem meets_of_spares {Q : Server → Action → Prop} {n : Nat} {as : List Action}
    (hQ : ∀ v a, v.Consistent → Q v a) (hm : Meets (step h) SparesPeeked (start h n) as) :
    Meets (step h) Q (start h n) as :=
  meets_of_meets (fun _ _ _ hv hp hs => step_consistent hv hp hs) (fun v a hv _ => hQ v a hv)
    (start_consistent h n) hm

instance (v : Server) (a : Action) : Decidable (v.SparesPeeked a) :=
  match ha : v.releases a with
  | some s =>
    decidable_of_iff ((v.session s).mRefCount = 1 → v.running .peeking s = 0) (by simp [SparesPeeked, ha])
  | none => isTrue (by simp [SparesPeeked, ha])

/-! ## Homework6 -/

/-- The deferred sends of Homework6. -/
theorem flush_safe (n : Nat) (as : List Action)
    (hm : Meets (step .homework6) SparesPeeked (start .homework6 n) as) :
    Meets (step .homework6) FlushSafe (start .homework6 n) as ∧
      ∀ v, run (step .homework6) (start .homework6 n) as = some v → v.ReturnedOnce := by
  constructor
  · apply meets_of_spares _ hm
    intro v a hv
    refine ⟨fun s ha => addsRef_referenced hv ha, fun s ha => ?_⟩
    have hpos := releases_referenced hv ha
    omega
  · intro v hr
    exact returned_once (run_consistent hm hr)

/-- The client is accepted, its player is loaded, and its first bytes are
echoed: thread 1 has it in its `LSendRequestSessionList`. -/
def echoQueued : List Action :=
  acceptOne ++ [.dequeue 1 0 (.done true [])] ++ steps 1 8 ++
    [.doDatabaseJob 1 true, .dequeue 1 0 (.done true [])] ++ steps 1 5 ++
    [.dequeue 1 0 (.done true [])] ++ steps 1 1 ++ [.dequeue 1 0 (.done true [])] ++ steps 1 10

/-- Thread 2 fails to receive from the client and disconnects it. -/
def clientFails : List Action :=
  [.dequeue 2 0 (.done true [])] ++ steps 2 3 ++ [.run 2 false] ++ steps 2 5

/-- Thread 2 takes `n` steps in the completion of the disconnect. -/
def clientLeaves (n : Nat) : List Action := clientFails ++ [.dequeue 2 0 (.done true [])] ++ steps 2 n

/-- `FlushSend` sends the echo before the client leaves. -/
def echoSent : List Action :=
  echoQueued ++ [.doSendJob 1] ++ steps 1 8 ++ [.dequeue 1 1 (.done true [])] ++ steps 1 4 ++ clientLeaves 11

theorem flush_safe_echoSent :
    (∃ v, run (step .homework6) (start .homework6 2) echoSent = some v ∧ (v.session firstClient).returned = 1) ∧
      Meets (step .homework6) FlushSafe (start .homework6 2) echoSent := by
  have hmap : (run (step .homework6) (start .homework6 2) echoSent).map
      (fun v => (v.session firstClient).returned) = some 1 := by decide +kernel
  exact ⟨Option.map_eq_some_iff.1 hmap, (flush_safe 2 echoSent (by decide +kernel)).1⟩

/-- Thread 1 is in `FlushSend`, past its tests, when thread 2 disconnects the
client, handles the completion and releases the last references. -/
def clientLeavesFlush (n : Nat) : List Action := echoQueued ++ [.doSendJob 1] ++ steps 1 3 ++ clientLeaves n

/-- `FlushSend` takes a reference on a session that is being recycled. Its
`WSASend` fails, and the release returns the session again; if `SessionReset`
wipes the count in between, the release fails its assertion. -/
theorem flush_recycled :
    ¬ Meets (step .homework6) FlushSafe (start .homework6 2) (clientLeavesFlush 7 ++ [.run 1 true]) ∧
      (∃ v, run (step .homework6) (start .homework6 2)
          (clientLeavesFlush 7 ++ (steps 1 1 ++ [.run 1 false] ++ steps 1 1)) = some v ∧
        (v.session firstClient).issued = 1 ∧ (v.session firstClient).returned = 2) ∧
      ∃ v, run (step .homework6) (start .homework6 2)
          (clientLeavesFlush 6 ++ (steps 1 1 ++ steps 2 1 ++ [.run 1 false] ++ steps 1 1)) = some v ∧
        v.crashed = some .releaseRef := by
  refine ⟨fun hm => ?_, ?_, ?_⟩
  · have hmap : (run (step .homework6) (start .homework6 2) (clientLeavesFlush 7)).map
        (fun v => (v.addsRef .flushSend (.run 1 true), (v.session firstClient).mRefCount)) =
          some (some firstClient, 0) := by decide +kernel
    obtain ⟨v, hr, hv⟩ := Option.map_eq_some_iff.1 hmap
    obtain ⟨ha, hzero⟩ := Prod.mk.inj hv
    have hsafe : v.FlushSafe (.run 1 true) := (meets_append hm hr).2.1
    have hpos := (hsafe.addRef firstClient ha).1
    omega
  · have hmap : (run (step .homework6) (start .homework6 2)
        (clientLeavesFlush 7 ++ (steps 1 1 ++ [.run 1 false] ++ steps 1 1))).map
          (fun v => ((v.session firstClient).issued, (v.session firstClient).returned)) =
        some (1, 2) := by decide +kernel
    obtain ⟨v, hr, hv⟩ := Option.map_eq_some_iff.1 hmap
    exact ⟨v, hr, Prod.mk.inj hv⟩
  · have hmap : (run (step .homework6) (start .homework6 2)
        (clientLeavesFlush 6 ++ (steps 1 1 ++ steps 2 1 ++ [.run 1 false] ++ steps 1 1))).map
          (fun v => v.crashed) = some (some .releaseRef) := by decide +kernel
    exact Option.map_eq_some_iff.1 hmap

/-! ## Homework7 -/

/-- The feed of Homework7. -/
theorem feed_safe (n : Nat) (as : List Action)
    (hm : Meets (step .homework7) SparesPeeked (start .homework7 n) as) :
    Meets (step .homework7) FeedSafe (start .homework7 n) as ∧
      ∀ v, run (step .homework7) (start .homework7 n) as = some v →
        v.ReturnedOnce ∧ v.mFreeSessionList.Nodup := by
  constructor
  · apply meets_of_spares _ hm
    intro v a hv s ha
    exact (addsRef_referenced hv ha).2
  · intro v hr
    have hv := run_consistent hm hr
    exact ⟨returned_once hv, free_nodup hv.balanced⟩

/-- The client is accepted, and the feed is past its `IsConnected` test. -/
def feedTested : List Action := acceptOne ++ [.dequeue 2 0 (.done true [])] ++ steps 2 7 ++ steps 1 3

/-- The feed is sent before the client leaves. -/
def feedSent : List Action :=
  feedTested ++ steps 1 2 ++ [.dequeue 2 1 (.done true [])] ++ steps 2 7 ++
    [.dequeue 2 1 (.done true [])] ++ steps 2 4 ++ clientLeaves 11

theorem feed_safe_feedSent :
    (∃ v, run (step .homework7) (start .homework7 1) feedSent = some v ∧ (v.session firstClient).returned = 1) ∧
      Meets (step .homework7) FeedSafe (start .homework7 1) feedSent := by
  have hmap : (run (step .homework7) (start .homework7 1) feedSent).map
      (fun v => (v.session firstClient).returned) = some 1 := by decide +kernel
  exact ⟨Option.map_eq_some_iff.1 hmap, (feed_safe 1 feedSent (by decide +kernel)).1⟩

/-- The client leaves while the feed is past its test. -/
def clientLeavesFeed : List Action := feedTested ++ clientLeaves 11

/-- The feed posts its context, and thread 2 deletes it. -/
def feedDeleted : List Action := steps 1 2 ++ [.dequeue 2 0 (.done true [])] ++ steps 2 11

/-- The feed takes a reference on a free session, and when its context is
deleted the session is returned again: it is twice in the free list. -/
theorem feed_recycled :
    ¬ Meets (step .homework7) FeedSafe (start .homework7 1) (clientLeavesFeed ++ [.run 1 true]) ∧
      ∃ v, run (step .homework7) (start .homework7 1) (clientLeavesFeed ++ feedDeleted) = some v ∧
        (v.session firstClient).issued = 1 ∧ (v.session firstClient).returned = 2 ∧
        ¬ v.mFreeSessionList.Nodup := by
  constructor
  · intro hm
    have hmap : (run (step .homework7) (start .homework7 1) clientLeavesFeed).map
        (fun v => (v.addsRef .sendFeedOnce (.run 1 true), v.mFreeSessionList.head?)) =
          some (some firstClient, some firstClient) := by decide +kernel
    obtain ⟨v, hr, hv⟩ := Option.map_eq_some_iff.1 hmap
    obtain ⟨ha, hfree⟩ := Prod.mk.inj hv
    have hsafe : v.FeedSafe (.run 1 true) := (meets_append hm hr).2.1
    exact hsafe firstClient ha (List.mem_of_head? hfree)
  · have hmap : (run (step .homework7) (start .homework7 1) (clientLeavesFeed ++ feedDeleted)).map
        (fun v => ((v.session firstClient).issued, (v.session firstClient).returned,
          v.mFreeSessionList.take 2)) = some (1, 2, [firstClient, firstClient]) := by decide +kernel
    obtain ⟨v, hr, hv⟩ := Option.map_eq_some_iff.1 hmap
    simp only [Prod.mk.injEq] at hv
    obtain ⟨hissued, hreturned, htake⟩ := hv
    refine ⟨v, hr, hissued, hreturned, fun hnodup => ?_⟩
    have htwo : (v.mFreeSessionList.take 2).Nodup := hnodup.sublist (List.take_sublist 2 _)
    rw [htake] at htwo
    simp at htwo

end Server

end GameServer.Lifecycle
