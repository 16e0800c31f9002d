import GameServer.Lifecycle.Consistent
/-!
# The sessions of Homework4

In Homework4 only handlers of completions, `AcceptSessions` and
`DisconnectRequest` take references, so nobody peeks and the books are
consistent in every state that can be reached.
-/

namespace GameServer.Lifecycle

open Lib Books

/-- The calls that came with the aggregated sends and the database of Homework6
and with the feed of Homework7. -/
@[grind =] def Call.later : Call → Bool
  | .flushSend | .sendFeedOnce | .requestLoad => true
  | _ => false

@[grind =] def Instr.later : Instr → Bool
  | .isConnected c _ | .bufferTest c _ | .newContext c _ | .startIo c _ => c.later
  | .pushSendRequest _ | .feedGeneration | .feedLoop _ | .feedTest _ _ => true
  | .disconnectRequest _ | .enterLock _ | .leaveLock _ | .sendStarted _ | .sendCompletion _
  | .popSendRequest | .echoBack _ | .acceptCompletion _ | .socketSetup _ | .subscribeFeed _
  | .disconnectCompletion _ | .deleteContext _ | .returning _ _ | .leaveManagerLock | .startAccept
  | .acceptSession | .issueAddRef _ => false

namespace Server

variable {v v' : Server} {answer : Bool} {i : Instr} {next : List Instr}

/-- No thread has aggregated sends or the feed to do, and no database request is
posted. -/
structure Direct (v : Server) : Prop where
  list : ∀ th ∈ v.threads, th.LSendRequestSessionList = []
  todo : ∀ th ∈ v.threads, ∀ i ∈ th.todo, i.later = false
  posted : ∀ job ∈ v.posted, ∀ s, job ≠ .dbRequest s

theorem exec_later (hi : i.later = false) (he : v.exec .homework4 answer i = some (v', next)) :
    ∀ j ∈ next, j.later = false := by
  cases i with
  | isConnected c x =>
    cases he
    cases c <;> simp [Instr.later, Call.later] at hi <;> split <;>
      simp [Call.body, Call.notConnected, Call.onFalse, Call.enter, Call.locks, Instr.later, Call.later]
  | bufferTest c x =>
    cases he
    cases c <;> cases answer <;> simp [Instr.later, Call.later] at hi <;>
      simp [Call.granted, Call.refused, Call.leave, Call.locks, Instr.later, Call.later]
  | startIo c x =>
    simp only [exec] at he
    split at he
    · cases he
      cases c <;> simp [Call.started, Call.leave, Call.locks, Instr.later]
    · split at he <;> cases he
      · simp
      · cases c <;> simp [Call.afterFailure, Call.leave, Call.onFalse, Call.locks, Instr.later]
  | newContext c x | issueAddRef x =>
    simp only [exec, addRef, crash] at he
    split at he <;> cases he <;> simp_all [Instr.later, Call.later]
  | deleteContext x | disconnectCompletion x =>
    simp only [exec, releaseRef, crash] at he
    split at he
    · cases he; simp [Instr.later]
    · split at he <;> cases he <;> simp [Instr.later]
  | returning p x =>
    cases p <;> simp only [exec, returnClientSession, crash] at he <;> (try split at he) <;> cases he <;>
      simp [Instr.later]
  | acceptSession =>
    simp only [exec, acceptSession, crash] at he
    split at he
    · split at he <;> cases he <;> simp [Instr.later]
    · cases he; simp [Instr.later]
  | socketSetup x =>
    cases he
    split <;> simp [connectedClient, Instr.later, Call.later]
  | echoBack x =>
    cases he
    split <;> simp [Instr.later, Call.later]
  | disconnectRequest | enterLock | acceptCompletion | startAccept =>
    simp only [exec, crash] at he
    split at he <;> cases he <;> simp [Instr.later, Call.later]
  | sendStarted x =>
    cases he
    split <;> simp [Instr.later]
  | feedGeneration | feedLoop | feedTest | pushSendRequest => cases hi
  | _ => cases he; simp [Instr.later]

theorem handler_later (c : Completion) (job : Job) : ∀ j ∈ handler .homework4 c job, j.later = false := by
  cases job with
  | io ty x =>
    cases ty <;> rcases c with _ | _ | ⟨_ | _, calls⟩ <;>
      simp [handler, ioCompletion, sendCompletion, recvCompletion, Instr.later, Call.later]
  | db x | dbRequest x => simp [handler, dbCompletion, Instr.later]

theorem setThread_direct {t : Nat} {th : Thread} (hv : v.Direct) (hl : th.LSendRequestSessionList = [])
    (hth : ∀ i ∈ th.todo, i.later = false) : (v.setThread t th).Direct := by
  refine ⟨?_, ?_, hv.posted⟩
  · exact forall_set hv.list hl
  · exact forall_set hv.todo hth

theorem sendRequests_direct (hi : i.later = false) : i.sendRequests [] = [] := by
  cases i with
  | pushSendRequest x => cases hi
  | _ => rfl

theorem exec_direct (hv : v.Direct) (hi : i.later = false) (he : v.exec .homework4 answer i = some (v', next)) :
    v'.Direct := by
  have ht := exec_threads he
  refine ⟨ht ▸ hv.list, ht ▸ hv.todo, ?_⟩
  rcases exec_posted he with hp | ⟨c, s, rfl, hp⟩
  · rw [hp]; exact hv.posted
  · rw [hp, List.forall_mem_append]
    refine ⟨hv.posted, ?_⟩
    cases c <;> simp [Instr.later, Call.later] at hi <;> simp [Call.job]

theorem step_direct {a : Action} (hv : v.Direct) (hs : v.step .homework4 a = some v') : v'.Direct := by
  cases a with
  | run t answer =>
    obtain ⟨-, th, i, rest, w, next, ht, htodo, he, rfl⟩ := step_run hs
    have hmem := List.mem_of_getElem? ht
    have hth := hv.todo th hmem
    rw [htodo] at hth
    have hi : i.later = false := hth i List.mem_cons_self
    apply setThread_direct (exec_direct hv hi he)
    · rw [hv.list th hmem]
      exact sendRequests_direct hi
    · intro j hj
      rcases List.mem_append.1 hj with hj | hj
      · exact exec_later hi he j hj
      · exact hth j (List.mem_cons_of_mem i hj)
  | dequeue t i c =>
    obtain ⟨-, th, job, ht, -, -, -, hv'⟩ := step_dequeue hs
    have hp : ∀ j ∈ v.posted.eraseIdx i, ∀ s, j ≠ .dbRequest s := by
      intro j hj
      exact hv.posted j (List.mem_of_mem_eraseIdx hj)
    rcases hv' with ⟨-, rfl⟩ | ⟨-, rfl⟩
    · exact ⟨hv.list, hv.todo, hp⟩
    · exact setThread_direct ⟨hv.list, hv.todo, hp⟩ (hv.list th (List.mem_of_getElem? ht)) (handler_later c job)
  | doSendJob t =>
    obtain ⟨-, th, x, list, ht, -, hl, -⟩ := step_doSendJob hs
    rw [hv.list th (List.mem_of_getElem? ht)] at hl
    cases hl
  | doDatabaseJob i ok =>
    obtain ⟨-, x, hj, -⟩ := step_doDatabaseJob hs
    exact absurd rfl (hv.posted _ (List.mem_of_getElem? hj) x)
  | disconnectRequest t x =>
    obtain ⟨-, th, ht, -, rfl⟩ := step_disconnectRequest hs
    exact setThread_direct hv (hv.list th (List.mem_of_getElem? ht)) (by simp [Instr.later])

theorem start_direct (n : Nat) : (start .homework4 n).Direct := by
  refine ⟨fun th hth => ?_, fun th hth => ?_, by simp [start]⟩
  all_goals
    simp only [start, List.mem_cons, List.mem_append, List.mem_replicate] at hth
    rcases hth with rfl | hth | ⟨-, rfl⟩
    · simp [Instr.later]
    · simp at hth
    · simp

/-- Nobody peeks. -/
theorem running_peeking (hv : v.Direct) (s : SessionId) : v.running .peeking s = 0 := by
  apply tally_todos_eq_zero
  intro th hth i hi
  have hl : i.later = false := hv.todo th hth i hi
  cases i with
  | bufferTest c x | newContext c x =>
    cases c <;> simp [Instr.later, Call.later] at hl <;> simp [Instr.holds, Instr.marks, Call.peeks, Call.owed]
  | startIo c x => cases c <;> simp [Instr.holds, Instr.marks, Call.owed]
  | returning p x => cases p <;> simp [Instr.holds, Instr.marks, ReturnStep.wipes]
  | _ => simp [Instr.holds, Instr.marks]

theorem direct_spares (hv : v.Direct) (a : Action) : v.SparesPeeked a := by
  unfold SparesPeeked
  split
  · exact fun _ => running_peeking hv _
  · trivial

theorem step_direct_no_crash {a : Action} (hv : v.Consistent) (hd : v.Direct) (hs : v.step .homework4 a = some v') :
    v'.crashed = none := by
  rcases step_no_crash hv hs with h | ⟨i, rfl, -⟩
  · exact h
  · obtain ⟨-, x, hj, -⟩ := step_doDatabaseJob hs
    exact absurd rfl (hd.posted _ (List.mem_of_getElem? hj) x)

/-- What holds in every state, and of every step from it. -/
structure LifeCycle (v : Server) : Prop where
  /-- The reference of the issue, until `DisconnectCompletion` releases it, and
  one for each context. -/
  refCount : ∀ s, (v.session s).mRefCount = (v.session s).issueRef + v.liveContexts s
  issueRef_le : ∀ s, (v.session s).issueRef ≤ 1
  /-- `ReturnClientSession` is called exactly when the count drops to 0. -/
  returned : ∀ a v', v.step .homework4 a = some v' → ∀ s,
    (v'.session s).returned = (v.session s).returned + 1 ∧
        0 < (v.session s).mRefCount ∧ (v'.session s).mRefCount = 0 ∨
      (v'.session s).returned = (v.session s).returned ∧
        ¬ (0 < (v.session s).mRefCount ∧ (v'.session s).mRefCount = 0)
  /-- While it runs, nothing refers to the session. -/
  unreferenced : ∀ s, 0 < v.returning s → v.returning s = 1 ∧ v.liveContexts s = 0 ∧
    (v.session s).issueRef = 0 ∧ (v.session s).mConnected = false ∧ s ∉ v.mFreeSessionList
  /-- Never twice for one issue. -/
  once : ∀ s, (v.session s).returned ≤ (v.session s).issued ∧ (v.session s).issued ≤ (v.session s).returned + 1
  /-- No assertion fails, and no session is popped from the empty list. -/
  noCrash : v.crashed = none
  freeCount : (v.mCurrentIssueCount - v.mCurrentReturnCount).toNat ≤ MAX_CONNECTION ∧
    v.mFreeSessionList.length = MAX_CONNECTION - (v.mCurrentIssueCount - v.mCurrentReturnCount).toNat
  freeNodup : v.mFreeSessionList.Nodup
  freeNonempty : v.canIssue → v.mFreeSessionList ≠ []

theorem lifeCycle_of_consistent (hv : v.Consistent) (hd : v.Direct) (hc : v.crashed = none) : v.LifeCycle where
  refCount s := by
    have hcount := mRefCount_eq hv s
    rw [books_tokens] at hcount
    exact hcount
  issueRef_le s := (hv.balanced s).issue_le
  returned a v' hs s := by
    obtain ⟨hb, he⟩ := step_books hs (step_direct_no_crash hv hd hs) s
    have hr := (hv.balanced s).returned_after he
    rw [← hb] at hr
    exact hr
  unreferenced s hs := by
    rw [← books_returning] at hs ⊢
    obtain ⟨h₁, h₂, h₃, h₄, h₅, -⟩ := (hv.balanced s).of_returning hs
    exact ⟨h₁, books_tokens s ▸ h₂, h₃, not_connected h₄, List.count_eq_zero.1 h₅⟩
  once := returned_once hv
  noCrash := hc
  freeCount := by
    have hpool := hv.pool
    omega
  freeNodup := free_nodup hv.balanced
  freeNonempty hi hf := by
    have hpool := hv.pool
    have hlt := canIssue_iff.1 hi
    rw [hf, List.length_nil] at hpool
    omega

/-- The life cycle of the sessions of Homework4, with any number of IO threads
and over every interleaving. -/
theorem life_cycle (n : Nat) (as : List Action) (hr : run (step .homework4) (start .homework4 n) as = some v) :
    v.LifeCycle := by
  have hinv : v.Consistent ∧ v.Direct ∧ v.crashed = none := by
    refine inv_of_run (I := fun v => v.Consistent ∧ v.Direct ∧ v.crashed = none) ?_ ?_ hr
    · rintro v a v' ⟨hc, hd, h0⟩ hs
      exact ⟨step_consistent hc (direct_spares hd a) hs, step_direct hd hs, step_direct_no_crash hc hd hs⟩
    · exact ⟨start_consistent .homework4 n, start_direct n, rfl⟩
  exact lifeCycle_of_consistent hinv.1 hinv.2.1 hinv.2.2

/-- The client is accepted, its first `WSARecv` fails, and it is disconnected. -/
def acceptedAndLost : List Action :=
  acceptOne ++ [.dequeue 1 0 .failed] ++ steps 1 1 ++ [.run 1 false] ++ steps 1 4 ++
    [.dequeue 1 0 .failed] ++ steps 1 9

theorem life_cycle_acceptedAndLost : ∃ v, run (step .homework4) (start .homework4 1) acceptedAndLost = some v ∧
    (v.session firstClient).returned = 1 ∧ v.LifeCycle := by
  have hmap : (run (step .homework4) (start .homework4 1) acceptedAndLost).map
      (fun v => (v.session firstClient).returned) = some 1 := by decide +kernel
  obtain ⟨v, hr, hret⟩ := Option.map_eq_some_iff.1 hmap
  exact ⟨v, hr, hret, life_cycle 1 acceptedAndLost hr⟩

end Server

end GameServer.Lifecycle
