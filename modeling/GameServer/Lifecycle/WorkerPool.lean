import GameServer.Lifecycle.PendingSends
/-!
# The worker pool of Homework6

An IO worker in `DoSendJob` retries `FlushSend` until the pending send of the
front session has completed, and dequeues no completion meanwhile. If every
worker does, nobody dequeues the completion that they wait for
(`locked_up`). It takes a `PostSend` of a session with a pending send by the
last worker that is not blocked (`not_locked_up`).
-/

namespace GameServer.Lifecycle

open Lib

/-- A step of `FlushSend`, unless it is about to return. -/
@[grind =] def Instr.flushes : Instr → Bool
  | .isConnected c _ | .bufferTest c _ | .newContext c _ | .startIo c _ => c = .flushSend
  | .sendStarted _ => true
  | .disconnectRequest _ | .enterLock _ | .leaveLock _ | .sendCompletion _ | .pushSendRequest _
  | .popSendRequest | .echoBack _ | .acceptCompletion _ | .socketSetup _ | .subscribeFeed _
  | .disconnectCompletion _ | .deleteContext _ | .returning _ _ | .leaveManagerLock | .startAccept
  | .acceptSession | .issueAddRef _ | .feedGeneration | .feedLoop _ | .feedTest _ _ => false

/-- `FlushSend` found no pending send, and is to send and to count its own. -/
def Instr.sendsNext (s : SessionId) : Instr → Bool
  | .newContext .flushSend x | .startIo .flushSend x | .sendStarted x => x = s
  | _ => false

/-- A step towards a `push_back` to `LSendRequestSessionList`. -/
@[grind =] def Instr.queues : Instr → Bool
  | .isConnected c _ | .bufferTest c _ => c = .postSend
  | .echoBack _ | .pushSendRequest _ => true
  | .newContext _ _ | .startIo _ _ | .sendStarted _ | .disconnectRequest _ | .enterLock _ | .leaveLock _
  | .sendCompletion _ | .popSendRequest | .acceptCompletion _ | .socketSetup _ | .subscribeFeed _
  | .disconnectCompletion _ | .deleteContext _ | .returning _ _ | .leaveManagerLock | .startAccept
  | .acceptSession | .issueAddRef _ | .feedGeneration | .feedLoop _ | .feedTest _ _ => false

def Instr.pushes : Instr → Bool
  | .pushSendRequest _ => true
  | _ => false

/-- The thread is between two calls of `FlushSend` on `s`, or in one that has
not found a reason to return true. -/
def Thread.retries (th : Thread) (s : SessionId) : Prop :=
  th.todo ∈ [[], [.isConnected .flushSend s], [.enterLock s, .bufferTest .flushSend s], [.bufferTest .flushSend s],
    [.leaveLock s]]

namespace Server

variable {v v' w : Server} {answer : Bool} {i : Instr} {next rest : List Instr} {t : Nat} {th : Thread}

/-- The thread is in `DoSendJob`, and a send of the front session is pending. A session
that is not connected counts too, though `FlushSend` is done with it at once. -/
def Waits (v : Server) (th : Thread) : Prop :=
  ∃ s, th.LSendRequestSessionList.head? = some s ∧ 0 < (v.session s).mSendPendingCount ∧ th.retries s

/-- Every IO worker waits for a completion that only an IO worker can dequeue. -/
def LockedUp (v : Server) : Prop := ∀ th ∈ v.threads, th.type = .ioWorker → v.Waits th

/-- A send of the front session is pending, and `FlushSend` is not about to
return true. -/
def Blocked (v : Server) (th : Thread) : Prop :=
  (∃ s ∈ th.LSendRequestSessionList.head?, 0 < (v.session s).mSendPendingCount) ∧ .popSendRequest ∉ th.todo

instance (v : Server) (th : Thread) : Decidable (v.Blocked th) := by unfold Blocked; infer_instance

/-- `PostSend` queues no session with a pending send, unless another IO worker
is not blocked. -/
def SparesWorker (v : Server) : Action → Prop
  | .run t _ =>
    match v.next t with
    | some (.pushSendRequest s) => 0 < (v.session s).mSendPendingCount →
      ∃ u ∈ List.range v.threads.length, u ≠ t ∧ ∃ th ∈ v.threads[u]?, th.type = .ioWorker ∧ ¬ v.Blocked th
    | _ => True
  | _ => True

/-! ## Where a step leads -/

/-- None of them is a step of `FlushSend` or towards a `push_back`. -/
def Quiet (is : List Instr) : Prop := ∀ i ∈ is, i.flushes = false ∧ i.queues = false

@[simp] theorem quiet_nil : Quiet [] := by simp [Quiet]

@[simp] theorem quiet_cons {is : List Instr} : Quiet (i :: is) ↔ (i.flushes = false ∧ i.queues = false) ∧ Quiet is := by
  simp [Quiet]

theorem sendsNext_of_flushes {s : SessionId} (hi : i.flushes = false) : i.sendsNext s = false := by
  cases i with
  | newContext c x | startIo c x => cases c <;> simp [Instr.flushes] at hi <;> rfl
  | sendStarted => cases hi
  | _ => rfl

theorem quiet_call {c : Call} (hf : c ≠ .flushSend) (hp : c ≠ .postSend) (x : SessionId) :
    Quiet (c.body .homework6 x) ∧ Quiet (c.notConnected .homework6 x) ∧ Quiet (c.granted .homework6 x) ∧
      Quiet (c.refused .homework6 x) := by
  cases c <;> simp at hf hp <;>
    simp [Call.body, Call.notConnected, Call.onFalse, Call.granted, Call.refused, Call.enter, Call.leave,
      Call.locks, Instr.flushes, Instr.queues]

theorem quiet_started {c : Call} (hf : c ≠ .flushSend) (x : SessionId) : Quiet (c.started .homework6 x) := by
  cases c <;> simp at hf <;> simp [Call.started, Call.leave, Call.locks, Instr.flushes, Instr.queues]

theorem quiet_afterFailure (c : Call) (x : SessionId) : Quiet (c.afterFailure .homework6 x) := by
  cases c <;> simp [Call.afterFailure, Call.onFalse, Call.leave, Call.locks, Instr.flushes, Instr.queues]

theorem exec_quiet (hi : i.flushes = false ∧ i.queues = false) (he : v.exec .homework6 answer i = some (v', next)) :
    Quiet next := by
  cases i with
  | isConnected c x =>
    have hf : c ≠ .flushSend := by simpa [Instr.flushes] using hi.1
    have hp : c ≠ .postSend := by simpa [Instr.queues] using hi.2
    cases he
    split
    · exact (quiet_call hf hp x).1
    · exact (quiet_call hf hp x).2.1
  | bufferTest c x =>
    have hf : c ≠ .flushSend := by simpa [Instr.flushes] using hi.1
    have hp : c ≠ .postSend := by simpa [Instr.queues] using hi.2
    cases he
    rw [if_neg hf]
    split
    · exact (quiet_call hf hp x).2.2.1
    · exact (quiet_call hf hp x).2.2.2
  | newContext c x =>
    have hf : c ≠ .flushSend := by simpa [Instr.flushes] using hi.1
    simp only [exec, addRef, crash] at he
    split at he <;> cases he <;> simp [Instr.flushes, Instr.queues, hf]
  | startIo c x =>
    have hf : c ≠ .flushSend := by simpa [Instr.flushes] using hi.1
    simp only [exec] at he
    split at he
    · cases he; exact quiet_started hf x
    · split at he <;> cases he
      · exact quiet_nil
      · rw [quiet_cons]
        exact ⟨⟨rfl, rfl⟩, quiet_afterFailure c x⟩
  | issueAddRef x =>
    simp only [exec, addRef, crash] at he
    split at he <;> cases he <;> simp [Instr.flushes, Instr.queues]
  | deleteContext x | disconnectCompletion x =>
    simp only [exec, releaseRef, crash] at he
    split at he
    · cases he; simp [Instr.flushes, Instr.queues]
    · split at he <;> cases he <;> simp [Instr.flushes, Instr.queues]
  | returning p x =>
    cases p <;> simp only [exec, returnClientSession, crash] at he <;> (try split at he) <;> cases he <;>
      simp [Instr.flushes, Instr.queues]
  | acceptSession =>
    simp only [exec, acceptSession, crash] at he
    split at he
    · split at he <;> cases he <;> simp [Instr.flushes, Instr.queues]
    · cases he; simp [Instr.flushes, Instr.queues]
  | feedLoop n =>
    cases n <;> cases he
    · simp
    · split <;> simp [Instr.flushes, Instr.queues]
  | disconnectRequest | enterLock | acceptCompletion | startAccept | feedTest =>
    simp only [exec, crash] at he
    split at he <;> cases he <;> simp [Instr.flushes, Instr.queues]
  | socketSetup x =>
    cases he
    split <;> simp [connectedClient, Instr.flushes, Instr.queues]
  | sendStarted => cases hi.1
  | echoBack | pushSendRequest => cases hi.2
  | _ => cases he; simp [Instr.flushes, Instr.queues]

/-- What a step of `FlushSend` leads to. The session has no pending send when
`FlushSend` decides to send. -/
theorem exec_flushSend (hi : i.flushes) (he : v.exec .homework6 answer i = some (v', next)) :
    next.countP Instr.queues = 0 ∧
      ((∀ j ∈ next, ∀ s, j.sendsNext s = false) ∨
        (∀ s, i.sendStartedOf s = false) ∧ ∃ j s, next = [j] ∧ (∀ x, j.sendsNext x → x = s) ∧
          (i.sendsNext s ∨ (v.session s).mSendPendingCount ≤ 0)) := by
  cases i with
  | isConnected c x =>
    have hc : c = .flushSend := by simpa [Instr.flushes] using hi
    subst hc
    cases he
    split <;> simp [Call.body, Call.notConnected, Instr.queues, Instr.sendsNext]
  | bufferTest c x =>
    have hc : c = .flushSend := by simpa [Instr.flushes] using hi
    subst hc
    cases he
    rw [if_pos rfl]
    unfold flushTest
    split
    · split
      · simp [Instr.queues, Instr.sendsNext]
      next hp =>
        refine ⟨rfl, .inr ⟨fun _ => rfl, _, x, rfl, fun y hy => ?_, .inr (by omega)⟩⟩
        exact (of_decide_eq_true hy).symm
    · split <;> simp [Instr.queues, Instr.sendsNext]
  | newContext c x =>
    have hc : c = .flushSend := by simpa [Instr.flushes] using hi
    subst hc
    simp only [exec, addRef, crash] at he
    split at he <;> cases he <;>
      exact ⟨rfl, .inr ⟨fun _ => rfl, _, x, rfl, fun y hy => (of_decide_eq_true hy).symm, .inl (decide_eq_true rfl)⟩⟩
  | startIo c x =>
    have hc : c = .flushSend := by simpa [Instr.flushes] using hi
    subst hc
    simp only [exec] at he
    split at he
    · cases he
      exact ⟨rfl, .inr ⟨fun _ => rfl, _, x, rfl, fun y hy => (of_decide_eq_true hy).symm, .inl (decide_eq_true rfl)⟩⟩
    · split at he <;> cases he
      · simp
      · simp [Call.afterFailure, Instr.queues, Instr.sendsNext]
  | sendStarted x =>
    cases he
    split <;> simp [Instr.queues, Instr.sendsNext]
  | _ => cases hi

/-- One `push_back` at most comes of a step towards one. -/
theorem exec_queues (hi : i.queues) (he : v.exec .homework6 answer i = some (v', next)) :
    (∀ j ∈ next, j.flushes = false) ∧ next.countP Instr.queues + i.pushes.toNat ≤ 1 := by
  cases i with
  | isConnected c x =>
    have hc : c = .postSend := by simpa [Instr.queues] using hi
    subst hc
    cases he
    split <;> simp [Call.body, Call.notConnected, Call.onFalse, Instr.queues, Instr.flushes, Instr.pushes]
  | bufferTest c x =>
    have hc : c = .postSend := by simpa [Instr.queues] using hi
    subst hc
    cases he
    cases answer <;>
      simp [Call.granted, Call.refused, Call.leave, Call.locks, List.countP_cons, Instr.queues, Instr.flushes,
        Instr.pushes]
  | echoBack x =>
    cases he
    split <;> simp [Instr.queues, Instr.flushes, Instr.pushes]
  | pushSendRequest x => cases he; simp [Instr.pushes]
  | _ => cases hi

theorem handler_quiet (c : Completion) (job : Job) : (∀ j ∈ handler .homework6 c job, j.flushes = false) ∧
    (handler .homework6 c job).countP Instr.queues ≤ 1 := by
  cases job with
  | io ty s =>
    cases ty <;> rcases c with _ | _ | ⟨_ | _, calls⟩ <;>
      simp [handler, ioCompletion, sendCompletion, recvCompletion, List.countP_cons, Instr.flushes, Instr.queues]
  | db s | dbRequest s => simp [handler, dbCompletion, Instr.flushes, Instr.queues]

/-! ## What each thread keeps -/

structure Working (v : Server) (th : Thread) : Prop where
  /-- While `FlushSend` sends, no other send of the session is pending. -/
  sendsNext : ∀ i s, th.todo.head? = some i → i.sendsNext s → (v.session s).mSendPendingCount ≤ 0
  first : ∀ i ∈ th.todo.tail, ∀ s, i.sendsNext s = false
  worker : ∀ i ∈ th.todo, i.flushes → th.type = .ioWorker
  /-- A handler queues at most one session, and only when none is queued. -/
  list : th.LSendRequestSessionList.length + th.todo.countP Instr.queues ≤ 1

structure Workers (v : Server) : Prop where
  flushed : v.Flushed
  working : ∀ th ∈ v.threads, v.Working th

theorem Working.frame (hx : v.Working th) (hp : ∀ i s, th.todo.head? = some i → i.sendsNext s →
    (v'.session s).mSendPendingCount ≤ (v.session s).mSendPendingCount) : v'.Working th :=
  ⟨fun i s hi hs => Int.le_trans (hp i s hi hs) (hx.sendsNext i s hi hs), hx.first, hx.worker, hx.list⟩

/-- A thread that starts on something else than `FlushSend`. -/
theorem working_of_quiet {ty : ThreadType} {todo : List Instr} {list : List SessionId}
    (hf : ∀ i ∈ todo, i.flushes = false) (hl : list.length + todo.countP Instr.queues ≤ 1) : v.Working ⟨ty, todo, list⟩ where
  sendsNext i s hi hs := by
    rw [sendsNext_of_flushes (hf i (List.mem_of_head? hi))] at hs
    cases hs
  first i hi s := sendsNext_of_flushes (hf i (List.mem_of_mem_tail hi))
  worker i hi hs := by
    rw [hf i hi] at hs
    cases hs
  list := hl

theorem mem_setThread {x : Thread} (hw : w.threads = v.threads) (hx : x ∈ (w.setThread t th).threads) :
    x = th ∨ ∃ u, u ≠ t ∧ v.threads[u]? = some x := by
  obtain ⟨u, hu⟩ := List.getElem?_of_mem hx
  rw [setThread, hw, List.getElem?_set] at hu
  split at hu
  · split at hu
    · cases hu; exact .inl rfl
    · cases hu
  next hne => exact .inr ⟨u, fun e => hne e.symm, hu⟩

/-- The thread that sends next holds the buffer lock. -/
theorem held_of_sendsNext {s : SessionId} {l : List Lock} (htodo : th.todo.head? = some i) (hs : i.sendsNext s)
    (hl : held .homework6 th.todo = some l) : .buffer s ∈ l := by
  obtain ⟨rest, htodo⟩ := List.head?_eq_some_iff.1 htodo
  rw [htodo, held, heldBefore_cons] at hl
  obtain ⟨l', -, hl⟩ := Option.bind_eq_some_iff.1 hl
  cases i with
  | newContext c x | startIo c x =>
    cases c <;> simp [Instr.sendsNext] at hs
    subst hs
    cases hl
    simp [Call.locks]
  | sendStarted x =>
    simp [Instr.sendsNext] at hs
    subst hs
    cases hl
    simp
  | _ => cases hs

/-- Two threads do not both send on one session. -/
theorem sender_unique {u : Nat} {x : Thread} {j : Instr} {s : SessionId} (hv : v.Flushed) (ht : v.threads[t]? = some th)
    (hu : v.threads[u]? = some x) (hth : th.todo.head? = some i) (hx : x.todo.head? = some j) (hi : i.sendsNext s)
    (hj : j.sendsNext s) : u = t := by
  obtain ⟨l, hl⟩ := Option.isSome_iff_exists.1 (hv.locked.held th (List.mem_of_getElem? ht))
  obtain ⟨l', hl'⟩ := Option.isSome_iff_exists.1 (hv.locked.held x (List.mem_of_getElem? hu))
  exact holder_unique hv.locked hu ht hl' hl (held_of_sendsNext hx hj hl') (held_of_sendsNext hth hi hl)

/-- The counter goes up only as `FlushSend` counts a send. -/
theorem pending_le {s : SessionId} (he : v.exec .homework6 answer i = some (v', next)) (hi : i ≠ .sendStarted s) :
    (v'.session s).mSendPendingCount ≤ (v.session s).mSendPendingCount := by
  have hcount := exec_mSendPendingCount he s
  have hno : i.sendStartedOf s = false := by
    cases i <;> simp [Instr.sendStartedOf] at hi ⊢
    exact hi
  rw [hno, Bool.toNat_false] at hcount
  omega

theorem length_sendRequests (i : Instr) (list : List SessionId) :
    (i.sendRequests list).length ≤ list.length + i.pushes.toNat := by
  cases i with
  | pushSendRequest x =>
    show (list ++ [x]).length ≤ list.length + 1
    rw [List.length_append, List.length_singleton]
  | popSendRequest =>
    show list.tail.length ≤ list.length
    rw [List.length_tail]
    omega
  | _ => exact Nat.le_refl _

/-- The thread that takes a step. -/
theorem exec_working (hth : v.Working th) (htodo : th.todo = i :: rest)
    (he : v.exec .homework6 answer i = some (w, next)) :
    w.Working ⟨th.type, next ++ rest, i.sendRequests th.LSendRequestSessionList⟩ := by
  obtain ⟨hsends, hfirst, hworker, hlist⟩ := hth
  rw [htodo] at hsends hfirst hworker hlist
  have hlen := length_sendRequests i th.LSendRequestSessionList
  have hrest : ∀ j ∈ rest, ∀ s, j.sendsNext s = false := hfirst
  have hmem {j : Instr} (hj : j ∈ rest) : j ∈ i :: rest := List.mem_cons_of_mem i hj
  have hnone (hn : ∀ j ∈ next, ∀ s, j.sendsNext s = false) : ∀ j ∈ next ++ rest, ∀ s, j.sendsNext s = false := by
    intro j hj
    rcases List.mem_append.1 hj with hj | hj
    · exact hn j hj
    · exact hrest j hj
  rw [List.countP_cons] at hlist
  by_cases hf : i.flushes
  · have hq : i.queues = false := by
      cases i with
      | isConnected c x | bufferTest c x =>
        have hc : c = .flushSend := by simpa [Instr.flushes] using hf
        subst hc
        rfl
      | newContext | startIo | sendStarted => rfl
      | _ => cases hf
    have hno : i.pushes = false := by
      cases i with
      | pushSendRequest => cases hf
      | _ => rfl
    rw [hno, Bool.toNat_false] at hlen
    obtain ⟨hqueues, hn⟩ := exec_flushSend hf he
    have hl : (i.sendRequests th.LSendRequestSessionList).length + (next ++ rest).countP Instr.queues ≤ 1 := by
      rw [List.countP_append, hqueues]
      omega
    rcases hn with hn | ⟨hi, j, s, rfl, hj, hs⟩
    · refine ⟨fun j s hj hs => ?_, fun j hj s => hnone hn j (List.mem_of_mem_tail hj) s, fun _ _ _ => ?_, hl⟩
      · rw [hnone hn j (List.mem_of_head? hj) s] at hs
        cases hs
      · exact hworker i List.mem_cons_self hf
    · refine ⟨fun k x hk hx => ?_, hrest, fun _ _ _ => hworker i List.mem_cons_self hf, hl⟩
      cases hk
      have hxs := hj x hx
      subst hxs
      have hle : (w.session x).mSendPendingCount ≤ (v.session x).mSendPendingCount :=
        pending_le he fun e => Bool.false_ne_true ((hi x).symm.trans (e ▸ decide_eq_true rfl))
      rcases hs with hs | hs
      · exact Int.le_trans hle (hsends i x rfl hs)
      · exact Int.le_trans hle hs
  · have hn : (∀ j ∈ next, j.flushes = false) ∧
        next.countP Instr.queues + i.pushes.toNat ≤ if i.queues then 1 else 0 := by
      by_cases hq : i.queues
      · rw [if_pos hq]
        exact exec_queues hq he
      · have hquiet := exec_quiet ⟨by simpa using hf, by simpa using hq⟩ he
        have hno : i.pushes = false := by
          cases i with
          | pushSendRequest => exact absurd rfl hq
          | _ => rfl
        rw [hno, if_neg hq, List.countP_eq_zero.2 fun j hj => by simp [(hquiet j hj).2]]
        exact ⟨fun j hj => (hquiet j hj).1, Nat.le_refl _⟩
    obtain ⟨hflush, hle⟩ := hn
    have hsn := hnone fun j hj s => sendsNext_of_flushes (hflush j hj)
    refine ⟨fun j s hj hs => ?_, fun j hj s => hsn j (List.mem_of_mem_tail hj) s, fun j hj hs => ?_, ?_⟩
    · rw [hsn j (List.mem_of_head? hj) s] at hs
      cases hs
    · rcases List.mem_append.1 hj with hj | hj
      · rw [hflush j hj] at hs
        cases hs
      · exact hworker j (hmem hj) hs
    · rw [List.countP_append]
      simp only at *
      omega

/-- A worker that dequeues a completion has no session queued. -/
theorem list_of_dequeue {h : Homework} {n : Nat} {c : Completion} (hs : v.step h (.dequeue t n c) = some v')
    (ht : v.threads[t]? = some th) : th.LSendRequestSessionList = [] := by
  unfold step at hs
  split at hs
  · cases hs
  · simp only [ht, Option.bind_some, dequeue] at hs
    split at hs
    next hi => exact hi.2
    · cases hs

theorem worker_of_doSendJob {h : Homework} (hs : v.step h (.doSendJob t) = some v') (ht : v.threads[t]? = some th) :
    th.type = .ioWorker := by
  unfold step at hs
  split at hs
  · cases hs
  · simp only [ht, Option.bind_some, doSendJob] at hs
    split at hs
    · split at hs
      next hi =>
        simp only [Thread.idle, decide_eq_true_eq] at hi
        exact hi.1
      · cases hs
    · cases hs

theorem setThread_working (hv : ∀ x ∈ v.threads, v.Working x) (hw : w.threads = v.threads)
    (hp : ∀ u x, u ≠ t → v.threads[u]? = some x → ∀ i s, x.todo.head? = some i → i.sendsNext s →
      (w.session s).mSendPendingCount ≤ (v.session s).mSendPendingCount)
    (hth : w.Working th) : ∀ x ∈ (w.setThread t th).threads, (w.setThread t th).Working x := by
  intro x hx
  rcases mem_setThread hw hx with rfl | ⟨u, hne, hu⟩
  · exact ⟨hth.sendsNext, hth.first, hth.worker, hth.list⟩
  · exact (hv x (List.mem_of_getElem? hu)).frame (hp u x hne hu)

theorem step_workers {a : Action} (hv : v.Workers) (hs : v.step .homework6 a = some v') : v'.Workers := by
  refine ⟨step_flushed hv.flushed hs, ?_⟩
  cases a with
  | run t answer =>
    obtain ⟨-, th, i, rest, w, next, ht, htodo, he, rfl⟩ := step_run hs
    refine setThread_working hv.working (exec_threads he) (fun u x hne hu j s hj hsends => ?_)
      (exec_working (hv.working th (List.mem_of_getElem? ht)) htodo he)
    apply pending_le he
    rintro rfl
    have hhead : th.todo.head? = some (.sendStarted s) := by rw [htodo]; rfl
    exact hne (sender_unique hv.flushed ht hu hhead hj (decide_eq_true rfl) hsends)
  | dequeue t n c =>
    obtain ⟨-, th, job, ht, htodo, -, -, ⟨-, rfl⟩ | ⟨-, rfl⟩⟩ := step_dequeue hs
    · exact fun th hth => (hv.working th hth).frame fun _ _ _ _ => Int.le_refl _
    · have hlist := list_of_dequeue hs ht
      obtain ⟨hf, hq⟩ := handler_quiet c job
      refine setThread_working (w := { v with posted := v.posted.eraseIdx n }) hv.working rfl
        (fun _ _ _ _ _ _ _ _ => Int.le_refl _) (working_of_quiet hf ?_)
      rw [hlist, List.length_nil, Nat.zero_add]
      exact hq
  | doSendJob t =>
    obtain ⟨-, th, x, list, ht, htodo, hl, rfl⟩ := step_doSendJob hs
    obtain ⟨-, -, -, hlist⟩ := hv.working th (List.mem_of_getElem? ht)
    have hworker := worker_of_doSendJob hs ht
    refine setThread_working hv.working rfl (fun _ _ _ _ _ _ _ _ => Int.le_refl _)
      ⟨?_, by simp, fun _ _ _ => hworker, ?_⟩
    · intro i s hi hsends
      cases hi
      cases hsends
    · simpa [htodo, Instr.queues] using hlist
  | doDatabaseJob n ok =>
    obtain ⟨-, x, -, rfl⟩ := step_doDatabaseJob hs
    cases ok <;> exact fun th hth => (hv.working th hth).frame fun _ _ _ _ => Int.le_refl _
  | disconnectRequest t x =>
    obtain ⟨-, th, ht, htodo, rfl⟩ := step_disconnectRequest hs
    obtain ⟨-, -, -, hlist⟩ := hv.working th (List.mem_of_getElem? ht)
    refine setThread_working hv.working rfl (fun _ _ _ _ _ _ _ _ => Int.le_refl _) (working_of_quiet ?_ ?_)
    · simp [Instr.flushes]
    · simpa [htodo, Instr.queues] using hlist

theorem start_workers (n : Nat) : (start .homework6 n).Workers := by
  refine ⟨start_flushed n, fun th hth => working_of_quiet ?_ ?_⟩
  · rcases start_todo hth with h0 | h0 | h0 <;> rw [h0] <;> simp [Instr.flushes]
  · have hlist : th.LSendRequestSessionList = [] := by
      simp only [start, List.mem_cons, List.mem_append, List.mem_replicate] at hth
      rcases hth with rfl | hth | ⟨-, rfl⟩
      · rfl
      · simp at hth
      · rfl
    rw [hlist]
    rcases start_todo hth with h0 | h0 | h0 <;> rw [h0] <;> simp [Instr.queues]

/-! ## Some worker goes on -/

/-- Some IO worker is not blocked. -/
def SomeFree (v : Server) : Prop := ∃ th ∈ v.threads, th.type = .ioWorker ∧ ¬ v.Blocked th

theorem not_blocked_of_nil (hl : th.LSendRequestSessionList = []) : ¬ v.Blocked th := by
  rintro ⟨⟨s, hs, -⟩, -⟩
  rw [hl] at hs
  cases hs

theorem Blocked.mono {x : Thread} (hb : w.Blocked x) (hl : x.LSendRequestSessionList = th.LSendRequestSessionList)
    (hp : ∀ s, (w.session s).mSendPendingCount ≤ (v.session s).mSendPendingCount)
    (hpop : .popSendRequest ∈ th.todo → .popSendRequest ∈ x.todo) : v.Blocked th := by
  obtain ⟨⟨s, hs, hpos⟩, hno⟩ := hb
  exact ⟨⟨s, hl ▸ hs, Int.lt_of_lt_of_le hpos (hp s)⟩, fun hmem => hno (hpop hmem)⟩

theorem mem_setThread_self (ht : v.threads[t]? = some th) (hw : w.threads = v.threads) (x : Thread) :
    x ∈ (w.setThread t x).threads := by
  obtain ⟨hlt, -⟩ := List.getElem?_eq_some_iff.1 ht
  rw [setThread, hw]
  exact List.mem_set hlt x

theorem mem_setThread_of_ne {u : Nat} {x : Thread} (hu : v.threads[u]? = some x) (hne : u ≠ t)
    (hw : w.threads = v.threads) (y : Thread) : x ∈ (w.setThread t y).threads := by
  apply List.mem_of_getElem? (i := u)
  rw [setThread, hw, List.getElem?_set_ne (fun e => hne e.symm), hu]

/-- Thread `t` goes on to `x` without getting blocked, and the counters do not
go up. -/
theorem someFree_setThread {x : Thread} (hf : v.SomeFree) (ht : v.threads[t]? = some th) (hw : w.threads = v.threads)
    (hp : ∀ s, (w.session s).mSendPendingCount ≤ (v.session s).mSendPendingCount)
    (hty : x.type = th.type) (hb : ¬ v.Blocked th → ¬ w.Blocked x) : (w.setThread t x).SomeFree := by
  obtain ⟨y, hy, hworker, hfree⟩ := hf
  obtain ⟨u, hu⟩ := List.getElem?_of_mem hy
  by_cases hut : u = t
  · subst hut
    rw [ht] at hu
    cases hu
    exact ⟨x, mem_setThread_self ht hw x, hty ▸ hworker, hb hfree⟩
  · exact ⟨y, mem_setThread_of_ne hu hut hw x, hworker, fun h' => hfree (Blocked.mono h' rfl hp id)⟩

/-- `FlushSend` returns true when it has counted the only pending send. -/
theorem pop_of_sendStarted {s : SessionId} (hv : v.Workers) (ht : v.threads[t]? = some th)
    (htodo : th.todo = .sendStarted s :: rest) (he : v.exec .homework6 answer (.sendStarted s) = some (w, next)) :
    .popSendRequest ∈ next := by
  have hle := (hv.working th (List.mem_of_getElem? ht)).sendsNext (.sendStarted s) s (by rw [htodo]; rfl)
    (decide_eq_true rfl)
  have hpos := hv.flushed.pending s
  cases he
  rw [if_pos (by omega)]
  simp

theorem step_someFree {a : Action} (hv : v.Workers) (hf : v.SomeFree) (hp : v.SparesWorker a)
    (hs : v.step .homework6 a = some v') : v'.SomeFree := by
  cases a with
  | run t answer =>
    obtain ⟨-, th, i, rest, w, next, ht, htodo, he, rfl⟩ := step_run hs
    have hnext : v.next t = some i := by simp [Server.next, ht, htodo]
    have hw := exec_threads he
    obtain ⟨-, -, hworker, hlist⟩ := hv.working th (List.mem_of_getElem? ht)
    rw [htodo, List.countP_cons] at hlist
    by_cases hstart : ∃ s, i = .sendStarted s
    · obtain ⟨s, rfl⟩ := hstart
      have hpop := pop_of_sendStarted hv ht htodo he
      refine ⟨_, mem_setThread_self ht hw _, ?_, fun hb => hb.2 (List.mem_append_left rest hpop)⟩
      exact hworker _ (htodo ▸ List.mem_cons_self) rfl
    have hle (s : SessionId) := pending_le he (s := s) fun e => hstart ⟨s, e⟩
    by_cases hpush : ∃ s, i = .pushSendRequest s
    · obtain ⟨s, rfl⟩ := hpush
      have hnil : th.LSendRequestSessionList = [] := by
        simp only [Instr.queues, if_true] at hlist
        exact List.length_eq_zero_iff.1 (by omega)
      by_cases hpos : 0 < (v.session s).mSendPendingCount
      · simp only [SparesWorker, hnext] at hp
        obtain ⟨u, -, hne, x, hu, hx, hfree⟩ := hp hpos
        exact ⟨x, mem_setThread_of_ne hu hne hw _, hx, fun hb => hfree (Blocked.mono hb rfl hle id)⟩
      · refine someFree_setThread hf ht hw hle rfl fun _ => ?_
        rintro ⟨⟨x, hx, hgt⟩, -⟩
        rw [hnil] at hx
        cases hx
        have hx := hle s
        omega
    · refine someFree_setThread hf ht hw hle rfl fun hfree => ?_
      by_cases hpop : i = .popSendRequest
      · subst hpop
        apply not_blocked_of_nil
        apply List.length_eq_zero_iff.1
        show th.LSendRequestSessionList.tail.length = 0
        rw [List.length_tail]
        omega
      · refine fun hb => hfree (Blocked.mono hb ?_ hle fun hmem => ?_)
        · cases i <;> first | rfl | exact absurd rfl hpop | exact absurd ⟨_, rfl⟩ hpush
        · rw [htodo] at hmem
          rcases List.mem_cons.1 hmem with hmem | hmem
          · exact absurd hmem.symm hpop
          · exact List.mem_append_right next hmem
  | dequeue t n c =>
    obtain ⟨-, th, job, ht, htodo, -, -, ⟨-, rfl⟩ | ⟨-, rfl⟩⟩ := step_dequeue hs
    · obtain ⟨y, hy, hworker, hfree⟩ := hf
      exact ⟨y, hy, hworker, fun hb => hfree (Blocked.mono hb rfl (fun _ => Int.le_refl _) id)⟩
    · have hlist := list_of_dequeue hs ht
      exact someFree_setThread (w := { v with posted := v.posted.eraseIdx n }) hf ht rfl (fun _ => Int.le_refl _) rfl
        fun _ => not_blocked_of_nil hlist
  | doSendJob t =>
    obtain ⟨-, th, x, list, ht, htodo, hl, rfl⟩ := step_doSendJob hs
    refine someFree_setThread hf ht rfl (fun _ => Int.le_refl _) rfl fun hfree hb => hfree ?_
    exact Blocked.mono hb rfl (fun _ => Int.le_refl _) fun hmem => by rw [htodo] at hmem; cases hmem
  | doDatabaseJob n ok =>
    obtain ⟨-, x, -, rfl⟩ := step_doDatabaseJob hs
    obtain ⟨y, hy, hworker, hfree⟩ := hf
    cases ok <;> exact ⟨y, hy, hworker, fun hb => hfree (Blocked.mono hb rfl (fun _ => Int.le_refl _) id)⟩
  | disconnectRequest t x =>
    obtain ⟨-, th, ht, htodo, rfl⟩ := step_disconnectRequest hs
    refine someFree_setThread hf ht rfl (fun _ => Int.le_refl _) rfl fun hfree hb => hfree ?_
    exact Blocked.mono hb rfl (fun _ => Int.le_refl _) fun hmem => by rw [htodo] at hmem; cases hmem

theorem start_someFree {n : Nat} (hn : 0 < n) : (start .homework6 n).SomeFree := by
  refine ⟨⟨.ioWorker, [], []⟩, ?_, rfl, not_blocked_of_nil rfl⟩
  have hmem : (⟨.ioWorker, [], []⟩ : Thread) ∈ List.replicate n ⟨.ioWorker, [], []⟩ :=
    List.mem_replicate.2 ⟨Nat.ne_of_gt hn, rfl⟩
  exact List.mem_cons_of_mem _ (List.mem_append_right _ hmem)

/-- A worker that waits is blocked. -/
theorem Waits.blocked (hw : v.Waits th) : v.Blocked th := by
  obtain ⟨s, hs, hpos, hr⟩ := hw
  refine ⟨⟨s, hs, hpos⟩, fun hmem => ?_⟩
  simp only [Thread.retries, List.mem_cons, List.not_mem_nil, or_false] at hr
  rcases hr with h | h | h | h | h <;> rw [h] at hmem <;> simp at hmem

/-- The IO workers of Homework6 do not all wait for each other, in every run
whose `PostSend` calls spare a worker. -/
theorem not_locked_up (n : Nat) (hn : 0 < n) (as : List Action)
    (hm : Meets (step .homework6) SparesWorker (start .homework6 n) as)
    (hr : run (step .homework6) (start .homework6 n) as = some v) : ¬ v.LockedUp := by
  have hinv : v.Workers ∧ v.SomeFree := by
    refine inv_of_meets (I := fun v => v.Workers ∧ v.SomeFree) ?_ ⟨start_workers n, start_someFree hn⟩ hm hr
    rintro v a v' ⟨hv, hf⟩ hp hs
    exact ⟨step_workers hv hs, step_someFree hv hf hp hs⟩
  intro hlocked
  obtain ⟨th, hth, hworker, hfree⟩ := hinv.2
  exact hfree (hlocked th hth hworker).blocked

instance (v : Server) (a : Action) : Decidable (v.SparesWorker a) := by
  unfold SparesWorker
  split
  · split <;> infer_instance
  · exact isTrue trivial

/-- The echo is sent, and its completion handled before the client sends more. -/
def echoTwice : List Action :=
  echoQueued ++ [.doSendJob 1] ++ steps 1 8 ++ [.dequeue 1 1 (.done true [])] ++ steps 1 4 ++
    [.dequeue 1 0 (.done true [])] ++ steps 1 5 ++ [.dequeue 1 0 (.done true [])] ++ steps 1 10 ++
    [.doSendJob 1] ++ steps 1 8

theorem not_locked_up_echoTwice : ∃ v, run (step .homework6) (start .homework6 1) echoTwice = some v ∧
    (v.session firstClient).mSendPendingCount = 1 ∧ ¬ v.LockedUp := by
  have hmap : (run (step .homework6) (start .homework6 1) echoTwice).map
      (fun v => (v.session firstClient).mSendPendingCount) = some 1 := by decide +kernel
  obtain ⟨v, hr, hcount⟩ := Option.map_eq_some_iff.1 hmap
  exact ⟨v, hr, hcount, not_locked_up 1 (by decide) echoTwice (by decide +kernel) hr⟩

/-- The client sends more before the completion of the first echo is handled. -/
def echoUnread : List Action :=
  echoQueued ++ [.doSendJob 1] ++ steps 1 8 ++
    [.dequeue 1 0 (.done true [])] ++ steps 1 5 ++ [.dequeue 1 1 (.done true [])] ++ steps 1 10

/-- The only worker retries `FlushSend`, and the completion it waits for stays. -/
theorem locked_up : ∃ v, run (step .homework6) (start .homework6 1) echoUnread = some v ∧ v.LockedUp ∧
    (v.session firstClient).mConnected ∧ .io .send firstClient ∈ v.posted := by
  have hmap : (run (step .homework6) (start .homework6 1) echoUnread).map
      (fun v => (v.threads.all fun th => th.type = .ioWorker → th.todo = [] ∧ th.LSendRequestSessionList = [firstClient],
        (v.session firstClient).mSendPendingCount, (v.session firstClient).mConnected, v.posted.head?)) =
      some (true, 1, true, some (.io .send firstClient)) := by decide +kernel
  obtain ⟨v, hr, hv⟩ := Option.map_eq_some_iff.1 hmap
  simp only [Prod.mk.injEq, List.all_eq_true, decide_eq_true_eq] at hv
  obtain ⟨hthreads, hcount, hconnected, hposted⟩ := hv
  refine ⟨v, hr, fun th hth hworker => ?_, hconnected, List.mem_of_head? hposted⟩
  obtain ⟨htodo, hlist⟩ := hthreads th hth hworker
  refine ⟨firstClient, by rw [hlist]; rfl, by omega, ?_⟩
  rw [Thread.retries, htodo]
  exact List.mem_cons_self

end Server

end GameServer.Lifecycle
