import GameServer.Lib.LockStack
import GameServer.LockOrderChecker.Deadlock
import GameServer.Players.Base
/-!
# No lock is entered out of order

What a thread has left to do says which locks are on its stack, `stepStack`: in
this order, with each push above a lock of lower order. A step keeps to it
(`exec_stack`), unless a context is deleted under a lock and its session
returned right there. That context is never the last reference (`sheltered`):
the handler still owns its own, or, under the lock of the session manager, the
session has lost everyone who would release its issue reference.
-/

namespace GameServer.Players

open Lib Lifecycle Books

variable {p p' q : Process} {t : Nat} {th th' : Thread} {answer : Bool} {top : Nat} {a : Action} {i : Step}
  {next rest : List Step} {l l₁ : List Lock} {s : SessionId}

/-! ## The stack -/

/-- `k` may be pushed on `l`. -/
def below (l : List Lock) (k : Lock) : Bool := l.head?.all fun top => top.mLockOrder < k.mLockOrder

/-- The thread will hold nothing. -/
def alone (l st : List Lock) : Option (List Lock) := if l = [] then some st else none

/-- What is on the stack inside a call of Homework4. -/
@[simp] def callStack (s : SessionId) : Call → Option (List Lock)
  | .postAccept => some [.sessionManager]
  | .postRecv | .postSend => some [.buffer s]
  | .acceptPreRecv | .preRecv | .disconnectRequest => some []
  | .sendRequest | .flushSend | .sendFeedOnce | .requestLoad => none

/-- The stack before an instruction, and `l` behind it. None for those of the other homeworks. -/
@[simp] def instrStack (l : List Lock) : Instr → Option (List Lock)
  | .enterLock _ | .leaveLock _ | .leaveManagerLock | .deleteContext _ => some l
  | .disconnectRequest _ | .acceptCompletion _ | .socketSetup _ | .disconnectCompletion _ => alone l []
  | .isConnected c s => if (callStack s c).isSome then alone l [] else none
  | .bufferTest c s => if c.locks .homework4 then (callStack s c).bind (alone l) else none
  | .newContext c s | .startIo c s => (callStack s c).bind (alone l)
  | .returning .enterSendLock _ | .returning .leaveSendLock _ => none
  | .returning _ _ | .startAccept | .acceptSession | .issueAddRef _ => alone l [.sessionManager]
  | .sendStarted _ | .sendCompletion _ | .pushSendRequest _ | .popSendRequest | .echoBack _ | .subscribeFeed _
  | .feedGeneration | .feedLoop _ | .feedTest _ _ => none

@[simp] def stepStack (l : List Lock) : Step → Option (List Lock)
  | .server i => instrStack l i
  | .push k => if l.head? = some k ∧ below l.tail k then some l.tail else none
  | .pop k => some (k :: l)
  | .doTimerJob | .timerTop => alone l []
  -- those that lead to a lock of the player manager
  | .start _ _ | .onTick _ | .unregisterPlayer _ | .dispatch | .gce _ => if below l .playerManager then some l else none
  | .registerPlayer _ | .erase _ _ => some (.playerManager :: l)
  | .enterLock _ | .leaveLock _ | .enterManager _ | .leaveManager _ | .doSyncAfter _ _ _ | .setPlayerId _ _
  | .rearm _ | .playerReset _ => some l

@[simp] theorem below_nil (k : Lock) : below [] k = true := rfl

@[simp] theorem below_cons (top k : Lock) : below (top :: l) k = decide (top.mLockOrder < k.mLockOrder) := rfl

@[simp] theorem alone_nil (st : List Lock) : alone [] st = some st := rfl

@[simp] theorem alone_eq_some {st : List Lock} : alone l st = some l₁ ↔ l = [] ∧ st = l₁ := by
  unfold alone
  split <;> simp_all

/-- An instruction leads to what keeps to the stack, if no session is returned under a lock. -/
theorem exec_instrStack {v v' : Server} {j : Instr} {n : List Instr} (hj : instrStack l j = some l₁)
    (he : v.exec .homework4 answer j = some (v', n)) (hd : ∀ s, j = .deleteContext s → n = [] ∨ l = []) :
    prior stepStack l (n.flatMap steps) = some l₁ := by
  cases j with
  | isConnected c x =>
    cases he
    cases c <;> simp at hj <;> obtain ⟨rfl, rfl⟩ := hj <;> split <;>
      simp [Call.body, Call.notConnected, Call.onFalse, Call.enter, Call.locks]
  | bufferTest c x =>
    cases he
    cases c <;> simp [Call.locks] at hj <;> obtain ⟨rfl, rfl⟩ := hj <;> cases answer <;>
      simp [Call.granted, Call.refused, Call.leave, Call.locks]
  | startIo c x =>
    simp only [Server.exec] at he
    split at he
    · cases he
      cases c <;> simp at hj <;> obtain ⟨rfl, rfl⟩ := hj <;> simp [Call.started, Call.leave, Call.locks]
    · split at he <;> cases he
      · cases c <;> simp [Call.strands] at *
      · cases c <;> simp at hj <;> obtain ⟨rfl, rfl⟩ := hj <;>
          simp [Call.afterFailure, Call.leave, Call.onFalse, Call.locks]
  | newContext c x =>
    simp only [Server.exec, Server.addRef, Server.crash] at he
    split at he <;> cases he <;> cases c <;> simp at hj <;> obtain ⟨rfl, rfl⟩ := hj <;> simp
  | issueAddRef x =>
    simp only [Server.exec, Server.addRef, Server.crash] at he
    simp only [instrStack, alone_eq_some] at hj
    obtain ⟨rfl, rfl⟩ := hj
    split at he <;> cases he <;> simp
  | deleteContext x =>
    cases hj
    rcases hd x rfl with rfl | rfl
    · rfl
    · simp only [Server.exec, Server.releaseRef, Server.crash] at he
      split at he
      · cases he; rfl
      · split at he <;> cases he <;> simp
  | disconnectCompletion x =>
    simp only [instrStack, alone_eq_some] at hj
    obtain ⟨rfl, rfl⟩ := hj
    simp only [Server.exec, Server.releaseRef, Server.crash] at he
    split at he
    · cases he; rfl
    · split at he <;> cases he <;> simp
  | returning r x =>
    cases r with
    | enterSendLock | leaveSendLock => cases hj
    | resetRefCount =>
      simp only [instrStack, alone_eq_some] at hj
      obtain ⟨rfl, rfl⟩ := hj
      cases he
      simp [Lock.mLockOrder]
    | _ =>
      simp only [instrStack, alone_eq_some] at hj
      obtain ⟨rfl, rfl⟩ := hj
      simp only [Server.exec, Server.returnClientSession, Server.crash] at he
      first | cases he | (split at he <;> cases he)
      all_goals simp
  | acceptSession =>
    simp only [instrStack, alone_eq_some] at hj
    obtain ⟨rfl, rfl⟩ := hj
    simp only [Server.exec, Server.acceptSession, Server.crash] at he
    split at he
    · split at he <;> cases he <;> simp
    · cases he; simp
  | startAccept =>
    simp only [instrStack, alone_eq_some] at hj
    obtain ⟨rfl, rfl⟩ := hj
    simp only [Server.exec] at he
    split at he <;> cases he
    simp
  | socketSetup x =>
    simp only [instrStack, alone_eq_some] at hj
    obtain ⟨rfl, rfl⟩ := hj
    cases he
    split <;> simp [connectedClient]
  | acceptCompletion x | disconnectRequest x =>
    simp only [instrStack, alone_eq_some] at hj
    obtain ⟨rfl, rfl⟩ := hj
    simp only [Server.exec, Server.crash] at he
    split at he <;> cases he <;> simp
  | enterLock x =>
    cases hj
    simp only [Server.exec] at he
    split at he <;> cases he
    rfl
  | leaveLock x | leaveManagerLock =>
    cases he
    exact hj
  | _ => cases hj

/-! ## The checks -/

theorem length_le_of_sorted (hl : l.Pairwise fun a b => b.mLockOrder < a.mLockOrder) : l.length ≤ 4 := by
  have hnd : (l.map Lock.mLockOrder).Nodup := by
    rw [List.nodup_iff_pairwise_ne, List.pairwise_map]
    exact hl.imp fun h => (ne_of_lt h).symm
  have hsub : l.map Lock.mLockOrder ⊆ [1, 2, 3, 4] := by
    intro n hn
    obtain ⟨k, -, rfl⟩ := List.mem_map.1 hn
    cases k <;> simp [Lock.mLockOrder]
  have hle := (List.subperm_of_subset hnd hsub).length_le
  rwa [List.length_map] at hle

/-- A lock that goes above the top passes the check. -/
theorem push_of_below {k : Lock} (hl : l.Pairwise fun a b => b.mLockOrder < a.mLockOrder) (hk : below l k) :
    LockOrderChecker.push Lock.mLockOrder l k = some (k :: l) := by
  have hlen : l.length < LockOrderChecker.maxLockDepth := lt_of_le_of_lt (length_le_of_sorted hl) (by decide)
  refine LockOrderChecker.push_eq_some.2 ⟨hlen, ?_, rfl⟩
  intro top htop
  obtain ⟨rest, rfl⟩ := List.head?_eq_some_iff.1 htop
  simpa using hk

theorem stack_frameSteps {frames : List GrandCentralExecuter.Frame} (hl : below l .playerManager) :
    prior stepStack l (frames.flatMap frameSteps) = some l := by
  induction frames with
  | nil => rfl
  | cons frame frames ih =>
    rw [List.flatMap_cons, prior_append_of ih]
    cases frame <;> simp_all

namespace Process

/-- A step on a sorted stack passes the checks, and leads to what keeps to the stack. -/
theorem exec_stack (hl : th.mLockStack.Pairwise fun a b => b.mLockOrder < a.mLockOrder)
    (hi : stepStack l i = some th.mLockStack) (he : p.exec t th answer top i = some (q, th', next))
    (hd : ∀ s v n, i = .server (.deleteContext s) → p.base.exec .homework4 answer (.deleteContext s) = some (v, n) →
      n = [] ∨ l = []) :
    q.tripped = p.tripped ∧ (th'.mLockStack.Pairwise fun a b => b.mLockOrder < a.mLockOrder) ∧
      prior stepStack l next = some th'.mLockStack := by
  obtain ⟨type, todo, st, tick, queue, calls⟩ := th
  simp only at hl hi
  cases i with
  | server j =>
    obtain ⟨⟨v, n⟩, hv, hr⟩ := Option.map_eq_some_iff.1 he
    cases hr
    refine ⟨rfl, hl, exec_instrStack hi hv ?_⟩
    rintro s rfl
    exact hd s v n rfl hv
  | push k =>
    simp only [stepStack, Option.ite_none_right_eq_some, Option.some.injEq] at hi
    obtain ⟨⟨hk, hb⟩, rfl⟩ := hi
    obtain ⟨rest, rfl⟩ := List.head?_eq_some_iff.1 hk
    have hpush := push_of_below hl hb
    simp only [exec, hpush] at he
    cases he
    exact ⟨rfl, LockOrderChecker.sorted_push hl hpush, rfl⟩
  | pop k =>
    cases hi
    simp only [exec, LockOrderChecker.pop, if_true] at he
    cases he
    exact ⟨rfl, hl.of_cons, rfl⟩
  | enterLock s =>
    cases hi
    simp only [exec] at he
    split at he <;> cases he
    exact ⟨rfl, hl, rfl⟩
  | enterManager exclusive =>
    cases hi
    simp only [exec] at he
    split at he
    · cases he
    · split at he <;> cases he <;> exact ⟨rfl, hl, rfl⟩
  | leaveManager exclusive =>
    cases hi
    simp only [exec] at he
    split at he <;> cases he <;> exact ⟨rfl, hl, rfl⟩
  | doTimerJob =>
    obtain ⟨rfl, rfl⟩ := alone_eq_some.1 hi
    cases he
    exact ⟨rfl, hl, rfl⟩
  | timerTop =>
    obtain ⟨rfl, rfl⟩ := alone_eq_some.1 hi
    obtain ⟨⟨th₁, n⟩, hr, h⟩ := Option.map_eq_some_iff.1 he
    cases h
    unfold Thread.timerTop at hr
    split at hr
    · split at hr <;> cases hr
      exact ⟨rfl, hl, rfl⟩
    next e _ =>
      split at hr
      · split at hr <;> cases hr
        · exact ⟨rfl, hl, rfl⟩
        · refine ⟨rfl, hl, ?_⟩
          cases e.mTask <;> simp [TimerTask.step, Lock.mLockOrder]
      · cases hr
  | gce frame =>
    simp only [stepStack, Option.ite_none_right_eq_some, Option.some.injEq] at hi
    obtain ⟨hb, rfl⟩ := hi
    cases he
    exact ⟨rfl, hl, stack_frameSteps hb⟩
  | onTick s =>
    simp only [stepStack, Option.ite_none_right_eq_some, Option.some.injEq] at hi
    obtain ⟨hb, rfl⟩ := hi
    cases he
    refine ⟨rfl, hl, ?_⟩
    split
    · cases answer <;> simp [hb]
    · rfl
  | start | unregisterPlayer | dispatch =>
    simp only [stepStack, Option.ite_none_right_eq_some, Option.some.injEq] at hi
    obtain ⟨hb, rfl⟩ := hi
    cases he
    exact ⟨rfl, hl, by simp [hb]⟩
  | rearm s =>
    cases hi
    cases he
    split <;> exact ⟨rfl, hl, rfl⟩
  | _ =>
    cases hi
    cases he
    exact ⟨rfl, hl, rfl⟩

end Process

/-! ## No session is returned under a lock -/

/-- A context that is deleted under a lock is not the last reference: `s` has
another one that is deleted later, or nobody will release its issue reference. -/
structure Step.Sheltered (v : Server) (rest : List Step) (i : Step) : Prop where
  delete : ∀ s, i = .server (.deleteContext s) →
    prior stepStack [] rest = some [] ∨ .deleteContext s ∈ rest.filterMap Step.instr? ∨ (v.books s).Orphan
  start : ∀ c s, i = .server (.startIo c s) → c.borrows → .deleteContext s ∈ rest.filterMap Step.instr?

def Sheltered (v : Server) : List Step → Prop
  | [] => True
  | i :: rest => i.Sheltered v rest ∧ Sheltered v rest

variable {v v' : Server} {j : Instr} {n : List Instr} {h : Homework}

theorem Sheltered.mono (hv : ∀ s, (v.books s).Orphan → (v'.books s).Orphan) {is : List Step} (hs : Sheltered v is) :
    Sheltered v' is := by
  induction is with
  | nil => trivial
  | cons i is ih =>
    refine ⟨⟨fun s hi => ?_, hs.1.start⟩, ih hs.2⟩
    rcases hs.1.delete s hi with h | h | h
    · exact .inl h
    · exact .inr (.inl h)
    · exact .inr (.inr (hv s h))

theorem Sheltered.append (hr : Sheltered v rest) (hn : ∀ j ∈ next.filterMap Step.instr?, ∀ s, j.owns s = false) :
    Sheltered v (next ++ rest) := by
  induction next with
  | nil => exact hr
  | cons i next ih =>
    have hmem {j : Instr} (hi : i = .server j) : j ∈ (i :: next).filterMap Step.instr? := by
      subst hi
      exact List.mem_cons_self
    refine ⟨⟨fun s hi => ?_, fun c s hi => ?_⟩, ih fun j hj => ?_⟩
    · have ho : (Instr.deleteContext s).owns s = false := hn _ (hmem hi) s
      simp [Instr.owns] at ho
    · have ho : (Instr.startIo c s).owns s = false := hn _ (hmem hi) s
      simp [Instr.owns] at ho
    · obtain ⟨k, hk, hj⟩ := List.mem_filterMap.1 hj
      exact hn j (List.mem_filterMap.2 ⟨k, List.mem_cons_of_mem i hk, hj⟩)

theorem owns_of_unmarked (hn : Unmarked n) : ∀ j ∈ n, ∀ s, j.owns s = false := by
  intro j hj s
  rw [← Server.holds_token]
  simp [Instr.holds, hn j hj]

/-- A context is constructed by `newContext`, and deleted at once where its call fails. -/
theorem exec_owns (he : v.exec h answer j = some (v', n)) (hc : v'.crashed = none) : (∀ j ∈ n, ∀ s, j.owns s = false) ∨
    (∃ c s, j = .newContext c s ∧ n = [.startIo c s]) ∨
    ∃ c s, j = .startIo c s ∧ answer = false ∧ n = .deleteContext s :: c.afterFailure h s := by
  cases j with
  | isConnected c x =>
    cases he
    left
    split
    · cases c with
      | postRecv => exact owns_of_unmarked (unmarked_body (by simp) x)
      | _ => simp [Call.body, Instr.owns]
    · exact owns_of_unmarked (plain_notConnected c x).unmarked
  | bufferTest c x =>
    cases he
    left
    split
    · unfold flushTest
      split <;> split <;> simp [Instr.owns]
    · split
      · exact owns_of_unmarked (unmarked_granted c x)
      · exact owns_of_unmarked (plain_refused c x).unmarked
  | newContext c x =>
    obtain ⟨-, rfl⟩ := Server.addRef_cases he hc
    exact .inr (.inl ⟨c, x, rfl, rfl⟩)
  | startIo c x =>
    simp only [Server.exec] at he
    split at he
    · cases he
      exact .inl (owns_of_unmarked (plain_started c x).unmarked)
    next ha =>
      split at he <;> cases he
      · simp
      · exact .inr (.inr ⟨c, x, rfl, Bool.not_eq_true _ ▸ ha, rfl⟩)
  | issueAddRef x =>
    simp only [Server.exec] at he
    obtain ⟨-, rfl⟩ := Server.addRef_cases he hc
    simp [Instr.owns]
  | deleteContext x | disconnectCompletion x =>
    simp only [Server.exec] at he
    obtain ⟨-, rfl, -⟩ | ⟨-, rfl, -⟩ := Server.releaseRef_cases he hc <;> simp [Instr.owns]
  | returning r x =>
    left
    cases r <;> simp only [Server.exec, Server.returnClientSession, Server.crash] at he <;> (try split at he) <;>
      cases he <;> simp [Instr.owns]
  | acceptSession =>
    simp only [Server.exec, Server.acceptSession, Server.crash] at he
    split at he
    · split at he <;> cases he <;> simp [Instr.owns]
    · cases he; simp [Instr.owns]
  | socketSetup x =>
    cases he
    left
    split
    · exact owns_of_unmarked (unmarked_connectedClient x)
    · simp [Instr.owns]
  | feedLoop k =>
    left
    cases k <;> cases he
    · simp
    · split <;> simp [Instr.owns]
  | echoBack x | sendStarted x =>
    cases he
    left
    split <;> simp [Instr.owns]
  | disconnectRequest | enterLock | acceptCompletion | startAccept | feedTest =>
    simp only [Server.exec, Server.crash] at he
    split at he <;> cases he <;> simp [Instr.owns]
  | _ => cases he; simp [Instr.owns]

/-- A handler deletes its context last, and holds no lock by then. -/
theorem handler_stack (c : Completion) (job : Job) :
    prior stepStack [] ((handler .homework4 c job).flatMap steps ++ [.doTimerJob]) = some [] := by
  cases job with
  | io ty s =>
    cases ty <;> rcases c with _ | _ | ⟨_ | _, calls⟩ <;>
      simp [handler, ioCompletion, sendCompletion, recvCompletion]
  | db s | dbRequest s => simp [handler, dbCompletion]

theorem handler_owns (c : Completion) (job : Job) : ∃ body s, handler .homework4 c job = body ++ [.deleteContext s] ∧
    ∀ j ∈ body, ∀ s, j.owns s = false := by
  cases job with
  | io ty s =>
    refine ⟨_, s, rfl, ?_⟩
    cases ty <;> rcases c with _ | _ | ⟨_ | _, calls⟩ <;>
      simp [ioCompletion, sendCompletion, recvCompletion, Instr.owns]
  | db s | dbRequest s => exact ⟨_, s, rfl, by simp [dbCompletion]⟩

/-- With a second reference, the deletion of a context returns nothing. -/
theorem deleteContext_returns (hcount : 1 < (v.session s).mRefCount)
    (he : v.exec h answer (.deleteContext s) = some (v', n)) : n = [] := by
  simp only [Server.exec, Server.releaseRef] at he
  rw [if_neg (by omega), if_neg (by omega)] at he
  cases he
  rfl

/-- The session of an `AcceptEx` that fails is lost. -/
theorem orphan_of_postAccept (hv : v.Consistent) {u : Lifecycle.Thread} {todo : List Instr} (ht : v.threads[t]? = some u)
    (htodo : u.todo = .startIo .postAccept s :: todo) (hs : v.step .homework4 (.run t false) = some v')
    (hc : v'.crashed = none) : (v'.books s).Orphan := by
  obtain ⟨hb, -⟩ := Server.step_books hs hc s
  have hop : Lifecycle.Action.op .homework4 v s (.run t false) = .loseOpening := by
    simp [Lifecycle.Action.op, Server.next, ht, htodo, Instr.op, Instr.effect, Call.loss]
  have hpos : 0 < (v.books s).opening :=
    Server.marked_pos .opening ht (htodo ▸ List.mem_cons_self) rfl (by simp [Instr.marks, Call.owed])
  have howed := (hv.balanced s).owed
  have hle := (hv.balanced s).issue_le
  rw [hb, hop]
  constructor <;> simp only [Books.after] <;> omega

/-! ## Every state -/

/-- What a thread has left keeps to its stack. -/
structure Thread.Stacked (v : Server) (th : Thread) : Prop where
  stack : prior stepStack [] th.todo = some th.mLockStack
  sorted : th.mLockStack.Pairwise fun a b => b.mLockOrder < a.mLockOrder
  sheltered : Sheltered v th.todo

namespace Process

structure Stacked (p : Process) : Prop where
  sound : p.Sound
  thread : ∀ th ∈ p.threads, th.Stacked p.base
  passed : p.tripped = false

/-- Nobody comes back to an orphan. -/
theorem step_orphan (hp : p.Sound) (hs : p.step a = some p') (s : SessionId) (ho : (p.base.books s).Orphan) :
    (p'.base.books s).Orphan := by
  rcases step_base hp.direct hs with hb | ⟨b, hb⟩
  · rwa [hb]
  · have hc := Server.step_direct_no_crash hp.consistent hp.direct hb
    obtain ⟨hbook, he⟩ := Server.step_books hb hc s
    rw [hbook]
    exact ho.after (hp.consistent.balanced s) he

/-- A context that is deleted under a lock is not the last reference to its session. -/
theorem sheltered_count (hp : p.Sound) (ht : p.threads[t]? = some th) (htodo : th.todo = .server (.deleteContext s) :: rest)
    (hsh : .deleteContext s ∈ rest.filterMap Step.instr? ∨ (p.base.books s).Orphan) :
    1 < (p.base.session s).mRefCount := by
  have hb : p.base.threads[t]? = some th.base := by simp [base, ht]
  have hj : th.base.todo = .deleteContext s :: rest.filterMap Step.instr? := by simp [Thread.base, htodo, Step.instr?]
  have hcount := Server.mRefCount_eq hp.consistent s
  rcases hsh with hmem | ho
  · have hle : th.base.todo.countP (Instr.holds .token s) ≤ p.base.running .token s :=
      countP_le_tally (List.mem_map_of_mem (List.mem_of_getElem? hb))
    have htok : p.base.running .token s ≤ (p.base.books s).tokens := by
      simp only [Server.books, Server.booksWith]
      omega
    have hpos : 0 < (rest.filterMap Step.instr?).countP (Instr.holds .token s) :=
      List.countP_pos_iff.2 ⟨_, hmem, by simp [Instr.holds, Instr.session, Instr.marks]⟩
    rw [hj, List.countP_cons_of_pos (by simp [Instr.holds, Instr.session, Instr.marks])] at hle
    omega
  · have hpos : 0 < (p.base.books s).tokens :=
      Server.marked_pos .token hb (hj ▸ List.mem_cons_self) rfl (by simp [Instr.marks])
    have hi := ho.issue
    omega

/-- What a failed call leads to is sheltered. -/
theorem sheltered_failure {c : Call} (hl : prior stepStack [] rest = some l) (hi : instrStack l (.startIo c s) = some l₁)
    (hb : c.borrows → .deleteContext s ∈ rest.filterMap Step.instr?) (ho : c = .postAccept → (v.books s).Orphan)
    (hr : Sheltered v rest) : Sheltered v ((.deleteContext s :: c.afterFailure .homework4 s).flatMap steps ++ rest) := by
  have howns : ∀ j ∈ ((c.afterFailure .homework4 s).flatMap steps).filterMap Step.instr?, ∀ s, j.owns s = false := by
    rw [filterMap_flatMap_steps]
    exact owns_of_unmarked (plain_afterFailure c s).unmarked
  change Sheltered v (.server (.deleteContext s) :: ((c.afterFailure .homework4 s).flatMap steps ++ rest))
  refine ⟨⟨?_, by simp⟩, hr.append howns⟩
  rintro x ⟨⟩
  cases c with
  | postAccept => exact .inr (.inr (ho rfl))
  | disconnectRequest =>
    simp only [instrStack, callStack, Option.bind_some, alone_eq_some] at hi
    rw [hi.1] at hl
    exact .inl hl
  | acceptPreRecv | preRecv | postRecv | postSend =>
    right
    left
    rw [List.filterMap_append]
    exact List.mem_append_right _ (hb rfl)
  | _ => cases hi

theorem step_stacked (hp : p.Stacked) (hs : p.step a = some p') : p'.Stacked := by
  have hsound := step_sound hp.sound hs
  have hmono {is : List Step} : Sheltered p.base is → Sheltered p'.base is := Sheltered.mono (step_orphan hp.sound hs)
  cases a with
  | run t answer top =>
    obtain ⟨-, -, th, i, rest, q, th', next, ht, htodo, he, hp'⟩ := step_run hs
    have hth := hp.thread th (List.mem_of_getElem? ht)
    obtain ⟨hst, hsorted, hsh⟩ := hth
    rw [htodo] at hst hsh
    obtain ⟨l, hl, hi⟩ := prior_cons_eq_some.1 hst
    have hb : p.base.threads[t]? = some th.base := by simp [base, ht]
    obtain ⟨htrip, hsorted', hn⟩ := exec_stack hsorted hi he (by
      rintro s v n rfl hv
      rcases hsh.1.delete s rfl with h | h
      · exact .inr (Option.some.inj (hl.symm.trans h))
      · exact .inl (deleteContext_returns (sheltered_count hp.sound ht htodo h) hv))
    obtain ⟨-, hqt, hkind⟩ := exec_base he
    have hrest : Sheltered p'.base rest := hmono hsh.2
    have hsh' : Sheltered p'.base (next ++ rest) := by
      rcases hkind with ⟨j, v, n, rfl, hv, rfl, -, rfl⟩ | ⟨-, -, hnone⟩
      · have hj : th.base.todo = j :: rest.filterMap Step.instr? := by simp [Thread.base, htodo, Step.instr?]
        have hvc : v.crashed = none := by
          have hc := hsound.crashed
          rw [hp'] at hc
          exact hc
        rcases exec_owns hv hvc with h | ⟨c, s, rfl, rfl⟩ | ⟨c, s, rfl, rfl, rfl⟩
        · refine hrest.append ?_
          rwa [filterMap_flatMap_steps]
        · refine ⟨⟨by simp, ?_⟩, hrest⟩
          rintro c' x ⟨⟩ hc
          have hcov : Covered th.base.todo := hp.sound.consistent.covered _ (List.mem_of_getElem? hb)
          rw [hj] at hcov
          exact hcov.1 s (by simp [Instr.borrows, hc])
        · refine sheltered_failure hl hi (hsh.1.start c s rfl) ?_ hrest
          rintro rfl
          exact orphan_of_postAccept hp.sound.consistent hb hj (run_server hp.sound.direct hs ht htodo) hsound.crashed
      · refine hrest.append ?_
        simp [hnone]
    refine ⟨hsound, fun x hx => ?_, ?_⟩
    · rw [hp', setThread, hqt] at hx
      rcases List.mem_or_eq_of_mem_set hx with hx | rfl
      · obtain ⟨h₁, h₂, h₃⟩ := hp.thread x hx
        exact ⟨h₁, h₂, hmono h₃⟩
      · exact ⟨by rw [prior_append_of hl, hn], hsorted', hsh'⟩
    · rw [hp']
      exact htrip.trans hp.passed
  | dequeue t k c =>
    obtain ⟨-, -, th, v, todo, ht, htodo, -, hjob, -, -, hp'⟩ := step_dequeue hs
    have hth := hp.thread th (List.mem_of_getElem? ht)
    have hst : th.mLockStack = [] := by
      have h₁ := hth.stack
      rw [htodo] at h₁
      exact (Option.some.inj h₁).symm
    have hstack : prior stepStack [] (todo.flatMap steps ++ [.doTimerJob]) = some [] := by
      rcases hjob with rfl | ⟨job, rfl⟩
      · rfl
      · exact handler_stack c job
    have hsh : Sheltered p'.base (todo.flatMap steps ++ [.doTimerJob]) := by
      have hlast : Sheltered p'.base [.doTimerJob] := ⟨⟨by simp, by simp⟩, trivial⟩
      rcases hjob with rfl | ⟨job, rfl⟩
      · exact hlast
      · obtain ⟨body, s, hbody, howns⟩ := handler_owns c job
        rw [hbody, List.flatMap_append, List.append_assoc]
        refine Sheltered.append ⟨⟨fun x _ => .inl rfl, by simp⟩, hlast⟩ ?_
        rwa [filterMap_flatMap_steps]
    refine ⟨hsound, fun x hx => ?_, ?_⟩
    · rw [hp'] at hx
      rcases List.mem_or_eq_of_mem_set hx with hx | rfl
      · obtain ⟨h₁, h₂, h₃⟩ := hp.thread x hx
        exact ⟨h₁, h₂, hmono h₃⟩
      · exact ⟨hst ▸ hstack, hth.sorted, hsh⟩
    · rw [hp']
      exact hp.passed
  | tick ms =>
    obtain rfl := step_tick hs
    refine ⟨hsound, fun th hth => ?_, hp.passed⟩
    obtain ⟨h₁, h₂, h₃⟩ := hp.thread th hth
    exact ⟨h₁, h₂, hmono h₃⟩

theorem start_stacked (k : Nat) : (start k).Stacked := by
  refine ⟨start_sound k, fun th hth => ?_, rfl⟩
  simp only [start, List.mem_cons, List.mem_replicate] at hth
  have hnone {is : List Step} (hi : ∀ j ∈ is.filterMap Step.instr?, ∀ s, j.owns s = false) :
      Sheltered (start k).base is := by
    rw [← List.append_nil is]
    exact Sheltered.append trivial hi
  rcases hth with rfl | ⟨-, rfl⟩
  · exact ⟨by simp [Thread.start], List.Pairwise.nil, hnone (by simp [Thread.start, Step.instr?, Instr.owns])⟩
  · exact ⟨rfl, List.Pairwise.nil, hnone (by simp [Thread.start, Step.instr?])⟩

/-- Every push is above a lock of lower order, and every pop is of the last lock pushed. -/
structure LockOrdered (p : Process) : Prop where
  push : ∀ th ∈ p.threads, ∀ k rest, th.todo = .push k :: rest →
    th.mLockStack.length < LockOrderChecker.maxLockDepth ∧ ∀ top ∈ th.mLockStack.head?, top.mLockOrder < k.mLockOrder
  pop : ∀ th ∈ p.threads, ∀ k rest, th.todo = .pop k :: rest → th.mLockStack.head? = some k
  /-- No assertion of the checker has failed. -/
  passed : p.tripped = false

theorem lockOrdered_of_stacked (hp : p.Stacked) : p.LockOrdered where
  push th hth k rest htodo := by
    obtain ⟨hst, hsorted, -⟩ := hp.thread th hth
    rw [htodo] at hst
    obtain ⟨l, -, hi⟩ := prior_cons_eq_some.1 hst
    simp only [stepStack, Option.ite_none_right_eq_some, Option.some.injEq] at hi
    have hpush := push_of_below (hi.2 ▸ hsorted) hi.1.2
    rw [hi.2] at hpush
    obtain ⟨hlen, htop, -⟩ := LockOrderChecker.push_eq_some.1 hpush
    exact ⟨hlen, htop⟩
  pop th hth k rest htodo := by
    have hst := (hp.thread th hth).stack
    rw [htodo] at hst
    obtain ⟨l, -, hi⟩ := prior_cons_eq_some.1 hst
    rw [← Option.some.inj hi]
    rfl
  passed := hp.passed

/-- With any number of IO threads, over every interleaving and however the socket calls end. -/
theorem lock_order (k : Nat) (as : List Action) (hr : run step (start k) as = some p) : p.LockOrdered :=
  lockOrdered_of_stacked (inv_of_run (fun _ _ _ => step_stacked) (start_stacked k) hr)

theorem lock_order_startsLate : ∃ p, run step (start 1) startsLate = some p ∧
    (p.player firstClient).mPlayerId = 1 ∧ p.LockOrdered := by
  have hmap : (run step (start 1) startsLate).map (fun p => (p.player firstClient).mPlayerId) = some 1 := by
    decide +kernel
  obtain ⟨p, hr, hp⟩ := Option.map_eq_some_iff.1 hmap
  exact ⟨p, hr, hp, lock_order 1 startsLate hr⟩

end Process

end GameServer.Players
