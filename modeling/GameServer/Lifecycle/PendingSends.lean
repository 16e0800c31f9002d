import GameServer.Lifecycle.Locks
import GameServer.Lifecycle.Recycling
/-!
# The pending sends of Homework6

mSendPendingCount against the contexts whose `WSASend` was accepted. In every
run the counter is at least their number (`run_flushed`). It is more when a
completion has failed or carries no bytes: `DoIocpJob` then skips
`SendCompletion`, and `SessionReset` leaves the counter as it is
(`pending_left`). Otherwise it is exact (`pending_counted`).
-/

namespace GameServer.Lifecycle

open Lib Books

@[grind =] def Instr.sendStartedOf (s : SessionId) : Instr → Bool
  | .sendStarted x => x = s
  | _ => false

@[grind =] def Instr.sendCompletionOf (s : SessionId) : Instr → Bool
  | .sendCompletion x => x = s
  | _ => false

def Instr.flushStartOf (s : SessionId) : Instr → Bool
  | .startIo .flushSend x => x = s
  | _ => false

/-- The instruction is on its way to a `WSASend` outside `FlushSend`. -/
@[grind =] def Instr.sendsNow : Instr → Bool
  | .isConnected c _ | .bufferTest c _ => c = .sendRequest
  | .newContext c _ | .startIo c _ => c = .sendRequest ∨ c = .postSend
  | .disconnectRequest _ | .enterLock _ | .leaveLock _ | .sendStarted _ | .sendCompletion _
  | .pushSendRequest _ | .popSendRequest | .echoBack _ | .acceptCompletion _ | .socketSetup _
  | .subscribeFeed _ | .disconnectCompletion _ | .deleteContext _ | .returning _ _ | .leaveManagerLock
  | .startAccept | .acceptSession | .issueAddRef _ | .feedGeneration | .feedLoop _ | .feedTest _ _ => false

/-- The instruction has nothing to do with a `WSASend` or with the counter. -/
@[grind =] def Instr.bare : Instr → Bool
  | .startIo .flushSend _ | .sendStarted _ | .sendCompletion _ => false
  | i => !i.sendsNow

namespace Server

variable {v v' : Server} {answer : Bool} {i : Instr} {next : List Instr}

/-- `FlushSend` calls that are between their `WSASend` and the increment. -/
def starting (v : Server) (s : SessionId) : Nat := tally (Instr.sendStartedOf s) v.todos

/-- The contexts whose `WSASend` was accepted and whose completion has not been
processed. -/
def sendContexts (v : Server) (s : SessionId) : Nat :=
  v.posted.countP (· = .io .send s) + tally (Instr.sendCompletionOf s) v.todos

/-- mSendPendingCount is the number of pending sends. -/
structure PendingCounted (v : Server) : Prop where
  /-- `FlushSend` counts the send after `WSASend` took it. -/
  count : ∀ s, (v.session s).mSendPendingCount + v.starting s = v.sendContexts s
  free : ∀ s ∈ v.mFreeSessionList, (v.session s).mSendPendingCount = 0
  accepted : ∀ s, ∀ th ∈ v.threads, .acceptCompletion s ∈ th.todo → (v.session s).mSendPendingCount = 0

/-- The session whose send ends with this action, without a `SendCompletion`. -/
def lostSend (v : Server) : Action → Option SessionId
  | .dequeue _ i .timedOut | .dequeue _ i .failed =>
    match v.posted[i]? with
    | some (.io .send s) => some s
    | _ => none
  | _ => none

/-- The completion of a send is neither an error nor without bytes, and no
session that `FlushSend` is about to use loses its last reference. -/
def KeepsSends (v : Server) (a : Action) : Prop := v.SparesPeeked a ∧ v.lostSend a = none

instance (v : Server) (a : Action) : Decidable (v.KeepsSends a) := by unfold KeepsSends; infer_instance

/-! ## Where the sends are counted -/

/-- None of them sends or counts a send. -/
def Bare (is : List Instr) : Prop := ∀ i ∈ is, i.bare

@[simp] theorem bare_nil : Bare [] := by simp [Bare]

@[simp] theorem bare_cons {is : List Instr} : Bare (i :: is) ↔ i.bare ∧ Bare is := by simp [Bare]

theorem sends_of_bare (hi : i.bare) : i.sendsNow = false ∧
    ∀ s, i.flushStartOf s = false ∧ i.sendStartedOf s = false ∧ i.sendCompletionOf s = false := by
  cases i with
  | startIo c x => cases c <;> simp [Instr.bare, Instr.sendsNow] at hi <;> exact ⟨rfl, fun s => ⟨rfl, rfl, rfl⟩⟩
  | isConnected c x | bufferTest c x | newContext c x =>
    exact ⟨by simpa [Instr.bare, Instr.sendsNow] using hi, fun s => ⟨rfl, rfl, rfl⟩⟩
  | sendStarted | sendCompletion => cases hi
  | _ => exact ⟨rfl, fun s => ⟨rfl, rfl, rfl⟩⟩

theorem Bare.countP {is : List Instr} (hb : Bare is) (s : SessionId) : is.countP (Instr.flushStartOf s) = 0 ∧
    is.countP (Instr.sendStartedOf s) = 0 ∧ is.countP (Instr.sendCompletionOf s) = 0 := by
  simp only [List.countP_eq_zero]
  refine ⟨fun i hi => ?_, fun i hi => ?_, fun i hi => ?_⟩
  all_goals simp [(sends_of_bare (hb i hi)).2 s]

theorem bare_call {c : Call} (hc : c ≠ .sendRequest) (x : SessionId) :
    Bare (c.body .homework6 x) ∧ Bare (c.notConnected .homework6 x) ∧ Bare (c.granted .homework6 x) ∧
      Bare (c.refused .homework6 x) := by
  cases c <;> simp at hc <;>
    simp [Call.body, Call.notConnected, Call.onFalse, Call.granted, Call.refused, Call.enter, Call.leave,
      Call.locks, Instr.bare, Instr.sendsNow]

theorem bare_flushTest (data : Bool) (ses : ClientSession) (x : SessionId) : Bare (flushTest data ses x) := by
  unfold flushTest
  split <;> split <;> simp [Instr.bare, Instr.sendsNow]

theorem bare_afterFailure (c : Call) (x : SessionId) : Bare (c.afterFailure .homework6 x) := by
  cases c <;>
    simp [Call.afterFailure, Call.onFalse, Call.leave, Call.locks, Instr.bare, Instr.sendsNow]

theorem bare_started {c : Call} (hc : c ≠ .flushSend) (x : SessionId) : Bare (c.started .homework6 x) := by
  cases c <;> simp at hc <;>
    simp [Call.started, Call.leave, Call.locks, Instr.bare, Instr.sendsNow]

/-- Only `FlushSend` sends, and nothing leads to a `SendCompletion`. -/
theorem exec_bare (hi : i.sendsNow = false) (he : v.exec .homework6 answer i = some (v', next)) :
    Bare next ∨ (∃ s, i = .newContext .flushSend s ∧ next = [.startIo .flushSend s]) ∨
      ∃ s, i = .startIo .flushSend s ∧ answer = true ∧ next = [.sendStarted s] := by
  cases i with
  | isConnected c x =>
    have hc : c ≠ .sendRequest := by simpa [Instr.sendsNow] using hi
    cases he
    left
    split
    · exact (bare_call hc x).1
    · exact (bare_call hc x).2.1
  | bufferTest c x =>
    have hc : c ≠ .sendRequest := by simpa [Instr.sendsNow] using hi
    cases he
    left
    split
    · exact bare_flushTest answer _ x
    · split
      · exact (bare_call hc x).2.2.1
      · exact (bare_call hc x).2.2.2
  | startIo c x =>
    simp only [exec] at he
    split at he
    next ha =>
      cases he
      by_cases hc : c = .flushSend
      · subst hc; exact .inr (.inr ⟨x, rfl, ha, rfl⟩)
      · exact .inl (bare_started hc x)
    · split at he <;> cases he
      · exact .inl bare_nil
      · left
        rw [bare_cons]
        exact ⟨rfl, bare_afterFailure c x⟩
  | newContext c x =>
    simp only [exec, addRef, crash] at he
    by_cases hc : c = .flushSend
    · subst hc
      split at he <;> cases he
      · exact .inr (.inl ⟨x, rfl, rfl⟩)
      · exact .inl (by simp [Instr.bare, Instr.sendsNow])
    · left
      split at he <;> cases he <;> cases c <;> simp_all [Instr.bare, Instr.sendsNow]
  | issueAddRef x =>
    simp only [exec, addRef, crash] at he
    left
    split at he <;> cases he <;> simp [Instr.bare, Instr.sendsNow]
  | deleteContext x | disconnectCompletion x =>
    simp only [exec, releaseRef, crash] at he
    left
    split at he
    · cases he; simp [Instr.bare, Instr.sendsNow]
    · split at he <;> cases he <;> simp [Instr.bare, Instr.sendsNow]
  | returning p x =>
    left
    cases p <;> simp only [exec, returnClientSession, crash] at he <;> (try split at he) <;> cases he <;>
      simp [Instr.bare, Instr.sendsNow]
  | acceptSession =>
    simp only [exec, acceptSession, crash] at he
    left
    split at he
    · split at he <;> cases he <;> simp [Instr.bare, Instr.sendsNow]
    · cases he; simp [Instr.bare, Instr.sendsNow]
  | feedLoop n =>
    left
    cases n <;> cases he
    · simp
    · split <;> simp [Instr.bare, Instr.sendsNow]
  | disconnectRequest | enterLock | acceptCompletion | startAccept | feedTest =>
    simp only [exec, crash] at he
    left
    split at he <;> cases he <;> simp [Instr.bare, Instr.sendsNow]
  | sendStarted x | socketSetup x | echoBack x =>
    cases he
    left
    split <;> simp [connectedClient, Instr.bare, Instr.sendsNow]
  | _ => cases he; simp [Instr.bare, Instr.sendsNow]

end Server

/-- A send is counted at once, and a `SendCompletion` runs with the lock and
before its context is deleted. -/
def InOrder : List Instr → Prop
  | [] => True
  | i :: rest => i.sendsNow = false ∧
    (∀ s, i = .sendCompletion s → rest.head? = some (.leaveLock s) ∧ .deleteContext s ∈ rest) ∧
    (∀ j ∈ rest, ∀ s, j.sendStartedOf s = false) ∧ InOrder rest

theorem InOrder.append {next rest : List Instr} (hb : Server.Bare next) (hr : InOrder rest)
    (hs : ∀ j ∈ rest, ∀ s, j.sendStartedOf s = false) : InOrder (next ++ rest) := by
  induction next with
  | nil => exact hr
  | cons i next ih =>
    rw [Server.bare_cons] at hb
    refine ⟨(Server.sends_of_bare hb.1).1, fun s hi => ?_, fun j hj s => ?_, ih hb.2⟩
    · have hc := ((Server.sends_of_bare hb.1).2 s).2.2
      simp [hi, Instr.sendCompletionOf] at hc
    · rcases List.mem_append.1 hj with hj | hj
      · exact ((Server.sends_of_bare (hb.2 j hj)).2 s).2.1
      · exact hs j hj s

theorem InOrder.of_bare {is : List Instr} (hb : Server.Bare is) : InOrder is := by
  have h : InOrder (is ++ []) := InOrder.append hb trivial (by simp)
  rwa [List.append_nil] at h

/-- Whoever processes a completion holds its context. -/
theorem InOrder.owns {todo : List Instr} (ho : InOrder todo) {s : SessionId} (hs : .sendCompletion s ∈ todo) :
    .deleteContext s ∈ todo := by
  induction todo with
  | nil => cases hs
  | cons i rest ih =>
    apply List.mem_cons_of_mem
    rcases List.mem_cons.1 hs with rfl | hs
    · exact (ho.2.1 s rfl).2
    · exact ih ho.2.2.2 hs

theorem InOrder.head_of_sendStarted {todo : List Instr} (ho : InOrder todo) {i : Instr} {s : SessionId} (hi : i ∈ todo)
    (hs : i.sendStartedOf s) : todo.head? = some (.sendStarted s) := by
  cases todo with
  | nil => cases hi
  | cons j rest =>
    rcases List.mem_cons.1 hi with rfl | hi
    · cases i <;> simp [Instr.sendStartedOf] at hs
      subst hs
      rfl
    · rw [ho.2.2.1 i hi s] at hs
      cases hs

namespace Server

variable {v v' : Server} {answer : Bool} {i : Instr} {next : List Instr}

/-- By how much mSendPendingCount exceeds the pending sends. -/
def overcount (v : Server) (s : SessionId) : Int :=
  (v.session s).mSendPendingCount + v.starting s - v.sendContexts s

theorem inOrder_handler (c : Completion) (job : Job) : InOrder (handler .homework6 c job) := by
  cases job with
  | io ty s =>
    cases ty <;> rcases c with _ | _ | ⟨_ | _, calls⟩ <;>
      simp [handler, ioCompletion, sendCompletion, recvCompletion, InOrder, Instr.sendsNow, Instr.sendStartedOf]
  | db s | dbRequest s => simp [handler, dbCompletion, InOrder, Instr.sendsNow]

/-- What a step of thread `t` does to a tally over the instructions. -/
theorem tally_step {w : Server} {t : Nat} {th : Thread} {rest : List Instr} (p : Instr → Bool) (next : List Instr)
    (list : List SessionId) (ht : v.threads[t]? = some th) (htodo : th.todo = i :: rest) (hw : w.threads = v.threads) :
    tally p (w.setThread t ⟨th.type, next ++ rest, list⟩).todos + (p i).toNat = tally p v.todos + next.countP p := by
  have hget : v.todos[t]? = some (i :: rest) := by simp [todos, ht, htodo]
  have hset : (w.setThread t ⟨th.type, next ++ rest, list⟩).todos = v.todos.set t (next ++ rest) := by
    simp [todos, setThread, hw, List.map_set]
  rw [hset, tally_set hget, tally_eq_erase hget, List.countP_append, List.countP_cons]
  cases p i <;> simp <;> omega

theorem tally_assign {p : Instr → Bool} {w : Server} {t : Nat} {th : Thread} {todo : List Instr}
    (ht : v.threads[t]? = some th) (htodo : th.todo = []) (hw : w.threads = v.threads) :
    tally p (w.assign t th todo).todos = tally p v.todos + todo.countP p := by
  have hget : v.todos[t]? = some [] := by simp [todos, ht, htodo]
  have hset : (w.assign t th todo).todos = v.todos.set t todo := by simp [todos, assign, setThread, hw, List.map_set]
  rw [hset, tally_set hget, tally_eq_erase hget, List.countP_nil, Nat.add_zero]

theorem pending_modify {x : SessionId} {f : ClientSession → ClientSession}
    (hf : ∀ ses, (f ses).mSendPendingCount = ses.mSendPendingCount) (s : SessionId) :
    ((v.modify x f).session s).mSendPendingCount = (v.session s).mSendPendingCount := by
  rw [modify_session]
  split
  next hx => rw [hf, hx]
  · rfl

/-- Only `FlushSend` and `SendCompletion` write the counter. -/
theorem exec_mSendPendingCount {h : Homework} (he : v.exec h answer i = some (v', next)) (s : SessionId) :
    (v'.session s).mSendPendingCount + (i.sendCompletionOf s).toNat =
      (v.session s).mSendPendingCount + (i.sendStartedOf s).toNat := by
  have hsame {w : Server} (hi : i.sendCompletionOf s = false ∧ i.sendStartedOf s = false)
      (hw : (w.session s).mSendPendingCount = (v.session s).mSendPendingCount) :
      (w.session s).mSendPendingCount + (i.sendCompletionOf s).toNat =
        (v.session s).mSendPendingCount + (i.sendStartedOf s).toNat := by
    rw [hi.1, hi.2, hw]
  have hmodify {x : SessionId} {f : ClientSession → ClientSession}
      (hf : ∀ ses, (f ses).mSendPendingCount = ses.mSendPendingCount)
      (hi : i.sendCompletionOf s = false ∧ i.sendStartedOf s = false) :
      ((v.modify x f).session s).mSendPendingCount + (i.sendCompletionOf s).toNat =
        (v.session s).mSendPendingCount + (i.sendStartedOf s).toNat := hsame hi (pending_modify hf s)
  cases i with
  | sendStarted x | sendCompletion x =>
    cases he
    by_cases hx : s = x
    · subst hx
      simp [Instr.sendStartedOf, Instr.sendCompletionOf]
    · have hx' : x ≠ s := fun e => hx e.symm
      simp [Instr.sendStartedOf, Instr.sendCompletionOf, hx, hx']
  | newContext | issueAddRef =>
    simp only [exec, addRef, crash] at he
    split at he <;> cases he
    · exact hmodify (fun _ => rfl) ⟨rfl, rfl⟩
    · exact hsame ⟨rfl, rfl⟩ rfl
  | deleteContext | disconnectCompletion =>
    simp only [exec, releaseRef, crash] at he
    split at he
    · cases he; exact hsame ⟨rfl, rfl⟩ rfl
    · split at he <;> cases he <;> exact hmodify (fun _ => rfl) ⟨rfl, rfl⟩
  | returning p x =>
    cases p <;> simp only [exec, returnClientSession, crash] at he <;> (try split at he) <;> cases he <;>
      first | exact hsame ⟨rfl, rfl⟩ rfl | exact hmodify (fun _ => rfl) ⟨rfl, rfl⟩
  | acceptSession =>
    simp only [exec, acceptSession, crash] at he
    split at he
    · split at he <;> cases he
      · exact hsame ⟨rfl, rfl⟩ rfl
      next y rest hf =>
        refine hsame ⟨rfl, rfl⟩ ?_
        rw [pending_modify]
        intro ses
        rfl
    · cases he; exact hsame ⟨rfl, rfl⟩ rfl
  | startIo =>
    simp only [exec] at he
    split at he
    · cases he; exact hsame ⟨rfl, rfl⟩ rfl
    · split at he <;> cases he <;> exact hsame ⟨rfl, rfl⟩ rfl
  | feedLoop n => cases n <;> cases he <;> exact hsame ⟨rfl, rfl⟩ rfl
  | disconnectRequest | enterLock | acceptCompletion | startAccept | feedTest =>
    simp only [exec, crash] at he
    split at he <;> cases he <;>
      first | exact hsame ⟨rfl, rfl⟩ rfl | exact hmodify (fun _ => rfl) ⟨rfl, rfl⟩
  | leaveLock => cases he; exact hmodify (fun _ => rfl) ⟨rfl, rfl⟩
  | _ => cases he; exact hsame ⟨rfl, rfl⟩ rfl

/-- The sends posted by a step, and those it is to count. -/
theorem exec_sends (hi : i.sendsNow = false) (he : v.exec .homework6 answer i = some (v', next)) (s : SessionId) :
    v'.posted.countP (· = .io .send s) =
        v.posted.countP (· = .io .send s) + next.countP (Instr.sendStartedOf s) ∧
      next.countP (Instr.sendCompletionOf s) = 0 := by
  have hn := exec_bare hi he
  rcases exec_posted he with hp | ⟨c, x, rfl, hp⟩
  · rcases hn with hb | ⟨x, rfl, rfl⟩ | ⟨x, rfl, ha, rfl⟩
    · simp [hp, hb.countP s]
    · simp [hp, Instr.sendStartedOf, Instr.sendCompletionOf]
    · simp [exec, ha] at he
      simp [← he.1] at hp
  · rw [hp, List.countP_append, List.countP_singleton]
    rcases hn with hb | ⟨y, hy, -⟩ | ⟨y, hy, -, rfl⟩
    · have hc : c ≠ .flushSend := by
        rintro rfl
        simp only [exec] at he
        split at he
        · cases he
          cases hb _ List.mem_cons_self
        · simp only [Call.strands, Bool.false_eq_true, if_false] at he
          cases he
          simp at hp
      have hjob : c.job x ≠ .io .send s := by
        cases c <;> simp [Instr.sendsNow] at hi hc <;> simp [Call.job]
      simp [hjob, hb.countP s]
    · cases hy
    · cases hy
      by_cases hx : x = s <;> simp [Call.job, Instr.sendStartedOf, Instr.sendCompletionOf, hx]

/-! ## The counter is never behind -/

/-- What holds of the sends in every run of Homework6. -/
structure Flushed (v : Server) : Prop where
  locked : v.Locked .homework6
  order : ∀ th ∈ v.threads, InOrder th.todo
  overcount : ∀ s, 0 ≤ v.overcount s
  pending : ∀ s, 0 ≤ (v.session s).mSendPendingCount

theorem setThread_inOrder {w : Server} {t : Nat} {th : Thread} (hv : ∀ th ∈ v.threads, InOrder th.todo)
    (hw : w.threads = v.threads) (ho : InOrder th.todo) : ∀ th' ∈ (w.setThread t th).threads, InOrder th'.todo := by
  unfold setThread
  rw [hw]
  exact forall_set hv ho

theorem step_inOrder {a : Action} (hv : ∀ th ∈ v.threads, InOrder th.todo) (hs : v.step .homework6 a = some v') :
    ∀ th ∈ v'.threads, InOrder th.todo := by
  cases a with
  | run t answer =>
    obtain ⟨-, th, i, rest, w, next, ht, htodo, he, rfl⟩ := step_run hs
    have ho : InOrder (i :: rest) := htodo ▸ hv th (List.mem_of_getElem? ht)
    apply setThread_inOrder hv (exec_threads he)
    rcases exec_bare ho.1 he with hb | ⟨s, rfl, rfl⟩ | ⟨s, rfl, -, rfl⟩
    · exact ho.2.2.2.append hb ho.2.2.1
    · exact ⟨rfl, by simp, ho.2.2.1, ho.2.2.2⟩
    · exact ⟨rfl, by simp, ho.2.2.1, ho.2.2.2⟩
  | dequeue t i c =>
    obtain ⟨-, th, job, -, -, -, -, ⟨-, rfl⟩ | ⟨-, rfl⟩⟩ := step_dequeue hs
    · exact hv
    · exact setThread_inOrder (w := { v with posted := v.posted.eraseIdx i }) hv rfl (inOrder_handler c job)
  | doSendJob t =>
    obtain ⟨-, th, x, list, -, -, -, rfl⟩ := step_doSendJob hs
    exact setThread_inOrder hv rfl (.of_bare (by simp [Instr.bare, Instr.sendsNow]))
  | doDatabaseJob i ok =>
    obtain ⟨-, x, -, rfl⟩ := step_doDatabaseJob hs
    cases ok <;> exact hv
  | disconnectRequest t x =>
    obtain ⟨-, th, -, -, rfl⟩ := step_disconnectRequest hs
    exact setThread_inOrder hv rfl (.of_bare (by simp [Instr.bare, Instr.sendsNow]))

theorem countP_handler_sends (c : Completion) (job : Job) (s : SessionId) :
    (handler .homework6 c job).countP (Instr.sendStartedOf s) = 0 ∧
      (handler .homework6 c job).countP (Instr.sendCompletionOf s) =
        match job, c with
        | .io .send x, .done _ _ => if x = s then 1 else 0
        | _, _ => 0 := by
  cases job with
  | io ty x =>
    cases ty <;> rcases c with _ | _ | ⟨_ | _, calls⟩ <;>
      simp [handler, ioCompletion, sendCompletion, recvCompletion, List.countP_cons, Instr.sendStartedOf,
        Instr.sendCompletionOf]
  | db x | dbRequest x =>
    simp [handler, dbCompletion, Instr.sendStartedOf, Instr.sendCompletionOf]

theorem overcount_assign {t : Nat} {th : Thread} {todo : List Instr} (ht : v.threads[t]? = some th)
    (htodo : th.todo = []) (hb : Bare todo) (s : SessionId) : (v.assign t th todo).overcount s = v.overcount s := by
  obtain ⟨-, hs, hc⟩ := hb.countP s
  simp only [overcount, starting, sendContexts, tally_assign (w := v) ht htodo rfl, hs, hc]
  rfl

/-- The counter gets ahead by one with each send that ends without a
`SendCompletion`, and in no other way. -/
theorem step_overcount {a : Action} (hv : ∀ th ∈ v.threads, InOrder th.todo) (hs : v.step .homework6 a = some v')
    (s : SessionId) : v'.overcount s = v.overcount s + if v.lostSend a = some s then 1 else 0 := by
  cases a with
  | run t answer =>
    obtain ⟨-, th, i, rest, w, next, ht, htodo, he, rfl⟩ := step_run hs
    have ho : InOrder (i :: rest) := htodo ▸ hv th (List.mem_of_getElem? ht)
    have hcount := exec_mSendPendingCount he s
    obtain ⟨hposted, hnext⟩ := exec_sends ho.1 he s
    have hstart := tally_step (Instr.sendStartedOf s) next (i.sendRequests th.LSendRequestSessionList) ht htodo (exec_threads he)
    have hend := tally_step (Instr.sendCompletionOf s) next (i.sendRequests th.LSendRequestSessionList) ht htodo (exec_threads he)
    simp only [overcount, starting, sendContexts, lostSend, reduceCtorEq, if_false]
    simp only [setThread] at hstart hend ⊢
    omega
  | dequeue t i c =>
    obtain ⟨-, th, job, ht, htodo, hj, -, ⟨hl, -⟩ | ⟨-, rfl⟩⟩ := step_dequeue hs
    · cases c <;> simp [Completion.lost] at hl
    · have hp := countP_eraseIdx hj fun j => decide (j = .io .send s)
      obtain ⟨hs', hc⟩ := countP_handler_sends c job s
      simp only [overcount, starting, sendContexts,
        tally_assign (w := { v with posted := v.posted.eraseIdx i }) ht htodo rfl, hs', hc]
      simp only [assign, setThread]
      rw [hp]
      cases job with
      | io ty x =>
        by_cases hx : x = s
        · subst hx
          cases ty <;> cases c <;> simp [lostSend, hj] <;> omega
        · cases ty <;> cases c <;> simp [lostSend, hj, hx]
      | db x | dbRequest x => cases c <;> simp [lostSend, hj]
  | doSendJob t =>
    obtain ⟨-, th, x, list, ht, htodo, -, rfl⟩ := step_doSendJob hs
    rw [overcount_assign ht htodo (by simp [Instr.bare, Instr.sendsNow])]
    simp [lostSend]
  | doDatabaseJob i ok =>
    obtain ⟨-, x, hj, rfl⟩ := step_doDatabaseJob hs
    have hp : (v.posted.set i (.db x)).countP (· = .io .send s) = v.posted.countP (· = .io .send s) :=
      countP_set_of_eq hj (by simp)
    cases ok <;> simp [overcount, starting, sendContexts, todos, lostSend, hp]
  | disconnectRequest t x =>
    obtain ⟨-, th, ht, htodo, rfl⟩ := step_disconnectRequest hs
    rw [overcount_assign ht htodo (by simp [Instr.bare, Instr.sendsNow])]
    simp [lostSend]

/-- Nobody is counting a send of the session while `SendCompletion` runs on it. -/
theorem starting_eq_zero {t : Nat} {th : Thread} {rest : List Instr} {s : SessionId} (hv : v.Flushed)
    (ht : v.threads[t]? = some th) (htodo : th.todo = .sendCompletion s :: rest) : v.starting s = 0 := by
  apply tally_todos_eq_zero
  intro th' hth' j hj hstarted
  obtain ⟨t', ht'⟩ := List.getElem?_of_mem hth'
  have ho : InOrder (.sendCompletion s :: rest) := htodo ▸ hv.order th (List.mem_of_getElem? ht)
  have hhead := (hv.order th' hth').head_of_sendStarted hj hstarted
  obtain ⟨l, hl⟩ := Option.isSome_iff_exists.1 (hv.locked.held th (List.mem_of_getElem? ht))
  obtain ⟨l', hl'⟩ := Option.isSome_iff_exists.1 (hv.locked.held th' hth')
  -- both threads hold the buffer lock
  have hmem : .buffer s ∈ l := by
    obtain ⟨rest', rfl⟩ := List.head?_eq_some_iff.1 (ho.2.1 s rfl).1
    rw [htodo, held, heldBefore_cons, heldBefore_cons] at hl
    obtain ⟨l₁, h₁, hl⟩ := Option.bind_eq_some_iff.1 hl
    obtain ⟨l₂, -, h₁⟩ := Option.bind_eq_some_iff.1 h₁
    cases h₁
    cases hl
    exact List.mem_cons_self
  have hmem' : .buffer s ∈ l' := by
    obtain ⟨rest', htodo'⟩ := List.head?_eq_some_iff.1 hhead
    rw [htodo', held, heldBefore_cons] at hl'
    obtain ⟨l₁, -, hl'⟩ := Option.bind_eq_some_iff.1 hl'
    cases hl'
    exact List.mem_cons_self
  have heq := holder_unique hv.locked ht ht' hl hl' hmem hmem'
  subst heq
  rw [ht] at ht'
  cases ht'
  rw [htodo] at hhead
  cases hhead

theorem step_pending {a : Action} (hv : v.Flushed) (hs : v.step .homework6 a = some v') (s : SessionId) :
    0 ≤ (v'.session s).mSendPendingCount := by
  have hpos := hv.pending s
  cases a with
  | run t answer =>
    obtain ⟨-, th, i, rest, w, next, ht, htodo, he, rfl⟩ := step_run hs
    have hcount := exec_mSendPendingCount he s
    by_cases hi : i = .sendCompletion s
    · subst hi
      have hzero := starting_eq_zero hv ht htodo
      have hover := hv.overcount s
      have hmem : Instr.sendCompletion s ∈ th.todo := htodo ▸ List.mem_cons_self
      have hle : th.todo.countP (Instr.sendCompletionOf s) ≤ tally (Instr.sendCompletionOf s) v.todos :=
        countP_le_tally (List.mem_map_of_mem (List.mem_of_getElem? ht))
      have hone : 0 < th.todo.countP (Instr.sendCompletionOf s) :=
        List.countP_pos_iff.2 ⟨_, hmem, by simp [Instr.sendCompletionOf]⟩
      simp only [overcount, sendContexts] at hover
      simp only [Instr.sendCompletionOf, Instr.sendStartedOf, decide_true, Bool.toNat_true, Bool.toNat_false] at hcount
      show 0 ≤ (w.session s).mSendPendingCount
      omega
    · have hno : i.sendCompletionOf s = false := by
        cases i <;> simp [Instr.sendCompletionOf] at hi ⊢
        exact hi
      rw [hno] at hcount
      show 0 ≤ (w.session s).mSendPendingCount
      simp only [Bool.toNat_false] at hcount
      omega
  | dequeue t i c =>
    obtain ⟨-, th, job, -, -, -, -, ⟨-, rfl⟩ | ⟨-, rfl⟩⟩ := step_dequeue hs <;> exact hpos
  | doSendJob t =>
    obtain ⟨-, th, x, list, -, -, -, rfl⟩ := step_doSendJob hs
    exact hpos
  | doDatabaseJob i ok =>
    obtain ⟨-, x, -, rfl⟩ := step_doDatabaseJob hs
    cases ok <;> exact hpos
  | disconnectRequest t x =>
    obtain ⟨-, th, -, -, rfl⟩ := step_disconnectRequest hs
    exact hpos

theorem step_flushed {a : Action} (hv : v.Flushed) (hs : v.step .homework6 a = some v') : v'.Flushed where
  locked := step_locked hv.locked hs
  order := step_inOrder hv.order hs
  overcount s := by
    rw [step_overcount hv.order hs s]
    have hle := hv.overcount s
    split <;> omega
  pending := step_pending hv hs

theorem start_bare {n : Nat} {th : Thread} (hth : th ∈ (start .homework6 n).threads) : Bare th.todo := by
  rcases start_todo hth with h0 | h0 | h0 <;> rw [h0] <;> simp [Instr.bare, Instr.sendsNow]

theorem start_overcount (n : Nat) (s : SessionId) : (start .homework6 n).overcount s = 0 := by
  have hstart : (start .homework6 n).starting s = 0 :=
    tally_todos_eq_zero fun th hth i hi => by simp [(sends_of_bare (start_bare hth i hi)).2 s]
  have hend : tally (Instr.sendCompletionOf s) (start .homework6 n).todos = 0 :=
    tally_todos_eq_zero fun th hth i hi => by simp [(sends_of_bare (start_bare hth i hi)).2 s]
  rw [overcount, sendContexts, hstart, hend]
  simp [start, ClientSession.new]

theorem start_flushed (n : Nat) : (start .homework6 n).Flushed where
  locked := start_locked n
  order th hth := .of_bare (start_bare hth)
  overcount s := (start_overcount n s).ge
  pending s := by simp [start, ClientSession.new]

/-- In every run of Homework6 the counter is at least the number of pending
sends. -/
theorem run_flushed {n : Nat} {as : List Action} (hr : run (step .homework6) (start .homework6 n) as = some v) :
    v.Flushed := inv_of_run (fun _ _ _ hv hs => step_flushed hv hs) (start_flushed n) hr

/-! ## The counter is exact -/

/-- The contexts of `FlushSend` from their construction on. -/
def flushing (v : Server) (s : SessionId) : Nat := tally (Instr.flushStartOf s) v.todos + v.sendContexts s

/-- Without references there are no contexts of `FlushSend` either. -/
theorem flushing_eq_zero {s : SessionId} (hv : ∀ th ∈ v.threads, InOrder th.todo) (ht : (v.books s).tokens = 0) :
    v.flushing s = 0 := by
  rw [books_tokens, liveContexts, Nat.add_eq_zero_iff, Nat.add_eq_zero_iff] at ht
  obtain ⟨⟨howns, hposted⟩, -⟩ := ht
  have hnone {th : Thread} (hth : th ∈ v.threads) {i : Instr} (hi : i ∈ th.todo) : ¬ i.owns s :=
    tally_eq_zero.1 howns _ (List.mem_map_of_mem hth) i hi
  have hflush : tally (Instr.flushStartOf s) v.todos = 0 := by
    refine tally_todos_eq_zero fun th hth i hi hf => hnone hth hi ?_
    cases i with
    | startIo c x => cases c <;> simp [Instr.flushStartOf] at hf; exact decide_eq_true hf
    | _ => cases hf
  have hend : tally (Instr.sendCompletionOf s) v.todos = 0 := by
    refine tally_todos_eq_zero fun th hth i hi hc => ?_
    cases i <;> simp [Instr.sendCompletionOf] at hc
    subst hc
    exact hnone hth ((hv th hth).owns hi) (by simp [Instr.owns])
  have hsend : v.posted.countP (· = .io .send s) = 0 := by
    rw [List.countP_eq_zero] at hposted ⊢
    intro job hjob hs
    rw [decide_eq_true_eq] at hs
    exact hposted job hjob (by simp [hs, Job.owner])
  simp only [flushing, sendContexts, hflush, hend, hsend]

/-- A context of `FlushSend` is new only after the `AddRef` of its constructor. -/
theorem step_flushing {a : Action} (hv : ∀ th ∈ v.threads, InOrder th.todo) (hs : v.step .homework6 a = some v')
    (s : SessionId) : v'.flushing s ≤ v.flushing s ∨
      ∃ t answer, a = .run t answer ∧ v.next t = some (.newContext .flushSend s) := by
  cases a with
  | run t answer =>
    obtain ⟨-, th, i, rest, w, next, ht, htodo, he, rfl⟩ := step_run hs
    by_cases hi : i = .newContext .flushSend s
    · subst hi
      exact .inr ⟨t, answer, rfl, by simp [Server.next, ht, htodo]⟩
    · left
      have ho : InOrder (i :: rest) := htodo ▸ hv th (List.mem_of_getElem? ht)
      obtain ⟨hposted, hnext⟩ := exec_sends ho.1 he s
      have hflush := tally_step (Instr.flushStartOf s) next (i.sendRequests th.LSendRequestSessionList) ht htodo (exec_threads he)
      have hend := tally_step (Instr.sendCompletionOf s) next (i.sendRequests th.LSendRequestSessionList) ht htodo (exec_threads he)
      have hle : next.countP (Instr.flushStartOf s) + next.countP (Instr.sendStartedOf s) ≤
          (i.flushStartOf s).toNat := by
        rcases exec_bare ho.1 he with hb | ⟨x, rfl, rfl⟩ | ⟨x, rfl, -, rfl⟩
        · simp [hb.countP s]
        · have hx : x ≠ s := fun e => hi (by rw [e])
          simp [Instr.flushStartOf, Instr.sendStartedOf, hx]
        · by_cases hx : x = s <;> simp [Instr.flushStartOf, Instr.sendStartedOf, hx]
      simp only [flushing, sendContexts, setThread] at hflush hend ⊢
      omega
  | dequeue t i c =>
    obtain ⟨-, th, job, ht, htodo, hj, -, ⟨hl, -⟩ | ⟨-, rfl⟩⟩ := step_dequeue hs
    · cases c <;> simp [Completion.lost] at hl
    · left
      have hp := countP_eraseIdx hj fun j => decide (j = .io .send s)
      have hc := (countP_handler_sends c job s).2
      have hf : (handler .homework6 c job).countP (Instr.flushStartOf s) = 0 := by
        cases job with
        | io ty x =>
          cases ty <;> rcases c with _ | _ | ⟨_ | _, calls⟩ <;>
            simp [handler, ioCompletion, sendCompletion, recvCompletion, Instr.flushStartOf]
        | db x | dbRequest x => simp [handler, dbCompletion, Instr.flushStartOf]
      simp only [flushing, sendContexts,
        tally_assign (w := { v with posted := v.posted.eraseIdx i }) ht htodo rfl, hc, hf]
      simp only [assign, setThread]
      rw [hp]
      cases job with
      | io ty x =>
        by_cases hx : x = s
        · cases ty <;> cases c <;> (simp [hx]; try omega)
        · cases ty <;> cases c <;> simp [hx]
      | db x | dbRequest x => simp
  | doSendJob t =>
    obtain ⟨-, th, x, list, ht, htodo, -, rfl⟩ := step_doSendJob hs
    left
    simp only [flushing, sendContexts, tally_assign (w := v) ht htodo rfl]
    simp [Instr.flushStartOf, Instr.sendCompletionOf, assign, setThread]
  | doDatabaseJob i ok =>
    obtain ⟨-, x, hj, rfl⟩ := step_doDatabaseJob hs
    left
    have hp : (v.posted.set i (.db x)).countP (· = .io .send s) = v.posted.countP (· = .io .send s) :=
      countP_set_of_eq hj (by simp)
    cases ok <;> simp [flushing, sendContexts, todos, hp]
  | disconnectRequest t x =>
    obtain ⟨-, th, ht, htodo, rfl⟩ := step_disconnectRequest hs
    left
    simp only [flushing, sendContexts, tally_assign (w := v) ht htodo rfl]
    simp [Instr.flushStartOf, Instr.sendCompletionOf, assign, setThread]

/-- What holds while no send is lost. -/
structure Exact (v : Server) : Prop where
  consistent : v.Consistent
  flushed : v.Flushed
  overcount : ∀ s, v.overcount s = 0
  /-- A session that is not connected yet is in no `FlushSend`. -/
  opening : ∀ s, 0 < (v.books s).opening → v.running .peeking s = 0 ∧ v.flushing s = 0

theorem step_opening {a : Action} (hv : v.Exact) (hk : v.KeepsSends a) (hs : v.step .homework6 a = some v')
    (s : SessionId) (ho : 0 < (v'.books s).opening) : v'.running .peeking s = 0 ∧ v'.flushing s = 0 := by
  by_cases hc : v'.crashed = none
  · obtain ⟨hb, he⟩ := step_books hs hc s
    have hbal := hv.consistent.balanced s
    have hplace := hbal.place
    have howed := hbal.owed
    have hle := hbal.issue_le
    have hpeek := hbal.peek
    have hpeeking := hv.opening s
    rw [← books_peeking] at hpeeking ⊢
    rw [hb] at ho ⊢
    by_cases hissue : a.op .homework6 v s = .issue
    · -- the session comes from the pool, where nothing refers to it
      rw [hissue] at he ⊢
      simp only [Enabled] at he
      have htokens : (v'.books s).tokens = 0 := by
        rw [hb, hissue]
        simp only [after]
        omega
      refine ⟨?_, flushing_eq_zero (step_flushed hv.flushed hs).order htokens⟩
      simp only [after]
      omega
    · have hopen : 0 < (v.books s).opening := by
        generalize a.op .homework6 v s = o at ho hissue he
        cases o <;> simp only [after, release, Enabled] at ho he hissue <;>
          first | contradiction | omega | (split at ho <;> exact ho)
      obtain ⟨hpeek0, hflush0⟩ := hpeeking hopen
      constructor
      · generalize a.op .homework6 v s = o at he
        cases o <;> simp only [after, release, Enabled] at he ⊢ <;> first | omega | (split <;> exact hpeek0)
      · rcases step_flushing hv.flushed.order hs s with hf | ⟨t, answer, rfl, hn⟩
        · omega
        · obtain ⟨th, rest, ht, htodo⟩ := next_eq hn
          have hmem : Instr.newContext .flushSend s ∈ th.todo := htodo ▸ List.mem_cons_self
          have hpos : 0 < (v.books s).peeking :=
            marked_pos .peeking ht hmem rfl (by simp [Instr.marks, Call.peeks])
          omega
  · rw [step_crash hs hc] at ho ⊢
    exact hv.opening s ho

theorem step_exact {a : Action} (hv : v.Exact) (hk : v.KeepsSends a) (hs : v.step .homework6 a = some v') : v'.Exact where
  consistent := step_consistent hv.consistent hk.1 hs
  flushed := step_flushed hv.flushed hs
  overcount s := by rw [step_overcount hv.flushed.order hs s, hk.2, hv.overcount s]; rfl
  opening := step_opening hv hk hs

theorem start_exact (n : Nat) : (start .homework6 n).Exact where
  consistent := start_consistent .homework6 n
  flushed := start_flushed n
  overcount := start_overcount n
  opening s hs := by
    have howed := ((start_consistent .homework6 n).balanced s).owed
    have hissue : ((start .homework6 n).books s).issue = 0 := rfl
    omega

theorem pendingCounted_of_exact (hv : v.Exact) : v.PendingCounted := by
  have hcount (s : SessionId) : (v.session s).mSendPendingCount + v.starting s = v.sendContexts s := by
    have hzero := hv.overcount s
    rw [overcount] at hzero
    omega
  -- the counter is not negative, so without contexts it is 0
  have hnone {s : SessionId} (hf : v.flushing s = 0) : (v.session s).mSendPendingCount = 0 := by
    have hs := hcount s
    have hpos := hv.flushed.pending s
    rw [flushing] at hf
    omega
  refine ⟨hcount, fun s hs => ?_, fun s th hth hs => ?_⟩
  · have hplace := (hv.consistent.balanced s).place
    have hl : (v.books s).listed = v.mFreeSessionList.count s := rfl
    have hpos := List.count_pos_iff.2 hs
    exact hnone (flushing_eq_zero hv.flushed.order (by omega))
  · obtain ⟨t, ht⟩ := List.getElem?_of_mem hth
    have hpos : 0 < (v.books s).opening := marked_pos .opening ht hs rfl (by simp [Instr.marks])
    exact hnone (hv.opening s hpos).2

/-- The pending sends of Homework6, over every run that loses no send. -/
theorem pending_counted (n : Nat) (as : List Action)
    (hm : Meets (step .homework6) KeepsSends (start .homework6 n) as)
    (hr : run (step .homework6) (start .homework6 n) as = some v) : v.PendingCounted :=
  pendingCounted_of_exact (inv_of_meets (fun _ _ _ hv hk hs => step_exact hv hk hs) (start_exact n) hm hr)

theorem pending_counted_echoSent : ∃ v, run (step .homework6) (start .homework6 2) echoSent = some v ∧
    (v.session firstClient).returned = 1 ∧ v.PendingCounted := by
  have hmap : (run (step .homework6) (start .homework6 2) echoSent).map
      (fun v => (v.session firstClient).returned) = some 1 := by decide +kernel
  obtain ⟨v, hr, hret⟩ := Option.map_eq_some_iff.1 hmap
  exact ⟨v, hr, hret, pending_counted 2 echoSent (by decide +kernel) hr⟩

/-- The echo is sent, its completion and the receive report an error, and the
client is disconnected. -/
def sendFails : List Action :=
  echoQueued ++ [.doSendJob 1] ++ steps 1 8 ++ [.dequeue 1 1 .failed] ++ steps 1 4 ++
    [.dequeue 1 0 .failed] ++ steps 1 3 ++ [.dequeue 1 0 (.done true [])] ++ steps 1 11

/-- The session is free again, and its counter is still 1. -/
theorem pending_left : ∃ v, run (step .homework6) (start .homework6 1) sendFails = some v ∧
    firstClient ∈ v.mFreeSessionList ∧ (v.session firstClient).mSendPendingCount = 1 ∧
    v.sendContexts firstClient = 0 ∧ ¬ v.PendingCounted := by
  have hmap : (run (step .homework6) (start .homework6 1) sendFails).map
      (fun v => (v.mFreeSessionList.head?, (v.session firstClient).mSendPendingCount, v.sendContexts firstClient)) =
        some (some firstClient, 1, 0) := by decide +kernel
  obtain ⟨v, hr, hv⟩ := Option.map_eq_some_iff.1 hmap
  simp only [Prod.mk.injEq] at hv
  obtain ⟨hfree, hcount, hcontexts⟩ := hv
  have hmem := List.mem_of_head? hfree
  refine ⟨v, hr, hmem, hcount, hcontexts, fun hp => ?_⟩
  have hzero := hp.free firstClient hmem
  omega

end Server

end GameServer.Lifecycle
