import GameServer.Lib.LockStack
import GameServer.Lifecycle.Consistent
/-!
# Who holds which lock

The session manager's lock and the buffer lock of each session, read off what
the threads have left to do: `held` is the stack of locks that a thread with a
given continuation holds. Every step turns it by at most one lock
(`exec_held`), so a lock is held by at most one thread (`step_locked`).
-/

namespace GameServer.Lifecycle

open Lib

inductive Lock where
  /-- mLock of the session manager. -/
  | manager
  | buffer (s : SessionId)
  deriving DecidableEq

/-- The locks held before the instruction by a thread that holds `l` when it is
done with it and with all it leads to, the last one taken first. -/
@[grind =] def Instr.held (h : Homework) (l : List Lock) : Instr → Option (List Lock)
  | .enterLock s => if l.head? = some (.buffer s) then some l.tail else none
  | .leaveLock s | .sendStarted s => some (.buffer s :: l)
  | .bufferTest c s => some (if c.locks h then .buffer s :: l else l)
  | .newContext c s | .startIo c s =>
    some (if c.locks h then .buffer s :: l else if c = .postAccept then .manager :: l else l)
  | .returning .enter _ => some l
  | .returning .leaveSendLock s => some (.buffer s :: .manager :: l)
  | .returning _ _ | .leaveManagerLock | .acceptSession | .issueAddRef _ => some (.manager :: l)
  | .disconnectRequest _ | .isConnected _ _ | .sendCompletion _ | .pushSendRequest _ | .popSendRequest
  | .echoBack _ | .acceptCompletion _ | .socketSetup _ | .subscribeFeed _ | .disconnectCompletion _
  | .deleteContext _ | .startAccept | .feedGeneration | .feedLoop _ | .feedTest _ _ => some l

/-- The locks held by a thread that has the instructions left and will then hold `l`. -/
def heldBefore (h : Homework) (l : List Lock) (is : List Instr) : Option (List Lock) :=
  prior (fun l i => i.held h l) l is

/-- The locks that a thread with the continuation holds. -/
def held (h : Homework) (todo : List Instr) : Option (List Lock) := heldBefore h [] todo

theorem heldBefore_append (h : Homework) (l : List Lock) (is js : List Instr) :
    heldBefore h l (is ++ js) = (heldBefore h l js).bind fun l' => heldBefore h l' is :=
  prior_append

namespace Server

variable {h : Homework} {v v' : Server} {answer : Bool} {i : Instr} {next : List Instr} {l : List Lock}

def taken (v : Server) : Lock → Bool
  | .manager => v.mLock
  | .buffer s => (v.session s).mSendBufferLock

theorem taken_modify {s : SessionId} {f : ClientSession → ClientSession}
    (hf : ∀ ses, (f ses).mSendBufferLock = ses.mSendBufferLock) : (v.modify s f).taken = v.taken := by
  funext k
  cases k with
  | manager => rfl
  | buffer x =>
    simp only [taken, modify_session]
    split
    next hx => rw [hf, hx]
    · rfl

theorem taken_setBufferLock (v : Server) (s : SessionId) (b : Bool) :
    (v.modify s fun ses => { ses with mSendBufferLock := b }).taken = Function.update v.taken (.buffer s) b := by
  funext k
  cases k with
  | manager => rfl
  | buffer x =>
    simp only [taken, modify_session, Function.update_apply, Lock.buffer.injEq]
    split <;> rfl

theorem taken_setLock (v : Server) (b : Bool) :
    ({ v with mLock := b } : Server).taken = Function.update v.taken .manager b := by
  funext k
  cases k <;> simp [taken]

/-- The locks after the step, and how they come from those before it. -/
def Turns (h : Homework) (v v' : Server) (l : List Lock) (i : Instr) (next : List Instr) : Prop :=
  ∀ l₁, i.held h l = some l₁ → ∃ l₂, heldBefore h l next = some l₂ ∧ Lib.Turn v.taken v'.taken l₁ l₂

theorem turns_stay (ht : v'.taken = v.taken) (hn : heldBefore h l next = i.held h l) : v.Turns h v' l i next := by
  intro l₁ h₁
  exact ⟨l₁, hn.trans h₁, .stay l₁ ht⟩

theorem addRef_turns {s : SessionId} {note : ClientSession → ClientSession} {n : List Instr}
    (he : v.addRef s note i n = some (v', next)) (hf : ∀ ses, (note ses).mSendBufferLock = ses.mSendBufferLock)
    (hn : heldBefore h l n = i.held h l) : v.Turns h v' l i next := by
  unfold addRef at he
  split at he <;> cases he
  · exact turns_stay (taken_modify fun ses => hf _) hn
  · exact turns_stay rfl rfl

theorem releaseRef_turns {s : SessionId} {note : ClientSession → ClientSession}
    (he : v.releaseRef s note i = some (v', next)) (hf : ∀ ses, (note ses).mSendBufferLock = ses.mSendBufferLock)
    (hi : i.held h l = some l) : v.Turns h v' l i next := by
  simp only [releaseRef] at he
  split at he
  · cases he; exact turns_stay rfl rfl
  · split at he <;> cases he
    · exact turns_stay (taken_modify fun ses => hf _) hi.symm
    · exact turns_stay (taken_modify fun ses => hf _) hi.symm

theorem returning_turns {p : ReturnStep} {s : SessionId} (he : v.returnClientSession h s p = some (v', next)) :
    v.Turns h v' l (.returning p s) next := by
  cases p with
  | enter =>
    simp only [returnClientSession] at he
    split at he <;> cases he
    next hm =>
      rintro l₁ ⟨⟩
      exact ⟨.manager :: l, rfl, .enter .manager l (Bool.eq_false_iff.2 hm) (taken_setLock v true)⟩
  | assertConnected | assertRefCount =>
    simp only [returnClientSession, crash] at he
    split at he <;> cases he <;> exact turns_stay rfl rfl
  | resetConnected => cases he; exact turns_stay (taken_modify fun _ => rfl) rfl
  | resetRefCount =>
    cases he
    refine turns_stay (taken_modify fun _ => rfl) ?_
    split <;> rfl
  | enterSendLock =>
    simp only [returnClientSession] at he
    split at he <;> cases he
    next hm =>
      rintro l₁ ⟨⟩
      exact ⟨.buffer s :: .manager :: l, rfl,
        .enter (Lock.buffer s) _ (Bool.eq_false_iff.2 hm) (taken_setBufferLock v s true)⟩
  | leaveSendLock =>
    cases he
    rintro l₁ ⟨⟩
    exact ⟨.manager :: l, rfl, .leave (Lock.buffer s) _ (taken_setBufferLock v s false)⟩
  | push => cases he; exact turns_stay (by funext k; cases k <;> rfl) rfl

end Server

/-! ## The calls -/

section Tables

variable (h : Homework) (l : List Lock) (c : Call) (s : SessionId)

@[simp] theorem heldBefore_nil : heldBefore h l [] = some l := rfl

@[simp] theorem heldBefore_cons (i : Instr) (is : List Instr) :
    heldBefore h l (i :: is) = (heldBefore h l is).bind fun l' => i.held h l' := rfl

theorem held_enter_bufferTest : heldBefore h l (c.enter h s ++ [.bufferTest c s]) = some l := by
  unfold Call.enter
  split <;> simp_all [Instr.held]

theorem held_leave : heldBefore h l (c.leave h s) = some (if c.locks h then .buffer s :: l else l) := by
  unfold Call.leave
  split <;> simp [Instr.held]

theorem held_onFalse : heldBefore h l (c.onFalse h s) = some l := by
  cases c with
  | preRecv | postRecv => rfl
  | postSend => simp only [Call.onFalse]; split <;> rfl
  | _ => rfl

theorem held_body : heldBefore h l (c.body h s) = some l := by
  cases c with
  | postRecv => exact held_enter_bufferTest h l .postRecv s
  | acceptPreRecv | preRecv => simp [Call.body, Instr.held, Call.locks]
  | postSend | sendRequest | flushSend => simp [Call.body, Instr.held, Call.locks]
  | _ => rfl

theorem held_notConnected : heldBefore h l (c.notConnected h s) = some l := by
  cases c with
  | flushSend => rfl
  | _ => simp only [Call.notConnected]; exact held_onFalse h l _ s

theorem held_refused : heldBefore h l (c.refused h s) = some (if c.locks h then .buffer s :: l else l) := by
  cases c with
  | postRecv => simp [Call.refused, heldBefore_append, Instr.held, held_leave]
  | _ => exact held_leave h l _ s

theorem held_granted (hc : c ≠ .flushSend) :
    heldBefore h l (c.granted h s) = some (if c.locks h then .buffer s :: l else l) := by
  cases c with
  | postSend => cases h <;> simp [Call.granted, Instr.held, Call.locks]
  | postRecv | sendRequest => simp [Call.granted, Instr.held, Call.locks]
  | flushSend => exact absurd rfl hc
  | _ => simp [Call.granted, Call.locks]

theorem held_flushTest (data : Bool) (ses : ClientSession) :
    heldBefore h l (flushTest data ses s) = some (.buffer s :: l) := by
  unfold flushTest
  split <;> split <;> simp [Instr.held, Call.locks]

/-- `AcceptEx` is called with the lock of the session manager, which the loop keeps. -/
theorem held_started : heldBefore h l (c.started h s) = (Instr.startIo c s).held h l := by
  cases c with
  | postAccept | flushSend => simp [Call.started, Instr.held, Call.locks]
  | _ => simp [Call.started, Instr.held, held_leave]

theorem held_afterFailure : heldBefore h l (c.afterFailure h s) = (Instr.startIo c s).held h l := by
  cases c with
  | postAccept | flushSend | sendRequest => simp [Call.afterFailure, Instr.held, Call.locks]
  | postSend => simp only [Call.afterFailure]; split <;> simp [Instr.held, Call.locks]
  | preRecv | postRecv => cases h <;> rfl
  | _ => simp [Call.afterFailure, Instr.held, heldBefore_append, held_leave, held_onFalse]

theorem held_connectedClient : heldBefore h l (connectedClient s h) = some l := by
  cases h <;> rfl

end Tables

namespace Server

variable {h : Homework} {v v' : Server} {answer : Bool} {i : Instr} {next : List Instr} {l : List Lock}

/-- A step takes the lock that is free, leaves the last one taken, or does
neither. -/
theorem exec_held (he : v.exec h answer i = some (v', next)) : v.Turns h v' l i next := by
  cases i with
  | newContext | issueAddRef =>
    simp only [exec] at he
    exact addRef_turns he (fun _ => rfl) rfl
  | deleteContext | disconnectCompletion =>
    simp only [exec] at he
    exact releaseRef_turns he (fun _ => rfl) rfl
  | returning p x => exact returning_turns he
  | isConnected c x =>
    cases he
    refine turns_stay rfl ?_
    split
    · exact held_body h l c x
    · exact held_notConnected h l c x
  | bufferTest c x =>
    cases he
    refine turns_stay rfl ?_
    split
    next hc => subst hc; exact held_flushTest h l x answer _
    next hc =>
      split
      · exact held_granted h l c x hc
      · exact held_refused h l c x
  | startIo c x =>
    simp only [exec] at he
    split at he
    · cases he
      exact turns_stay (by funext k; cases k <;> rfl) (held_started h l c x)
    · split at he <;> cases he
      next hs =>
        refine turns_stay (by funext k; cases k <;> rfl) ?_
        cases c <;> simp [Call.strands] at hs <;> simp [Instr.held, Call.locks]
      · refine turns_stay rfl ?_
        rw [heldBefore_cons, held_afterFailure]
        simp only [Instr.held, Option.bind_some]
  | enterLock x =>
    simp only [exec] at he
    split at he <;> cases he
    next hm =>
      intro l₁ h₁
      simp only [Instr.held] at h₁
      split at h₁ <;> cases h₁
      next hl =>
        obtain ⟨l, rfl⟩ := List.head?_eq_some_iff.1 hl
        exact ⟨.buffer x :: l, rfl, .enter (.buffer x) l (Bool.eq_false_iff.2 hm) (taken_setBufferLock v x true)⟩
  | leaveLock x =>
    cases he
    rintro l₁ ⟨⟩
    exact ⟨l, rfl, .leave (.buffer x) l (taken_setBufferLock v x false)⟩
  | sendStarted x =>
    cases he
    refine turns_stay (taken_modify fun _ => rfl) ?_
    split <;> rfl
  | leaveManagerLock =>
    cases he
    rintro l₁ ⟨⟩
    exact ⟨l, rfl, .leave .manager l (taken_setLock v false)⟩
  | startAccept =>
    simp only [exec] at he
    split at he <;> cases he
    next hm =>
      rintro l₁ ⟨⟩
      exact ⟨.manager :: l, rfl, .enter .manager l (Bool.eq_false_iff.2 hm) (taken_setLock v true)⟩
  | acceptSession =>
    simp only [exec, acceptSession, crash] at he
    split at he
    · split at he <;> cases he
      · exact turns_stay (by funext k; cases k <;> rfl) rfl
      next s rest hf =>
        exact turns_stay (taken_modify (v := { v with mFreeSessionList := rest, mCurrentIssueCount := _ })
          fun _ => rfl) rfl
    · cases he; exact turns_stay rfl rfl
  | disconnectRequest x =>
    simp only [exec] at he
    split at he <;> cases he
    · exact turns_stay (taken_modify fun _ => rfl) (by simp [Instr.held, Call.locks])
    · exact turns_stay rfl rfl
  | acceptCompletion x =>
    simp only [exec, crash] at he
    split at he <;> cases he
    · exact turns_stay (by funext k; cases k <;> rfl) rfl
    · exact turns_stay (taken_modify fun _ => rfl) rfl
  | sendCompletion x => cases he; exact turns_stay (taken_modify fun _ => rfl) rfl
  | echoBack x =>
    cases he
    refine turns_stay rfl ?_
    split <;> rfl
  | socketSetup x =>
    cases he
    refine turns_stay rfl ?_
    split
    · exact held_connectedClient h l x
    · rfl
  | subscribeFeed x => cases he; exact turns_stay (by funext k; cases k <;> rfl) rfl
  | feedLoop n =>
    cases n with
    | zero => cases he; exact turns_stay rfl rfl
    | succ n =>
      cases he
      refine turns_stay rfl ?_
      split <;> rfl
  | feedTest n x =>
    simp only [exec] at he
    split at he <;> cases he
    · exact turns_stay rfl (by simp [Instr.held, Call.locks])
    · exact turns_stay (by funext k; cases k <;> rfl) rfl
  | feedGeneration => cases he; exact turns_stay rfl rfl
  | pushSendRequest | popSendRequest => cases he; exact turns_stay rfl rfl

/-! ## At most one thread holds a lock -/

/-- The locks of each thread. -/
def lockStacks (h : Homework) (v : Server) : List (List Lock) := v.threads.map fun th => (held h th.todo).getD []

structure Locked (h : Homework) (v : Server) : Prop where
  /-- What a thread is to leave, it has taken. -/
  held : ∀ th ∈ v.threads, (held h th.todo).isSome
  /-- A lock that is taken is held by one thread, once. -/
  taken : ∀ k, tally (· = k) (v.lockStacks h) = (v.taken k).toNat

theorem lockStacks_get {t : Nat} {th : Thread} (ht : v.threads[t]? = some th) :
    (v.lockStacks h)[t]? = some ((Lifecycle.held h th.todo).getD []) := by
  simp [lockStacks, ht]

theorem setThread_locked {w : Server} {t : Nat} {th th' : Thread} {l₁ l₂ : List Lock} (hv : v.Locked h)
    (ht : v.threads[t]? = some th) (hw : w.threads = v.threads) (h₁ : Lifecycle.held h th.todo = some l₁)
    (h₂ : Lifecycle.held h th'.todo = some l₂) (hturn : Lib.Turn v.taken w.taken l₁ l₂) : (w.setThread t th').Locked h := by
  have hget : (v.lockStacks h)[t]? = some l₁ := by rw [lockStacks_get ht, h₁, Option.getD_some]
  have hset : (w.setThread t th').lockStacks h = (v.lockStacks h).set t l₂ := by
    simp [lockStacks, setThread, hw, List.map_set, h₂]
  refine ⟨fun x hx => ?_, fun k => ?_⟩
  · rcases List.mem_or_eq_of_mem_set hx with hx | rfl
    · exact hv.held x (hw ▸ hx)
    · rw [h₂]; rfl
  · rw [hset]
    exact turn_tally hv.taken hget hturn k

/-- An idle thread starts on what takes the locks that it leaves. -/
theorem assign_locked {w : Server} {t : Nat} {th : Thread} {todo : List Instr} (hv : v.Locked h)
    (ht : v.threads[t]? = some th) (hw : w.threads = v.threads) (hk : w.taken = v.taken) (h₁ : th.todo = [])
    (h₂ : Lifecycle.held h todo = some []) : (w.assign t th todo).Locked h :=
  setThread_locked hv ht hw (by rw [h₁]; rfl) h₂ (.stay [] hk)

theorem held_handler (c : Completion) (job : Job) : Lifecycle.held h (handler h c job) = some [] := by
  have hcalls (s : SessionId) (calls : List HandlerCall) (l : List Lock) :
      heldBefore h l (calls.map (·.instr s)) = some l := by
    induction calls with
    | nil => rfl
    | cons call calls ih =>
      rw [List.map_cons, heldBefore_cons, ih]
      cases call <;> rfl
  have hsend (s : SessionId) (l : List Lock) : heldBefore h l (sendCompletion h s) = some l := by
    unfold sendCompletion
    split <;> simp [Instr.held]
  have hrecv (s : SessionId) (calls : List HandlerCall) (l : List Lock) :
      heldBefore h l (recvCompletion h s calls) = some l := by
    cases h with
    | homework4 => simp [recvCompletion, Instr.held]
    | homework6 => rfl
    | homework7 => exact hcalls s calls l
  have hio (s : SessionId) (ty : IoType) : heldBefore h [] (ioCompletion h s ty c) = some [] := by
    cases ty with
    | send =>
      cases c with
      | done all calls =>
        cases all <;> simp only [ioCompletion, heldBefore_append]
        · simp [Instr.held, hsend]
        · split <;> simp [Instr.held, hsend]
      | _ => simp [ioCompletion, Instr.held]
    | recv =>
      cases c with
      | done all calls =>
        simp only [ioCompletion, heldBefore_append]
        split <;> simp [Instr.held, hrecv]
      | _ => simp [ioCompletion, Instr.held]
    | _ => simp [ioCompletion, Instr.held]
  cases job with
  | io ty s => simp [Lifecycle.held, handler, heldBefore_append, Instr.held, hio]
  | db s | dbRequest s =>
    simp only [Lifecycle.held, handler, dbCompletion, heldBefore_append]
    split <;> simp [Instr.held]

theorem step_locked {a : Action} (hv : v.Locked h) (hs : v.step h a = some v') : v'.Locked h := by
  cases a with
  | run t answer =>
    obtain ⟨-, th, i, rest, w, next, ht, htodo, he, rfl⟩ := step_run hs
    obtain ⟨l₁, h₁⟩ := Option.isSome_iff_exists.1 (hv.held th (List.mem_of_getElem? ht))
    have hi := h₁
    rw [htodo, Lifecycle.held, heldBefore_cons] at hi
    obtain ⟨l, hl, hi⟩ := Option.bind_eq_some_iff.1 hi
    obtain ⟨l₂, hn, hturn⟩ := exec_held he l₁ hi
    have h₂ : Lifecycle.held h (next ++ rest) = some l₂ := by
      rw [Lifecycle.held, heldBefore_append, hl, Option.bind_some, hn]
    exact setThread_locked hv ht (exec_threads he) h₁ h₂ hturn
  | dequeue t i c =>
    obtain ⟨-, th, job, ht, htodo, -, -, ⟨-, rfl⟩ | ⟨-, rfl⟩⟩ := step_dequeue hs
    · exact ⟨hv.held, hv.taken⟩
    · exact assign_locked hv ht rfl rfl htodo (held_handler c job)
  | doSendJob t =>
    obtain ⟨-, th, x, list, ht, htodo, -, rfl⟩ := step_doSendJob hs
    exact assign_locked hv ht rfl rfl htodo rfl
  | doDatabaseJob i ok =>
    obtain ⟨-, x, -, rfl⟩ := step_doDatabaseJob hs
    cases ok <;> exact ⟨hv.held, hv.taken⟩
  | disconnectRequest t x =>
    obtain ⟨-, th, ht, htodo, rfl⟩ := step_disconnectRequest hs
    exact assign_locked hv ht rfl rfl htodo rfl

theorem start_locked (n : Nat) : (start h n).Locked h := by
  have hheld {th : Thread} (ht : th ∈ (start h n).threads) : Lifecycle.held h th.todo = some [] := by
    rcases start_todo ht with h0 | h0 | h0 <;> rw [h0] <;> rfl
  refine ⟨fun th ht => by rw [hheld ht]; rfl, fun k => ?_⟩
  have hk : (start h n).taken k = false := by cases k <;> rfl
  rw [hk, Bool.toNat_false, tally_eq_zero]
  intro l hl
  obtain ⟨th, ht, rfl⟩ := List.mem_map.1 hl
  rw [hheld ht]
  simp

/-- Two threads that hold one lock are the same. -/
theorem holder_unique {t t' : Nat} {th th' : Thread} {k : Lock} {l l' : List Lock} (hv : v.Locked h)
    (ht : v.threads[t]? = some th) (ht' : v.threads[t']? = some th') (hl : Lifecycle.held h th.todo = some l)
    (hl' : Lifecycle.held h th'.todo = some l') (hk : k ∈ l) (hk' : k ∈ l') : t = t' := by
  have hget : (v.lockStacks h)[t]? = some l := by rw [lockStacks_get ht, hl, Option.getD_some]
  have hget' : (v.lockStacks h)[t']? = some l' := by rw [lockStacks_get ht', hl', Option.getD_some]
  exact Lib.holder_unique hv.taken hget hget' hk hk'

end Server

end GameServer.Lifecycle
