import GameServer.Lib.Entries
import GameServer.Lifecycle.Books
import Mathlib.Data.List.Perm.Basic
/-!
# The books over a step of the machine

`step_books`: every step of the machine does to the books of every session the
one thing `Action.op` says. A step that crashes changes nothing else.
-/

namespace GameServer.Lifecycle

open Lib Books

namespace Server

variable {h : Homework} {v v' : Server} {answer : Bool} {i : Instr} {next : List Instr}

/-- The instructions of all threads that hold `m` of `s`. -/
def running (v : Server) (m : Mark) (s : SessionId) : Nat := tally (Instr.holds m s) v.todos

theorem tally_todos_eq_zero {p : Instr → Bool} (hp : ∀ th ∈ v.threads, ∀ i ∈ th.todo, ¬ p i) :
    tally p v.todos = 0 := by
  rw [tally_eq_zero]
  intro todo htodo
  obtain ⟨th, hth, rfl⟩ := List.mem_map.1 htodo
  exact hp th hth

def books (v : Server) (s : SessionId) : Books := v.booksWith (fun m => v.running m s) [] s

/-- What all threads but `t` hold of `s`, and `rest`. -/
def others (v : Server) (t : Nat) (rest : List Instr) (s : SessionId) (m : Mark) : Nat :=
  tally (Instr.holds m s) (v.todos.eraseIdx t) + rest.countP (Instr.holds m s)

theorem books_of_thread {t : Nat} {th : Thread} {is rest : List Instr} (s : SessionId)
    (ht : v.threads[t]? = some th) (htodo : th.todo = is ++ rest) :
    v.books s = v.booksWith (v.others t rest s) is s := by
  have hr (m : Mark) : v.running m s = v.others t rest s m + is.countP (Instr.holds m s) := by
    have hget : v.todos[t]? = some (is ++ rest) := by simp [todos, ht, htodo]
    rw [running, tally_eq_erase hget, others, List.countP_append]
    omega
  simp [books, booksWith, hr]

theorem books_setThread {w : Server} {t : Nat} {th th' : Thread} {is rest : List Instr} (s : SessionId)
    (ht : v.threads[t]? = some th) (hv : w.threads = v.threads) (htodo : th'.todo = is ++ rest) :
    (w.setThread t th').books s = w.booksWith (v.others t rest s) is s := by
  have hr (m : Mark) : (w.setThread t th').running m s = v.others t rest s m + is.countP (Instr.holds m s) := by
    have hget : v.todos[t]? = some th.todo := by simp [todos, ht]
    have hset : (w.setThread t th').todos = v.todos.set t (is ++ rest) := by
      simp [todos, setThread, hv, List.map_set, htodo]
    rw [running, hset, tally_set hget, others, List.countP_append]
    omega
  simp only [books, booksWith, hr, List.countP_nil, Nat.add_zero]
  rfl

/-- What an instruction may change of what the threads share. -/
inductive Change (v : Server) : Instr → Server → Prop where
  | nothing {i : Instr} : Change v i v
  | session {i : Instr} (s : SessionId) (f : ClientSession → ClientSession) : Change v i (v.modify s f)
  | lock {i : Instr} (b : Bool) : Change v i { v with mLock := b }
  | feed {i : Instr} (sessions : List SessionId) : Change v i { v with mSessionVector := sessions }
  | post (c : Call) (s : SessionId) : Change v (.startIo c s) { v with posted := v.posted ++ [c.job s] }
  | strand (c : Call) (s : SessionId) : Change v (.startIo c s) { v with stranded := v.stranded ++ [c.job s] }
  | pop (s : SessionId) (rest : List SessionId) (f : ClientSession → ClientSession) (hi : v.canIssue)
      (hf : v.mFreeSessionList = s :: rest) : Change v .acceptSession
        ({ v with mFreeSessionList := rest, mCurrentIssueCount := v.mCurrentIssueCount + 1 }.modify s f)
  | push (s : SessionId) : Change v (.returning .push s)
      { v with mFreeSessionList := s :: v.mFreeSessionList, mCurrentReturnCount := v.mCurrentReturnCount + 1 }
  | crash {i : Instr} (c : Crash) : Change v i { v with crashed := some c }

theorem addRef_change {s : SessionId} {note : ClientSession → ClientSession} {n : List Instr}
    (he : v.addRef s note i n = some (v', next)) : Change v i v' := by
  unfold addRef at he
  split at he <;> cases he
  · exact .session s _
  · exact .crash _

theorem releaseRef_change {s : SessionId} {note : ClientSession → ClientSession}
    (he : v.releaseRef s note i = some (v', next)) : Change v i v' := by
  simp only [releaseRef] at he
  split at he
  · cases he; exact .crash _
  · split at he <;> cases he <;> exact .session s _

theorem exec_change (he : v.exec h answer i = some (v', next)) : Change v i v' := by
  cases i with
  | newContext | issueAddRef => simp only [exec] at he; exact addRef_change he
  | deleteContext | disconnectCompletion => simp only [exec] at he; exact releaseRef_change he
  | returning p x =>
    cases p with
    | push => cases he; exact .push x
    | enter =>
      simp only [exec, returnClientSession] at he
      split at he <;> cases he
      exact .lock true
    | assertConnected | assertRefCount =>
      simp only [exec, returnClientSession] at he
      split at he <;> cases he
      · exact .crash _
      · exact .nothing
    | enterSendLock =>
      simp only [exec, returnClientSession] at he
      split at he <;> cases he
      exact .session x _
    | _ => cases he; exact .session x _
  | acceptSession =>
    simp only [exec, acceptSession] at he
    split at he
    next hi =>
      split at he <;> cases he
      · exact .crash _
      next s rest hf => exact .pop s rest _ hi hf
    · cases he; exact .nothing
  | startIo c x =>
    simp only [exec] at he
    split at he
    · cases he; exact .post c x
    · split at he <;> cases he
      · exact .strand c x
      · exact .nothing
  | feedLoop n => cases n <;> cases he <;> exact .nothing
  | disconnectRequest x =>
    simp only [exec] at he
    split at he <;> cases he
    · exact .session x _
    · exact .nothing
  | enterLock x =>
    simp only [exec] at he
    split at he <;> cases he
    exact .session x _
  | acceptCompletion x =>
    simp only [exec] at he
    split at he <;> cases he
    · exact .crash _
    · exact .session x _
  | startAccept =>
    simp only [exec] at he
    split at he <;> cases he
    exact .lock true
  | feedTest j x =>
    simp only [exec] at he
    split at he <;> cases he
    · exact .nothing
    · exact .feed _
  | leaveManagerLock => cases he; exact .lock false
  | subscribeFeed x => cases he; exact .feed _
  | leaveLock x | sendStarted x | sendCompletion x => cases he; exact .session x _
  | _ => cases he; exact .nothing

theorem exec_threads (he : v.exec h answer i = some (v', next)) : v'.threads = v.threads := by
  cases exec_change he <;> rfl

/-- Only a socket call posts a context. -/
theorem exec_posted (he : v.exec h answer i = some (v', next)) :
    v'.posted = v.posted ∨ ∃ c s, i = .startIo c s ∧ v'.posted = v.posted ++ [c.job s] := by
  cases exec_change he with
  | post c s => exact .inr ⟨c, s, rfl, rfl⟩
  | _ => exact .inl rfl

/-- A crash changes nothing, and the instruction is not done with. -/
theorem exec_crash (he : v.exec h answer i = some (v', next)) (h0 : v.crashed = none) (hc : v'.crashed ≠ none) :
    v' = { v with crashed := v'.crashed } ∧ next = [i] ∧ ∀ list, i.sendRequests list = list := by
  cases i with
  | returning p x =>
    cases p <;> simp only [exec, returnClientSession, crash] at he <;> (try split at he) <;> cases he <;>
      first | exact ⟨rfl, rfl, fun _ => rfl⟩ | exact absurd h0 hc
  | acceptSession =>
    simp only [exec, acceptSession, crash] at he
    split at he
    · split at he <;> cases he
      · exact ⟨rfl, rfl, fun _ => rfl⟩
      · exact absurd h0 hc
    · cases he; exact absurd h0 hc
  | newContext | issueAddRef =>
    simp only [exec, addRef, crash] at he
    split at he <;> cases he
    · exact absurd h0 hc
    · exact ⟨rfl, rfl, fun _ => rfl⟩
  | deleteContext | disconnectCompletion =>
    simp only [exec, releaseRef, crash] at he
    split at he
    · cases he; exact ⟨rfl, rfl, fun _ => rfl⟩
    · split at he <;> cases he <;> exact absurd h0 hc
  | startIo =>
    simp only [exec] at he
    split at he
    · cases he; exact absurd h0 hc
    · split at he <;> cases he <;> exact absurd h0 hc
  | feedLoop n => cases n <;> cases he <;> exact absurd h0 hc
  | disconnectRequest | enterLock | acceptCompletion | startAccept | feedTest =>
    simp only [exec, crash] at he
    split at he <;> cases he <;> first | exact ⟨rfl, rfl, fun _ => rfl⟩ | exact absurd h0 hc
  | _ => cases he; exact absurd h0 hc

end Server

/-- The instruction that thread `t` is to execute. -/
def Server.next (v : Server) (t : Nat) : Option Instr := v.threads[t]?.bind (·.todo.head?)

/-- What an action that does not crash does to the books of `s`. -/
def Action.op (h : Homework) (v : Server) (s : SessionId) : Action → Op
  | .run t answer =>
    match v.next t with
    | some i => i.op v answer s
    | none => .stay
  | .dequeue _ i c =>
    match v.posted[i]? with
    | some (.io .accept x) => if c.lost h ∧ x = s then .loseOpening else .stay
    | some (.io .disconnect x) => if c.lost h ∧ x = s then .loseClosing else .stay
    | _ => .stay
  | _ => .stay

namespace Server

variable {h : Homework} {v v' : Server} {answer : Bool}

/-- A step of thread `t`. -/
theorem step_run {t : Nat} (hs : v.step h (.run t answer) = some v') :
    v.crashed = none ∧ ∃ th i rest w next, v.threads[t]? = some th ∧ th.todo = i :: rest ∧
      v.exec h answer i = some (w, next) ∧
      v' = w.setThread t { th with todo := next ++ rest
                                   LSendRequestSessionList := i.sendRequests th.LSendRequestSessionList } := by
  unfold step at hs
  split at hs
  · cases hs
  next hc =>
    obtain ⟨th, ht, hs⟩ := Option.bind_eq_some_iff.1 hs
    refine ⟨by simpa using hc, th, ?_⟩
    unfold runThread at hs
    split at hs
    · cases hs
    next i rest htodo =>
      obtain ⟨r, hr, rfl⟩ := Option.map_eq_some_iff.1 hs
      exact ⟨i, rest, r.1, r.2, ht, htodo, hr, rfl⟩

/-- A completion is dequeued by an idle thread, and dropped or handled. -/
theorem step_dequeue {t i : Nat} {c : Completion} (hs : v.step h (.dequeue t i c) = some v') :
    v.crashed = none ∧ ∃ th job, v.threads[t]? = some th ∧ th.todo = [] ∧ v.posted[i]? = some job ∧
      (∀ s, job ≠ .dbRequest s) ∧
      ((c.lost h ∧ v' = { v with posted := v.posted.eraseIdx i, stranded := v.stranded ++ [job] }) ∨
       (¬ c.lost h ∧ v' = { v with posted := v.posted.eraseIdx i }.assign t th (handler h c job))) := by
  unfold step at hs
  split at hs
  · cases hs
  next hc =>
    obtain ⟨th, ht, hs⟩ := Option.bind_eq_some_iff.1 hs
    unfold dequeue at hs
    split at hs
    next hi =>
      split at hs
      · cases hs
      · cases hs
      next job hdb hj =>
        refine ⟨by simpa using hc, th, job, ht, ?_, hj, hdb, ?_⟩
        · have := hi.1
          simp only [Thread.idle, decide_eq_true_eq] at this
          exact this.2
        · split at hs <;> cases hs
          next hl => exact .inl ⟨hl, rfl⟩
          next hl => exact .inr ⟨hl, rfl⟩
    · cases hs

theorem step_doSendJob {t : Nat} (hs : v.step h (.doSendJob t) = some v') :
    v.crashed = none ∧ ∃ th s list, v.threads[t]? = some th ∧ th.todo = [] ∧
      th.LSendRequestSessionList = s :: list ∧ v' = v.assign t th [.isConnected .flushSend s] := by
  unfold step at hs
  split at hs
  · cases hs
  next hc =>
    obtain ⟨th, ht, hs⟩ := Option.bind_eq_some_iff.1 hs
    unfold doSendJob at hs
    split at hs
    next s list hl =>
      split at hs <;> cases hs
      next hi =>
        simp only [Thread.idle, decide_eq_true_eq] at hi
        exact ⟨by simpa using hc, th, s, list, ht, hi.2, hl, rfl⟩
    · cases hs

theorem step_doDatabaseJob {i : Nat} {ok : Bool} (hs : v.step h (.doDatabaseJob i ok) = some v') :
    v.crashed = none ∧ ∃ s, v.posted[i]? = some (.dbRequest s) ∧
      v' = if ok then { v with posted := v.posted.set i (.db s) }
           else { v with crashed := some .postDatabaseResult } := by
  unfold step at hs
  split at hs
  · cases hs
  next hc =>
    simp only [doDatabaseJob] at hs
    split at hs
    next s hj =>
      refine ⟨by simpa using hc, s, hj, ?_⟩
      split at hs <;> cases hs
      next hok => rw [if_pos hok]
      next hok => rw [if_neg hok]
    · cases hs

theorem step_disconnectRequest {t : Nat} {s : SessionId} (hs : v.step h (.disconnectRequest t s) = some v') :
    v.crashed = none ∧ ∃ th, v.threads[t]? = some th ∧ th.todo = [] ∧ v' = v.assign t th [.disconnectRequest s] := by
  unfold step at hs
  split at hs
  · cases hs
  next hc =>
    obtain ⟨th, ht, hs⟩ := Option.bind_eq_some_iff.1 hs
    split at hs <;> cases hs
    next hi =>
      simp only [Thread.idle, decide_eq_true_eq] at hi
      exact ⟨by simpa using hc, th, ht, hi.2, rfl⟩

theorem unmarked_calls (s : SessionId) (calls : List HandlerCall) : Unmarked (calls.map (·.instr s)) := by
  intro i hi
  obtain ⟨c, -, rfl⟩ := List.mem_map.1 hi
  cases c <;> rfl

theorem unmarked_sendCompletion (s : SessionId) : Unmarked (sendCompletion h s) := by
  unfold sendCompletion
  split <;> simp [Instr.marks]

theorem unmarked_recvCompletion (s : SessionId) (calls : List HandlerCall) :
    Unmarked (recvCompletion h s calls) := by
  cases h
  · simp [recvCompletion, Instr.marks]
  · exact unmarked_nil
  · exact unmarked_calls s calls

theorem unmarked_ioCompletion {ty : IoType} (ha : ty ≠ .accept) (hd : ty ≠ .disconnect) (s : SessionId)
    (c : Completion) : Unmarked (ioCompletion h s ty c) := by
  cases ty with
  | accept => exact absurd rfl ha
  | disconnect => exact absurd rfl hd
  | recvZero => simp [ioCompletion, Instr.marks]
  | send =>
    cases c with
    | timedOut | failed => simp [ioCompletion, Instr.marks]
    | done all calls =>
      cases all with
      | false => simp [ioCompletion, unmarked_sendCompletion, Instr.marks]
      | true =>
        simp only [ioCompletion, unmarked_append, unmarked_sendCompletion, true_and]
        split <;> simp [Instr.marks]
  | recv =>
    cases c with
    | timedOut | failed => simp [ioCompletion, Instr.marks]
    | done all calls =>
      simp only [ioCompletion, unmarked_append, unmarked_recvCompletion, true_and]
      split <;> simp [Instr.marks]

/-- The handler of a completion stands for what its context stood for. -/
theorem countP_handler (c : Completion) (job : Job) (m : Mark) (s : SessionId) :
    (handler h c job).countP (Instr.holds m s) = if job.holds m s then 1 else 0 := by
  cases job with
  | io ty x =>
    by_cases ha : ty = .accept
    · subst ha
      cases m <;>
        simp [handler, ioCompletion, List.countP_cons, Instr.holds, Instr.session, Instr.marks, Job.holds, Job.owner,
          Job.marks]
    · by_cases hd : ty = .disconnect
      · subst hd
        cases m <;>
          simp [handler, ioCompletion, List.countP_cons, Instr.holds, Instr.session, Instr.marks, Job.holds, Job.owner,
            Job.marks]
      · have hu := unmarked_ioCompletion (h := h) ha hd x c
        have hm : (Job.io ty x).marks = [.token] := by cases ty <;> first | rfl | contradiction
        simp [handler, List.countP_cons, countP_holds_of_unmarked hu, Instr.holds, Instr.session, Instr.marks,
          Job.holds, Job.owner, hm]
  | db x | dbRequest x =>
    cases h <;>
      simp [handler, dbCompletion, List.countP_cons, Instr.holds, Instr.session, Instr.marks, Job.holds, Job.owner,
        Job.marks]

theorem books_dequeue {t i : Nat} {th : Thread} {job : Job} {c : Completion} (s : SessionId)
    (ht : v.threads[t]? = some th) (htodo : th.todo = []) (hj : v.posted[i]? = some job) :
    ({ v with posted := v.posted.eraseIdx i }.assign t th (handler h c job)).books s = v.books s := by
  have hnil : th.todo = [] ++ [] := htodo
  rw [assign, books_setThread (w := { v with posted := v.posted.eraseIdx i }) (v := v) s ht rfl (List.append_nil _).symm,
    books_of_thread s ht hnil]
  simp only [booksWith, countP_handler, countP_eraseIdx hj, List.countP_nil]
  congr 1 <;> omega

theorem books_assign {t : Nat} {th : Thread} {todo : List Instr} (s : SessionId) (ht : v.threads[t]? = some th)
    (htodo : th.todo = []) (hu : Unmarked todo) : (v.assign t th todo).books s = v.books s := by
  have hnil : th.todo = [] ++ [] := htodo
  rw [assign, books_setThread s ht rfl (List.append_nil _).symm, books_of_thread s ht hnil, booksWith_unmarked hu]

/-- A context that is dropped with its completion is still there, but nobody
handles what it stood for. -/
theorem books_drop {i : Nat} {job : Job} {c : Completion} (t : Nat) (s : SessionId) (hj : v.posted[i]? = some job)
    (hl : c.lost h) :
    ({ v with posted := v.posted.eraseIdx i, stranded := v.stranded ++ [job] } : Server).books s =
        (v.books s).after ((Action.dequeue t i c).op h v s) ∧
      (v.books s).Enabled ((Action.dequeue t i c).op h v s) := by
  have hp (m : Mark) := countP_eraseIdx hj (Job.holds m s)
  cases job with
  | io ty x =>
    by_cases hx : x = s
    · cases ty <;>
        simp [Action.op, hj, books, booksWith, running, todos, hp, Job.holds, Job.owner, Job.marks, hl, after, Enabled, hx] <;>
        omega
    · cases ty <;>
        simp [Action.op, hj, books, booksWith, running, todos, hp, Job.holds, Job.owner, Job.marks, after, Enabled, hx]
  | db x | dbRequest x =>
    by_cases hx : x = s <;>
      simp [Action.op, hj, books, booksWith, running, todos, hp, Job.holds, Job.owner, Job.marks, after, Enabled, hx]
    omega

/-- What a step that does not crash does to the books of every session. -/
theorem step_books {a : Action} (hs : v.step h a = some v') (hc : v'.crashed = none) (s : SessionId) :
    v'.books s = (v.books s).after (a.op h v s) ∧ (v.books s).Enabled (a.op h v s) := by
  cases a with
  | run t answer =>
    obtain ⟨-, th, i, rest, w, next, ht, htodo, he, rfl⟩ := step_run hs
    have hop : (Action.run t answer).op h v s = i.op v answer s := by
      simp [Action.op, Server.next, ht, htodo]
    have hcons : th.todo = [i] ++ rest := htodo
    rw [hop, books_setThread s ht (exec_threads he) rfl, books_of_thread s ht hcons]
    exact exec_books he hc _ s
  | dequeue t i c =>
    obtain ⟨-, th, job, ht, htodo, hj, -, ⟨hl, rfl⟩ | ⟨hl, rfl⟩⟩ := step_dequeue hs
    · exact books_drop t s hj hl
    · have hop : (Action.dequeue t i c).op h v s = .stay := by
        simp only [Action.op, hj]
        split <;> simp [hl]
      rw [hop, books_dequeue s ht htodo hj]
      exact ⟨rfl, trivial⟩
  | doSendJob t =>
    obtain ⟨-, th, x, list, ht, htodo, -, rfl⟩ := step_doSendJob hs
    rw [books_assign s ht htodo (by simp [Instr.marks])]
    exact ⟨rfl, trivial⟩
  | doDatabaseJob i ok =>
    obtain ⟨-, x, hj, rfl⟩ := step_doDatabaseJob hs
    split at hc
    next hok =>
      rw [if_pos hok]
      have hset (m : Mark) : (v.posted.set i (.db x)).countP (Job.holds m s) = v.posted.countP (Job.holds m s) :=
        countP_set_of_eq hj rfl
      refine ⟨?_, trivial⟩
      simp only [books, booksWith, hset]
      rfl
    · cases hc
  | disconnectRequest t x =>
    obtain ⟨-, th, ht, htodo, rfl⟩ := step_disconnectRequest hs
    rw [books_assign s ht htodo (by simp [Instr.marks])]
    exact ⟨rfl, trivial⟩

/-- A step that crashes changes nothing else. -/
theorem step_crash {a : Action} (hs : v.step h a = some v') (hc : v'.crashed ≠ none) :
    v' = { v with crashed := v'.crashed } := by
  cases a with
  | run t answer =>
    obtain ⟨h0, th, i, rest, w, next, ht, htodo, he, rfl⟩ := step_run hs
    obtain ⟨hw, rfl, hl⟩ := exec_crash he h0 hc
    have hth : ({ th with todo := [i] ++ rest
                          LSendRequestSessionList := i.sendRequests th.LSendRequestSessionList } : Thread) = th := by
      rw [hl, List.singleton_append, ← htodo]
    have hset : w.threads.set t th = v.threads := by
      rw [exec_threads he]
      exact set_of_getElem? ht
    rw [hth]
    unfold setThread
    rw [hset, hw]
  | dequeue t i c =>
    obtain ⟨h0, th, job, -, -, -, -, ⟨-, rfl⟩ | ⟨-, rfl⟩⟩ := step_dequeue hs <;> exact absurd h0 hc
  | doSendJob t =>
    obtain ⟨h0, th, x, list, -, -, -, rfl⟩ := step_doSendJob hs
    exact absurd h0 hc
  | doDatabaseJob i ok =>
    obtain ⟨h0, x, -, rfl⟩ := step_doDatabaseJob hs
    split at hc
    · exact absurd h0 hc
    next hok => rw [if_neg hok]
  | disconnectRequest t x =>
    obtain ⟨h0, th, -, -, rfl⟩ := step_disconnectRequest hs
    exact absurd h0 hc

/-! ## Contexts that nobody dequeues -/

/-- The server with the contexts `jobs` posted before all others. -/
def behind (v : Server) (jobs : List Job) : Server := { v with posted := jobs ++ v.posted }

@[simp] theorem behind_session (jobs : List Job) : (v.behind jobs).session = v.session := rfl
@[simp] theorem behind_mLock (jobs : List Job) : (v.behind jobs).mLock = v.mLock := rfl
@[simp] theorem behind_canIssue (jobs : List Job) : (v.behind jobs).canIssue = v.canIssue := rfl
@[simp] theorem behind_free (jobs : List Job) : (v.behind jobs).mFreeSessionList = v.mFreeSessionList := rfl

theorem exec_behind (jobs : List Job) :
    (v.behind jobs).exec h answer i = (v.exec h answer i).map fun r => (r.1.behind jobs, r.2) := by
  cases i with
  | newContext c s | issueAddRef s =>
    simp only [exec, addRef, behind_session]
    split <;> simp [*, behind, modify, crash]
  | deleteContext s | disconnectCompletion s =>
    by_cases hc : (v.session s).mRefCount - 1 < 0
    · simp [exec, releaseRef, behind, crash, hc]
    · by_cases hz : (v.session s).mRefCount - 1 = 0 <;> simp [exec, releaseRef, behind, modify, hc, hz]
  | startIo c s =>
    cases answer with
    | true => simp [exec, behind]
    | false => cases hc : c.strands <;> simp [exec, behind, hc]
  | returning r s =>
    cases r with
    | enter | assertConnected | assertRefCount | enterSendLock =>
      simp only [exec, returnClientSession, behind_session, behind_mLock]
      split <;> simp [*, behind, modify, crash]
    | _ => rfl
  | acceptSession =>
    cases hc : v.canIssue with
    | true =>
      cases hf : v.mFreeSessionList <;>
        simp only [exec, acceptSession, behind_canIssue, behind_free, hc, hf, if_true] <;> rfl
    | false => simp [exec, acceptSession, hc]
  | feedLoop n => cases n <;> rfl
  | disconnectRequest | enterLock | acceptCompletion | startAccept | feedTest =>
    simp only [exec, behind_session, behind_mLock]
    split <;> simp [*, behind, modify, crash]
  | _ => rfl

theorem dequeue_behind (jobs : List Job) (t k : Nat) (th : Thread) (c : Completion) :
    (v.behind jobs).dequeue h t th (jobs.length + k) c = (v.dequeue h t th k c).map (·.behind jobs) := by
  have hget : (v.behind jobs).posted[jobs.length + k]? = v.posted[k]? := by
    simp [behind, List.getElem?_append_right]
  have herase : (v.behind jobs).posted.eraseIdx (jobs.length + k) = jobs ++ v.posted.eraseIdx k := by
    simp [behind, List.eraseIdx_append_of_length_le]
  simp only [dequeue, hget, herase]
  split
  · split
    · rfl
    · rfl
    · split <;> rfl
  · rfl

theorem step_dequeue_behind (jobs : List Job) (t k : Nat) (c : Completion) :
    (v.behind jobs).step h (.dequeue t (jobs.length + k) c) = (v.step h (.dequeue t k c)).map (·.behind jobs) := by
  have hc : (v.behind jobs).crashed = v.crashed := rfl
  have ht : (v.behind jobs).threads = v.threads := rfl
  simp only [step, hc, ht, dequeue_behind]
  split
  · rfl
  · cases v.threads[t]? <;> rfl

end Server

end GameServer.Lifecycle
