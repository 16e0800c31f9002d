import GameServer.Players.Base
/-!
# One tick at a time

`OnTick` is called again by what it puts on the timer of the thread it runs on,
and ends only where it finds the player not alive. The calls of a player's
`OnTick` that are queued, under way or to be queued are counted over all
threads: only `Start` adds one (`exec_ticks`). So there is one chain at most, if
`Start` runs only where the chain before it has died (`ticks_once`). The code
does not see to that: a session that is back within a second of its end has two
(`ticked_twice`).
-/

namespace GameServer.Players

open Lib Lifecycle

variable {p p' q : Process} {t : Nat} {th th' : Thread} {answer : Bool} {top : Nat} {a : Action} {i : Step}
  {next : List Step} {s : SessionId}

/-- The call of `OnTick` is queued. -/
def TimerJobElement.ticks (s : SessionId) (e : TimerJobElement) : Bool := e.mOwner = s ∧ e.mTask = .onTick

/-- The step calls `OnTick`, or leads to the next call. -/
def Step.ticks (s : SessionId) : Step → Bool
  | .onTick x | .rearm x => x = s
  | .doSyncAfter _ x task => x = s ∧ task = .onTick
  | _ => false

namespace Process

/-- The pending `OnTick` jobs of the player. -/
def pendingTicks (p : Process) (s : SessionId) : Nat :=
  tally (TimerJobElement.ticks s) (p.threads.map (·.mTimerJobQueue))

/-- The calls that are under way. -/
def runningTicks (p : Process) (s : SessionId) : Nat := tally (Step.ticks s) (p.threads.map (·.todo))

/-- `Start` runs only when no earlier `OnTick` of the player is pending or under way. -/
def StartsAfresh (p : Process) (a : Action) : Prop := ∀ s ∈ p.starts a, p.pendingTicks s + p.runningTicks s = 0

instance (p : Process) (a : Action) : Decidable (p.StartsAfresh a) :=
  match ha : p.starts a with
  | some s => decidable_of_iff (p.pendingTicks s + p.runningTicks s = 0) (by simp [StartsAfresh, ha])
  | none => isTrue (by simp [StartsAfresh, ha])

end Process

/-! ## One step -/

theorem steps_ticks (j : Instr) : ∀ k ∈ steps j, k.ticks s = false := by
  cases j with
  | isConnected c x => cases c <;> simp [Step.ticks]
  | returning r x => cases r <;> simp [Step.ticks]
  | _ => simp [Step.ticks]

theorem countP_steps_ticks (is : List Instr) : (is.flatMap steps).countP (Step.ticks s) = 0 := by
  rw [List.countP_eq_zero]
  intro k hk
  obtain ⟨j, -, hj⟩ := List.mem_flatMap.1 hk
  simp [steps_ticks j k hj]

theorem countP_frameSteps_ticks (frames : List GrandCentralExecuter.Frame) :
    (frames.flatMap frameSteps).countP (Step.ticks s) = 0 := by
  induction frames with
  | nil => rfl
  | cons frame frames ih =>
    rw [List.flatMap_cons, List.countP_append, ih]
    cases frame <;> rfl

theorem pushTimerJob_ticks (x : SessionId) (task : TimerTask) (after : Nat) :
    (th.pushTimerJob x task after).mTimerJobQueue.countP (TimerJobElement.ticks s) =
      th.mTimerJobQueue.countP (TimerJobElement.ticks s) + ((Step.doSyncAfter after x task).ticks s).toNat := by
  rw [Thread.pushTimerJob, List.countP_append, List.countP_singleton]
  simp only [TimerJobElement.ticks, Step.ticks, Bool.toNat, cond_eq_ite]
  congr

/-- The timer hands over what it takes off its queue. -/
theorem timerTop_ticks {r : Thread × List Step} (hr : th.timerTop top = some r) :
    r.2.countP (Step.ticks s) + r.1.mTimerJobQueue.countP (TimerJobElement.ticks s) =
      th.mTimerJobQueue.countP (TimerJobElement.ticks s) := by
  unfold Thread.timerTop at hr
  split at hr
  · split at hr <;> cases hr
    simp
  next e htop =>
    split at hr
    · split at hr <;> cases hr
      · simp
      · have hbody : (doSync e.mOwner [e.mTask.step e.mOwner] ++ [Step.timerTop]).countP (Step.ticks s) =
            if e.ticks s then 1 else 0 := by
          unfold TimerJobElement.ticks
          cases e.mTask <;> simp [TimerTask.step, List.countP_cons, Step.ticks]
        rw [hbody, countP_eraseIdx htop (TimerJobElement.ticks s), Nat.add_comm]
    · cases hr

/-- Only `Start` begins a chain of calls. -/
theorem exec_ticks (he : p.exec t th answer top i = some (q, th', next)) :
    next.countP (Step.ticks s) + th'.mTimerJobQueue.countP (TimerJobElement.ticks s) ≤
      (i.ticks s).toNat + th.mTimerJobQueue.countP (TimerJobElement.ticks s) + if i.starts = some s then 1 else 0 := by
  have quiet {n : List Step} {u : Thread} (hn : n.countP (Step.ticks s) = 0) (hu : u.mTimerJobQueue = th.mTimerJobQueue) :
      n.countP (Step.ticks s) + u.mTimerJobQueue.countP (TimerJobElement.ticks s) ≤
        (i.ticks s).toNat + th.mTimerJobQueue.countP (TimerJobElement.ticks s) + if i.starts = some s then 1 else 0 := by
    rw [hn, hu]
    omega
  cases i with
  | server j =>
    obtain ⟨⟨v, n⟩, -, hr⟩ := Option.map_eq_some_iff.1 he
    cases hr
    exact quiet (countP_steps_ticks n) rfl
  | push k | pop k =>
    simp only [Process.exec] at he
    split at he <;> cases he <;> exact quiet rfl rfl
  | enterLock x =>
    simp only [Process.exec] at he
    split at he <;> cases he
    exact quiet rfl rfl
  | enterManager exclusive =>
    simp only [Process.exec] at he
    split at he
    · cases he
    · split at he <;> cases he <;> exact quiet rfl rfl
  | leaveManager exclusive =>
    simp only [Process.exec] at he
    split at he <;> cases he <;> exact quiet rfl rfl
  | doSyncAfter after x task =>
    cases he
    rw [pushTimerJob_ticks, List.countP_nil]
    omega
  | timerTop =>
    obtain ⟨r, hr, h⟩ := Option.map_eq_some_iff.1 he
    cases h
    have hcount := timerTop_ticks (s := s) hr
    omega
  | start x heartbeat =>
    cases he
    have hnext : (enterGuard true ++ [Step.registerPlayer x, .onTick x]).countP (Step.ticks s) = if x = s then 1 else 0 := by
      simp [List.countP_cons, Step.ticks]
    have hstarts : (Step.start x heartbeat).starts = some s ↔ x = s := by simp [Step.starts]
    rw [hnext, if_congr hstarts rfl rfl]
    omega
  | onTick x =>
    cases he
    have hnext : (if (p.player x).mIsAlive then (if answer then [.dispatch] else []) ++ [.dispatch, Step.rearm x]
        else []).countP (Step.ticks s) ≤ ((Step.onTick x).ticks s).toNat := by
      split
      · cases answer <;> simp [List.countP_cons, Step.ticks, Bool.toNat, cond_eq_ite]
      · simp
    omega
  | rearm x =>
    cases he
    split
    · rw [pushTimerJob_ticks, List.countP_nil]
      have hsame : (Step.doSyncAfter (p.player x).mHeartBeat.toNat x .onTick).ticks s = (Step.rearm x).ticks s := by
        simp [Step.ticks]
      rw [hsame]
      omega
    · exact quiet rfl rfl
  | gce frame =>
    cases he
    exact quiet (countP_frameSteps_ticks _) rfl
  | _ => cases he; exact quiet rfl rfl

/-! ## Every run -/

namespace Process

theorem ticks_of_thread (ht : p.threads[t]? = some th) : p.pendingTicks s + p.runningTicks s =
    tally (TimerJobElement.ticks s) ((p.threads.map (·.mTimerJobQueue)).eraseIdx t) +
      tally (Step.ticks s) ((p.threads.map (·.todo)).eraseIdx t) +
      (th.mTimerJobQueue.countP (TimerJobElement.ticks s) + th.todo.countP (Step.ticks s)) := by
  have hq : (p.threads.map (·.mTimerJobQueue))[t]? = some th.mTimerJobQueue := by simp [ht]
  have htodo : (p.threads.map (·.todo))[t]? = some th.todo := by simp [ht]
  rw [pendingTicks, runningTicks, tally_eq_erase hq, tally_eq_erase htodo]
  omega

theorem ticks_setThread (th' : Thread) (s : SessionId) (ht : p.threads[t]? = some th) (hq : q.threads = p.threads) :
    (q.setThread t th').pendingTicks s + (q.setThread t th').runningTicks s +
        (th.mTimerJobQueue.countP (TimerJobElement.ticks s) + th.todo.countP (Step.ticks s)) =
      p.pendingTicks s + p.runningTicks s +
        (th'.mTimerJobQueue.countP (TimerJobElement.ticks s) + th'.todo.countP (Step.ticks s)) := by
  have hget : (q.setThread t th').threads[t]? = some th' := by
    simp [setThread, hq, (List.getElem?_eq_some_iff.1 ht).1]
  rw [ticks_of_thread ht, ticks_of_thread hget]
  simp only [setThread, hq, List.map_set, List.eraseIdx_set_eq]
  omega

/-- A step that starts nobody anew leaves one chain at most. -/
theorem step_ticks (hp : ∀ s, p.pendingTicks s + p.runningTicks s ≤ 1) (ha : p.StartsAfresh a)
    (hs : p.step a = some p') (s : SessionId) : p'.pendingTicks s + p'.runningTicks s ≤ 1 := by
  have hle := hp s
  cases a with
  | run t answer top =>
    obtain ⟨-, -, th, i, rest, q, th', next, ht, htodo, he, rfl⟩ := step_run hs
    have hset := ticks_setThread { th' with todo := next ++ rest } s ht (exec_base he).2.1
    have hexec := exec_ticks (s := s) he
    simp only [htodo, List.countP_append, List.countP_cons] at hset
    have hi : (i.ticks s).toNat = if i.ticks s then 1 else 0 := by simp [Bool.toNat, cond_eq_ite]
    by_cases hstart : i.starts = some s
    · have hzero := ha s (by simp [starts, ht, htodo, hstart])
      rw [if_pos hstart] at hexec
      omega
    · rw [if_neg hstart] at hexec
      omega
  | dequeue t k c =>
    obtain ⟨-, -, th, v, todo, ht, htodo, -, -, -, -, rfl⟩ := step_dequeue hs
    have hset := ticks_setThread (q := { p with server := { v with threads := [] } })
      { th with todo := todo.flatMap steps ++ [.doTimerJob] } s ht rfl
    simp only [htodo, List.countP_append, countP_steps_ticks, List.countP_cons, List.countP_nil, Step.ticks] at hset
    simp only [Bool.false_eq_true, if_false] at hset
    omega
  | tick ms =>
    obtain rfl := step_tick hs
    exact hle

theorem start_ticks (n : Nat) (s : SessionId) : (start n).pendingTicks s + (start n).runningTicks s = 0 := by
  have hpending : (start n).pendingTicks s = 0 := by
    rw [pendingTicks, tally_eq_zero]
    intro l hl
    simp only [start, List.mem_map, List.mem_cons, List.mem_replicate] at hl
    obtain ⟨th, rfl | ⟨-, rfl⟩, rfl⟩ := hl <;> simp [Thread.start]
  have hrunning : (start n).runningTicks s = 0 := by
    rw [runningTicks, tally_eq_zero]
    intro l hl
    simp only [start, List.mem_map, List.mem_cons, List.mem_replicate] at hl
    obtain ⟨th, rfl | ⟨-, rfl⟩, rfl⟩ := hl <;> simp [Thread.start, Step.ticks]
  omega

/-- Where `Start` runs only after the chain before it has died, each player has
one pending `OnTick` job at most. -/
theorem ticks_once (n : Nat) (as : List Action) (hm : Meets step StartsAfresh (start n) as)
    (hr : run step (start n) as = some p) (s : SessionId) : p.pendingTicks s ≤ 1 := by
  have hle : p.pendingTicks s + p.runningTicks s ≤ 1 :=
    inv_of_meets (I := fun p => ∀ s, p.pendingTicks s + p.runningTicks s ≤ 1) (fun _ _ _ => step_ticks)
      (fun s => by rw [start_ticks]; omega) hm hr s
  omega

theorem ticks_once_startsLate : ∃ p, run step (start 1) startsLate = some p ∧ p.pendingTicks firstClient = 1 ∧
    ∀ s, p.pendingTicks s ≤ 1 := by
  have hmap : (run step (start 1) startsLate).map (·.pendingTicks firstClient) = some 1 := by decide +kernel
  obtain ⟨p, hr, hp⟩ := Option.map_eq_some_iff.1 hmap
  exact ⟨p, hr, hp, ticks_once 1 startsLate (by decide +kernel) hr⟩

/-! ## A session that comes back -/

/-- One IO thread, and `AcceptSessions` with the sessions from `m` on issued, the last one first. -/
def issuing (m : Nat) (hm : m ≤ MAX_CONNECTION) : Process :=
  { start 1 with
    server :=
      { (start 1).server with
        session := fun s => if m ≤ s.val then { ClientSession.new with mRefCount := 2, issueRef := 1, issued := 1 } else .new
        mFreeSessionList := prepareSessions m hm
        mCurrentIssueCount := UInt64.ofNat (MAX_CONNECTION - m)
        mLock := true
        posted := (List.range (MAX_CONNECTION - m)).map fun i =>
          .io .accept ⟨MAX_CONNECTION - 1 - i, by unfold MAX_CONNECTION; omega⟩ }
    threads := [{ Thread.start .main [.server .acceptSession] with mLockStack := [.sessionManager] },
      Thread.start .ioWorker [.doTimerJob]] }

theorem step_server {j : Instr} {rest : List Step} {v : Server} {n : List Instr} (ht : p.threads[t]? = some th)
    (htodo : th.todo = .server j :: rest) (h₁ : p.tripped = false) (h₂ : p.server.crashed = none)
    (he : p.base.exec .homework4 true j = some (v, n)) : p.step (.run t true 0) =
      some ({ p with server := { v with threads := [] } }.setThread t { th with todo := n.flatMap steps ++ rest }) :=
  step_of_exec h₁ h₂ ht htodo (Option.map_eq_some_iff.2 ⟨(v, n), he, rfl⟩)

/-- The session that `AcceptSessions` is issuing on thread `t`, and what comes next. -/
def issue (p : Process) (t : Nat) (th : Thread) (s : SessionId) (ses : ClientSession) (posted : List Job) (todo : List Step) :
    Process :=
  { p with
    server :=
      { p.server with
        session := Function.update p.server.session s ses
        mFreeSessionList := p.server.mFreeSessionList.tail
        mCurrentIssueCount := p.server.mCurrentIssueCount + 1
        posted := posted
        threads := [] }
    threads := p.threads.set t { th with todo } }

/-- `AcceptSessions` issues the session at the back of the free list. -/
theorem run_issue {rest : List Step} {free : List SessionId}
    (ht : p.threads[t]? = some th) (htodo : th.todo = .server .acceptSession :: rest) (h₁ : p.tripped = false)
    (h₂ : p.server.crashed = none) (hcan : p.base.canIssue = true) (hfree : p.server.mFreeSessionList = s :: free)
    (hses : p.server.session s = .new) :
    run step p (runs t 4) = some (p.issue t th s { ClientSession.new with mRefCount := 2, issueRef := 1, issued := 1 }
      (p.server.posted ++ [.io .accept s]) th.todo) := by
  have hlt : t < p.threads.length := (List.getElem?_eq_some_iff.1 ht).1
  have hget (ses : ClientSession) (posted : List Job) (todo : List Step) :
      (p.issue t th s ses posted todo).threads[t]? = some { th with todo } := by simp [issue, hlt]
  have hbase : p.base.mFreeSessionList = s :: free := hfree
  -- the reference of the issue and that of the context
  let popped : ClientSession := { ClientSession.new with issued := 1 }
  let referenced : ClientSession := { popped with mRefCount := 1, issueRef := 1 }
  let accepting : ClientSession := { popped with mRefCount := 2, issueRef := 1 }
  have hs₁ : p.step (.run t true 0) =
      some (p.issue t th s popped p.server.posted (.server (.issueAddRef s) :: rest)) := by
    refine (step_server ht htodo h₁ h₂ (by simp only [Server.exec, Server.acceptSession, hcan, if_true, hbase]; rfl)).trans ?_
    simp [issue, hfree, hses, base, Server.modify, setThread, ClientSession.new, popped]
  have hs₂ : (p.issue t th s popped p.server.posted (.server (.issueAddRef s) :: rest)).step (.run t true 0) =
      some (p.issue t th s referenced p.server.posted (.server (.newContext .postAccept s) :: rest)) := by
    have hpos : 0 < (Function.update p.server.session s popped s).mRefCount + 1 := by simp [popped, ClientSession.new]
    refine (step_server (hget popped p.server.posted (.server (.issueAddRef s) :: rest)) rfl h₁ h₂ (if_pos hpos)).trans ?_
    simp [issue, base, Server.modify, setThread, ClientSession.new, popped, referenced]
  have hs₃ : (p.issue t th s referenced p.server.posted (.server (.newContext .postAccept s) :: rest)).step
      (.run t true 0) = some (p.issue t th s accepting p.server.posted (.server (.startIo .postAccept s) :: rest)) := by
    have hpos : 0 < (Function.update p.server.session s referenced s).mRefCount + 1 := by simp [referenced]
    refine (step_server (hget referenced p.server.posted (.server (.newContext .postAccept s) :: rest)) rfl h₁ h₂
      (if_pos hpos)).trans ?_
    simp [issue, base, Server.modify, setThread, ClientSession.new, popped, referenced, accepting]
  have hs₄ : (p.issue t th s accepting p.server.posted (.server (.startIo .postAccept s) :: rest)).step (.run t true 0) =
      some (p.issue t th s accepting (p.server.posted ++ [.io .accept s]) th.todo) := by
    refine (step_server (hget accepting p.server.posted _) rfl h₁ h₂ rfl).trans ?_
    simp [issue, base, setThread, htodo, Call.started, Call.job]
  simp only [runs, List.replicate, run, hs₁, hs₂, hs₃, hs₄, Option.bind_some]
  rfl

theorem canIssue_issuing (m : Nat) (h : m + 1 ≤ MAX_CONNECTION) : (issuing (m + 1) h).base.canIssue = true := by
  have hlt : MAX_CONNECTION - (m + 1) < MAX_CONNECTION := by unfold MAX_CONNECTION; omega
  have h64 : MAX_CONNECTION - (m + 1) < 2 ^ 64 := by unfold MAX_CONNECTION; omega
  rw [Server.canIssue_iff]
  change (UInt64.ofNat (MAX_CONNECTION - (m + 1)) - 0).toNat < MAX_CONNECTION
  rw [UInt64.sub_zero, UInt64.toNat_ofNat_of_lt' h64]
  exact hlt

theorem run_issuing (m : Nat) (h : m + 1 ≤ MAX_CONNECTION) :
    run step (issuing (m + 1) h) (runs 0 4) = some (issuing m (Nat.le_of_succ_le h)) := by
  have hses : (issuing (m + 1) h).server.session ⟨m, h⟩ = .new := if_neg (Nat.not_succ_le_self m)
  have hmain : (issuing (m + 1) h).threads[0]? =
      some { Thread.start .main [.server .acceptSession] with mLockStack := [.sessionManager] } := rfl
  rw [run_issue hmain rfl rfl rfl (canIssue_issuing m h) rfl hses]
  have hsub : MAX_CONNECTION - m = MAX_CONNECTION - (m + 1) + 1 := by omega
  have hsession : Function.update (issuing (m + 1) h).server.session ⟨m, h⟩
      { ClientSession.new with mRefCount := 2, issueRef := 1, issued := 1 } =
      (issuing m (Nat.le_of_succ_le h)).server.session := by
    funext s
    by_cases hs : s = ⟨m, h⟩
    · subst hs
      simp [issuing]
    · have hne : s.val ≠ m := fun e => hs (Fin.ext e)
      have hle : m + 1 ≤ s.val ↔ m ≤ s.val := by omega
      simp only [Function.update_of_ne hs, issuing, hle]
  have hcount : (issuing (m + 1) h).server.mCurrentIssueCount + 1 =
      (issuing m (Nat.le_of_succ_le h)).server.mCurrentIssueCount := by
    simp only [issuing, hsub, UInt64.ofNat_add]
    rfl
  have hposted : (issuing (m + 1) h).server.posted ++ [.io .accept ⟨m, h⟩] =
      (issuing m (Nat.le_of_succ_le h)).server.posted := by
    simp only [issuing, hsub, List.range_succ, List.map_append, List.map_singleton]
    congr 4
    omega
  simp only [issue, hsession, hcount, hposted]
  rfl

theorem run_issuing_rest (m : Nat) (h : m ≤ MAX_CONNECTION) :
    run step (issuing m h) (runs 0 (m * 4)) = some (issuing 0 (Nat.zero_le _)) := by
  induction m with
  | zero => rfl
  | succ m ih =>
    have hruns : runs 0 ((m + 1) * 4) = runs 0 4 ++ runs 0 (m * 4) := by
      rw [runs, runs, runs, ← List.replicate_add]
      congr 1
      omega
    rw [hruns, run_append]
    exact ⟨_, run_issuing m h, ih (Nat.le_of_succ_le h)⟩

/-- All sessions are issued. -/
def issueAll : List Action := runs 0 2 ++ runs 0 (MAX_CONNECTION * 4)

theorem run_issueAll : run step (start 1) issueAll = some (issuing 0 (Nat.zero_le _)) := by
  rw [issueAll, run_append]
  refine ⟨issuing MAX_CONNECTION (Nat.le_refl _), ?_, run_issuing_rest MAX_CONNECTION (Nat.le_refl _)⟩
  have hsession : (issuing MAX_CONNECTION (Nat.le_refl _)).server.session = fun _ => .new := by
    funext s
    exact if_neg (Nat.not_le_of_lt s.isLt)
  have hstart : run step (start 1) (runs 0 2) = some { issuing MAX_CONNECTION (Nat.le_refl _) with
      server := { (issuing MAX_CONNECTION (Nat.le_refl _)).server with session := fun _ => .new } } := by
    rfl
  rw [hstart, ← hsession]

/-- The session that is issued last. -/
def lastClient : SessionId := ⟨0, by decide⟩

/-- The client of the last session is started and, its first receive failed, gone.
The session is given back, issued once more, and its next client is started 10 ms
after the one before. Its contexts are posted to place `k`. -/
def comesBack (k : Nat) : List Action :=
  runs 0 3 ++ runs 1 2 ++ [.dequeue 1 k (.done true [])] ++ runs 1 9 ++ [.tick 10, .dequeue 1 k .failed] ++
    runs 1 5 ++ [.run 1 false 0] ++ runs 1 43 ++ [.dequeue 1 k .failed] ++ runs 1 24 ++ runs 0 9 ++
    [.dequeue 1 k (.done true [])] ++ runs 1 8 ++ [.run 1 true 1, .tick 10, .dequeue 1 k .failed] ++
    runs 1 10 ++ [.run 1 true 1] ++ runs 1 33

/-- All sessions are issued, but only the context of the last one is posted. -/
def lastIssued : Process :=
  { issuing 0 (Nat.zero_le _) with
    server := { (issuing 0 (Nat.zero_le _)).server with posted := [.io .accept lastClient] } }

/-- The contexts of the other sessions. -/
def otherAccepts : List Job := (List.range 9999).map fun i => .io .accept ⟨9999 - i, by unfold MAX_CONNECTION; omega⟩

theorem issuing_eq_behind : issuing 0 (Nat.zero_le _) = lastIssued.behind otherAccepts := by
  have hposted : (issuing 0 (Nat.zero_le _)).server.posted = otherAccepts ++ [.io .accept lastClient] := by
    have hrange : List.range (MAX_CONNECTION - 0) = List.range 9999 ++ [9999] := List.range_succ
    simp only [issuing, hrange, List.map_append]
    rfl
  simp only [behind, Server.behind, lastIssued, ← hposted]

theorem behind_ticks (jobs : List Job) (s : SessionId) :
    ((p.behind jobs).player s).mIsAlive = (p.player s).mIsAlive ∧ (p.behind jobs).pendingTicks s = p.pendingTicks s :=
  ⟨rfl, rfl⟩

/-- Both chains go on: the second client is ticked twice a second. -/
theorem ticked_twice : ∃ p, run step (start 1) (issueAll ++ comesBack 9999) = some p ∧
    (p.player lastClient).mIsAlive = true ∧ p.pendingTicks lastClient = 2 := by
  have hmap : (run step lastIssued (comesBack 0)).map
      (fun p => ((p.player lastClient).mIsAlive, p.pendingTicks lastClient)) = some (true, 2) := by decide +kernel
  obtain ⟨p, hr, hp⟩ := Option.map_eq_some_iff.1 hmap
  simp only [Prod.mk.injEq] at hp
  have hlen : otherAccepts.length = 9999 := by simp [otherAccepts]
  have hshift : (comesBack 0).map (·.shift otherAccepts.length) = comesBack 9999 := by
    rw [hlen]
    rfl
  have hbehind := run_behind otherAccepts hr
  rw [hshift, ← issuing_eq_behind] at hbehind
  obtain ⟨halive, hticks⟩ := behind_ticks otherAccepts lastClient
  exact ⟨p.behind otherAccepts, run_append.2 ⟨_, run_issueAll, hbehind⟩, halive.trans hp.1, hticks.trans hp.2⟩

end Process

end GameServer.Players
