import GameServer.Lifecycle.Recycling
/-!
# The pool of Homework7

A session that is not free and that no thread is busy with waits for the
completion of a context (`no_session_lost`), unless a call failed whose failure
is only printed: `AcceptEx`, `DisconnectEx`, or the `WSARecv` of
`AcceptCompletion` (`session_lost`). The sessions given back twice, of
`GameServer.Lifecycle.Recycling`, do not matter here: their books may be out of
balance, but they stay tracked.
-/

namespace GameServer.Lifecycle

open Lib Books

/-- The calls that nobody makes up for when they fail at once. -/
def Call.abandons : Call → Bool
  | .postAccept | .acceptPreRecv | .disconnectRequest => true
  | _ => false

/-- The calls that receive from the client. -/
def Call.receives : Call → Bool
  | .acceptPreRecv | .preRecv | .postRecv => true
  | _ => false

/-- The instruction is to receive from the client or to disconnect it. -/
def Instr.carries (s : SessionId) : Instr → Bool
  | .disconnectRequest x | .socketSetup x => x = s
  | .isConnected c x | .newContext c x | .startIo c x => c.receives ∧ x = s
  | .bufferTest c x => c = .postRecv ∧ x = s
  | _ => false

def Job.carries (s : SessionId) : Job → Bool
  | .io .recv x | .io .recvZero x => x = s
  | _ => false

namespace Server

variable {v v' : Server} {answer : Bool} {i : Instr} {next : List Instr} {a : Action} {s : SessionId}

/-- The step is a call that fails at once, and that nobody makes up for. -/
def abandons (v : Server) : Action → Bool
  | .run t false =>
    match v.next t with
    | some (.startIo c _) => c.abandons
    | _ => false
  | _ => false

/-- No thread has a step left that concerns the session. -/
def AtRest (v : Server) (s : SessionId) : Prop := ∀ th ∈ v.threads, ∀ i ∈ th.todo, i.session ≠ some s

instance (v : Server) (s : SessionId) : Decidable (v.AtRest s) :=
  inferInstanceAs (Decidable (∀ th ∈ v.threads, ∀ i ∈ th.todo, i.session ≠ some s))

/-- A session that is at rest and not free has a context, which comes back as a
completion unless a post of one has failed. -/
def Kept (v : Server) : Prop :=
  ∀ s, v.AtRest s → s ∉ v.mFreeSessionList →
    0 < v.liveContexts s ∧ (v.stranded = [] → ∃ job ∈ v.posted, job.owner = s)

/-! ## The books stay tracked -/

theorem instr_keeps (hi : ∀ c x, i = .startIo c x → c.abandons = true → answer = true) (s : SessionId) :
    Keeps (i.op v answer s) := by
  have hd := does_op v answer s i
  generalize i.op v answer s = o at hd ⊢
  cases hd with
  | lose c o hc ha =>
    have habandons : c.abandons = true := by cases c <;> first | rfl | cases hc
    have hans := hi c s rfl habandons
    rw [ha] at hans
    cases hans
  | returning p o ho => subst ho; cases p <;> trivial
  | _ => trivial

theorem answer_of_abandons {t : Nat} (ha : v.abandons (.run t answer) = false) (hn : v.next t = some i) :
    ∀ c x, i = .startIo c x → c.abandons = true → answer = true := by
  rintro c x rfl hc
  cases answer with
  | true => rfl
  | false => simp [abandons, hn, hc] at ha

theorem op_keeps (ha : v.abandons a = false) (s : SessionId) : Keeps (a.op .homework7 v s) := by
  cases a with
  | run t answer =>
    cases hn : v.next t with
    | none => simp [Action.op, hn, Keeps]
    | some i =>
      simp only [Action.op, hn]
      exact instr_keeps (answer_of_abandons ha hn) s
  | dequeue t i c =>
    have hl : c.lost .homework7 = false := by cases c <;> rfl
    simp only [Action.op]
    split <;> simp [hl, Keeps]
  | _ => trivial

theorem step_tracked (hv : ∀ s, (v.books s).Tracked) (ha : v.abandons a = false)
    (hs : v.step .homework7 a = some v') : ∀ s, (v'.books s).Tracked := by
  intro s
  by_cases hc : v'.crashed = none
  · obtain ⟨hb, he⟩ := step_books hs hc s
    rw [hb]
    exact (hv s).after he (op_keeps ha s)
  · rw [step_crash hs hc]
    exact hv s

theorem start_tracked (n : Nat) (s : SessionId) : ((start .homework7 n).books s).Tracked := by
  obtain ⟨hcount, hplace, howed, -⟩ := (start_consistent .homework7 n).balanced s
  have hc : ((start .homework7 n).books s).count = 0 := rfl
  constructor <;> omega

/-! ## A connected session is carried -/

/-- The instructions and the contexts that are to receive from the client or to
disconnect it. -/
def carrying (v : Server) (s : SessionId) : Nat :=
  tally (Instr.carries s) v.todos + v.posted.countP (Job.carries s)

theorem carrying_setThread {w : Server} {t : Nat} {th : Thread} (s : SessionId) (th' : Thread)
    (ht : v.threads[t]? = some th) (hw : w.threads = v.threads) :
    (w.setThread t th').carrying s + th.todo.countP (Instr.carries s) + v.posted.countP (Job.carries s) =
      v.carrying s + th'.todo.countP (Instr.carries s) + w.posted.countP (Job.carries s) := by
  have hget : v.todos[t]? = some th.todo := by simp [todos, ht]
  have hset : (w.setThread t th').todos = v.todos.set t th'.todo := by
    simp [todos, setThread, hw, List.map_set]
  have hp : (w.setThread t th').posted = w.posted := rfl
  rw [carrying, carrying, hset, tally_set hget, tally_eq_erase hget, hp]
  omega

/-- An idle thread starts on `todo`. -/
theorem carrying_assign {w : Server} {t : Nat} {th : Thread} (s : SessionId) (todo : List Instr)
    (ht : v.threads[t]? = some th) (htodo : th.todo = []) (hw : w.threads = v.threads) :
    (w.assign t th todo).carrying s + v.posted.countP (Job.carries s) =
      v.carrying s + todo.countP (Instr.carries s) + w.posted.countP (Job.carries s) := by
  have hsum := carrying_setThread s { th with todo := todo } ht hw
  rw [htodo, List.countP_nil] at hsum
  exact hsum

theorem countP_le_carrying {t : Nat} {th : Thread} (s : SessionId) (ht : v.threads[t]? = some th) :
    th.todo.countP (Instr.carries s) + v.posted.countP (Job.carries s) ≤ v.carrying s := by
  have hmem : th.todo ∈ v.todos := List.mem_map_of_mem (List.mem_of_getElem? ht)
  exact Nat.add_le_add_right (countP_le_tally hmem) _

theorem op_connect (ho : i.op v answer s = .connect) : i = .acceptCompletion s := by
  have hd := does_op v answer s i
  rw [ho] at hd
  cases hd with
  | connect => rfl
  | lose c o hc => cases c <;> cases hc
  | returning p o hp => cases p <;> cases hp

theorem exec_connected (he : v.exec .homework7 answer i = some (v', next)) (hc : v'.crashed = none)
    (hs : (v'.session s).mConnected) :
    (v.session s).mConnected ∨ i = .acceptCompletion s ∧ next = [.socketSetup s] := by
  -- in the books, only `connect` opens a session
  obtain ⟨hb, -⟩ := exec_books he hc (fun _ => 0) s
  have hcon := congrArg Books.connected hb
  rcases connected_after (v.booksWith (fun _ => 0) [i] s) (i.op v answer s) with hle | ho
  · left
    rw [← hcon] at hle
    simp only [booksWith, hs, Bool.toNat_true] at hle
    exact Bool.toNat_eq_one.1 (by have := Bool.toNat_le (v.session s).mConnected; omega)
  · right
    have hi := op_connect ho
    subst hi
    refine ⟨rfl, ?_⟩
    simp only [exec, crash] at he
    split at he <;> cases he
    · cases hc
    · rfl

/-- What is to receive or to disconnect leads on to such a step, or is waiting
for the completion of a receive. -/
theorem exec_carries (hk : ∀ c x, i = .startIo c x → c.abandons = true → answer = true)
    (he : v.exec .homework7 answer i = some (v', next)) (hi : i.carries s = true) (hs : (v'.session s).mConnected) :
    (∃ j ∈ next, j.carries s = true) ∨ ∃ job ∈ v'.posted, job.carries s = true := by
  cases i with
  | disconnectRequest x =>
    simp only [Instr.carries, decide_eq_true_eq] at hi
    subst hi
    simp only [exec] at he
    split at he <;> cases he
    · simp at hs
    next hx => exact absurd hs hx
  | isConnected c x =>
    simp only [Instr.carries, decide_eq_true_eq] at hi
    obtain ⟨hc, rfl⟩ := hi
    cases he
    rw [if_pos hs]
    left
    cases c with
    | acceptPreRecv | preRecv | postRecv =>
      simp [Call.body, Call.enter, Call.locks, Instr.carries, Call.receives]
    | _ => cases hc
  | bufferTest c x =>
    simp only [Instr.carries, decide_eq_true_eq] at hi
    obtain ⟨rfl, rfl⟩ := hi
    cases he
    left
    cases answer <;> simp [Call.granted, Call.refused, Call.leave, Call.locks, Instr.carries, Call.receives]
  | newContext c x =>
    simp only [exec, addRef, crash] at he
    split at he <;> cases he <;> exact .inl ⟨_, List.mem_singleton_self _, hi⟩
  | startIo c x =>
    simp only [Instr.carries, decide_eq_true_eq] at hi
    obtain ⟨hc, rfl⟩ := hi
    have hans := hk c x rfl
    cases answer with
    | true =>
      cases he
      right
      refine ⟨c.job x, List.mem_append_right _ (List.mem_singleton_self _), ?_⟩
      cases c with
      | acceptPreRecv | preRecv | postRecv => simp [Call.job, Job.carries]
      | _ => cases hc
    | false =>
      left
      cases c with
      | acceptPreRecv => exact absurd (hans rfl) Bool.false_ne_true
      -- the caller disconnects the session
      | preRecv | postRecv => cases he; simp [Call.afterFailure, Call.onFalse, Instr.carries]
      | _ => cases hc
  | socketSetup x =>
    simp only [Instr.carries, decide_eq_true_eq] at hi
    subst hi
    cases he
    left
    cases answer <;> simp [connectedClient, Instr.carries, Call.receives]
  | _ => cases hi

/-- The handler of a received context is to receive again, or to disconnect. -/
theorem handler_carries (c : Completion) (job : Job) (s : SessionId) :
    (if job.carries s then 1 else 0) ≤ (handler .homework7 c job).countP (Instr.carries s) := by
  split
  next hj =>
    apply List.countP_pos_iff.2
    cases job with
    | io ty x =>
      cases ty with
      | recv =>
        simp only [Job.carries, decide_eq_true_eq] at hj
        cases c with
        | done all calls =>
          refine ⟨.isConnected .preRecv x, ?_, ?_⟩
          · simp [handler, ioCompletion]
          · simp [Instr.carries, Call.receives, hj]
        | _ => simp [handler, ioCompletion, Instr.carries, hj]
      | recvZero =>
        simp only [Job.carries, decide_eq_true_eq] at hj
        simp [handler, ioCompletion, Instr.carries, Call.receives, hj]
      | _ => cases hj
    | _ => cases hj
  · exact Nat.zero_le _

/-- Whoever is connected is received from, or about to be disconnected. -/
def Carried (v : Server) : Prop := ∀ s, (v.session s).mConnected → 0 < v.carrying s

/-- A step of thread `t` replaces `i` by `next`. -/
theorem exec_carried {t : Nat} {th : Thread} {rest : List Instr} {list : List SessionId} (hv : v.Carried)
    (ht : v.threads[t]? = some th) (htodo : th.todo = i :: rest)
    (hk : ∀ c x, i = .startIo c x → c.abandons = true → answer = true)
    (he : v.exec .homework7 answer i = some (v', next)) (hc : v'.crashed = none) (hcon : (v'.session s).mConnected) :
    0 < (v'.setThread t { th with todo := next ++ rest, LSendRequestSessionList := list }).carrying s := by
  have hsum := carrying_setThread s { th with todo := next ++ rest, LSendRequestSessionList := list } ht (exec_threads he)
  have hposted : v.posted.countP (Job.carries s) ≤ v'.posted.countP (Job.carries s) := by
    rcases exec_posted he with hp | ⟨c, x, -, hp⟩ <;> rw [hp]
    rw [List.countP_append]
    omega
  have hle := countP_le_carrying s ht
  simp only [htodo, List.countP_append, List.countP_cons] at hsum hle
  by_cases hi : i.carries s = true
  -- the carrier leads on, and any other stays
  · have hnext : 0 < next.countP (Instr.carries s) + v'.posted.countP (Job.carries s) := by
      rcases exec_carries hk he hi hcon with hj | hj <;> have := List.countP_pos_iff.2 hj <;> omega
    omega
  · rcases exec_connected he hc hcon with h0 | ⟨rfl, rfl⟩
    -- some other instruction or context carried it
    · have hpos := hv s h0
      rw [if_neg hi] at hsum
      omega
    · have hone : [Instr.socketSetup s].countP (Instr.carries s) = 1 := by simp [Instr.carries]
      omega

theorem step_carried (hv : v.Carried) (ha : v.abandons a = false) (hs : v.step .homework7 a = some v') :
    v'.Carried := by
  by_cases hc : v'.crashed = none
  · intro s hcon
    cases a with
    | run t answer =>
      obtain ⟨-, th, i, rest, w, next, ht, htodo, he, rfl⟩ := step_run hs
      have hkeep := answer_of_abandons ha (i := i) (by simp [Server.next, ht, htodo])
      exact exec_carried hv ht htodo hkeep he hc hcon
    | dequeue t i c =>
      obtain ⟨-, th, job, ht, htodo, hj, -, ⟨hl, -⟩ | ⟨-, rfl⟩⟩ := step_dequeue hs
      · cases c <;> cases hl
      · have hpos := hv s hcon
        have hsum := carrying_assign (w := { v with posted := v.posted.eraseIdx i }) s (handler .homework7 c job)
          ht htodo rfl
        have hcount := countP_eraseIdx hj (Job.carries s)
        have hhandler := handler_carries c job s
        dsimp only at hsum
        omega
    | doSendJob t =>
      obtain ⟨-, th, x, list, ht, htodo, -, rfl⟩ := step_doSendJob hs
      have hpos := hv s hcon
      have hsum := carrying_assign s [.isConnected .flushSend x] ht htodo rfl
      omega
    | doDatabaseJob i ok =>
      obtain ⟨-, x, hj, rfl⟩ := step_doDatabaseJob hs
      split at hc
      next hok =>
        rw [if_pos hok] at hcon ⊢
        have hset := countP_set_of_eq (b := .db x) (p := Job.carries s) hj rfl
        have hpos := hv s hcon
        unfold carrying at hpos ⊢
        simp only [hset]
        exact hpos
      · cases hc
    | disconnectRequest t x =>
      obtain ⟨-, th, ht, htodo, rfl⟩ := step_disconnectRequest hs
      have hpos := hv s hcon
      have hsum := carrying_assign s [.disconnectRequest x] ht htodo rfl
      omega
  · rw [step_crash hs hc]
    exact hv

theorem start_carried (n : Nat) : (start .homework7 n).Carried := by
  intro s hs
  cases hs

/-! ## No session is lost -/

theorem running_of_atRest (hr : v.AtRest s) (m : Mark) : v.running m s = 0 := by
  apply tally_todos_eq_zero
  intro th hth i hi
  simp [Instr.holds, hr th hth i hi]

theorem carrying_of_atRest (hr : v.AtRest s) : v.carrying s = v.posted.countP (Job.carries s) := by
  have h0 : tally (Instr.carries s) v.todos = 0 := by
    apply tally_todos_eq_zero
    intro th hth i hi hcar
    apply hr th hth i hi
    cases i <;> simp [Instr.carries] at hcar <;> simp [Instr.session, hcar]
  rw [carrying, h0, Nat.zero_add]

/-- What a posted context stands for, it stands for in the books of its session. -/
theorem countP_le_owned {p : Job → Bool} (hp : ∀ job, p job = true → job.owner = s) :
    v.posted.countP p ≤ v.posted.countP (·.owner = s) := by
  apply List.countP_mono_left
  intro job _ hj
  simpa using hp job hj

theorem holds_owner {m : Mark} {job : Job} (hj : job.holds m s = true) : job.owner = s := by
  simp only [Job.holds, decide_eq_true_eq] at hj
  exact hj.1

theorem carries_owner {job : Job} (hj : job.carries s = true) : job.owner = s := by
  cases job with
  | io ty x => cases ty <;> simp [Job.carries] at hj <;> exact hj
  | _ => cases hj

theorem kept_of_tracked (ht : ∀ s, (v.books s).Tracked) (hc : v.Carried) : v.Kept := by
  intro s hr hf
  have hlive : v.liveContexts s = v.posted.countP (·.owner = s) + v.stranded.countP (·.owner = s) := by
    have h0 := running_of_atRest hr .token
    rw [running, holds_token] at h0
    rw [liveContexts, h0, Nat.zero_add]
  have hpos : 0 < v.liveContexts s := by
    by_contra h0
    have hposted : v.posted.countP (·.owner = s) = 0 := by omega
    have hmark (m : Mark) : v.posted.countP (Job.holds m s) = 0 := by
      have hle := countP_le_owned (v := v) fun job (hj : job.holds m s = true) => holds_owner hj
      omega
    -- connected, it would be received from
    have hcon : (v.session s).mConnected = false := by
      by_contra hcon
      have hcar := hc s (by simpa using hcon)
      have hle := countP_le_owned (v := v) fun job (hj : job.carries s = true) => carries_owner hj
      rw [carrying_of_atRest hr] at hcar
      omega
    have hfree : v.mFreeSessionList.count s = 0 := List.count_eq_zero.2 hf
    have hheld := (ht s).held
    have htokens : (v.books s).tokens = v.liveContexts s := books_tokens s
    simp only [books, booksWith, running_of_atRest hr, hmark, List.countP_nil, hcon, hfree,
      Bool.toNat_false] at hheld htokens
    omega
  refine ⟨hpos, fun hstranded => ?_⟩
  rw [hlive, hstranded, List.countP_nil, Nat.add_zero] at hpos
  obtain ⟨job, hj, howner⟩ := List.countP_pos_iff.1 hpos
  exact ⟨job, hj, by simpa using howner⟩

/-- No session is lost from the pool of Homework7 while the calls that nobody
makes up for do not fail at once. -/
theorem no_session_lost (n : Nat) (as : List Action)
    (hm : Meets (step .homework7) (fun v a => v.abandons a = false) (start .homework7 n) as)
    (hr : run (step .homework7) (start .homework7 n) as = some v) : v.Kept := by
  have hinv : (∀ s, (v.books s).Tracked) ∧ v.Carried := by
    refine inv_of_meets (I := fun v => (∀ s, (v.books s).Tracked) ∧ v.Carried) ?_ ?_ hm hr
    · rintro v a v' ⟨ht, hc⟩ ha hs
      exact ⟨step_tracked ht ha hs, step_carried hc ha hs⟩
    · exact ⟨start_tracked n, start_carried n⟩
  exact kept_of_tracked hinv.1 hinv.2

/-- `WSARecv` fails in `PostRecv`, and the client is disconnected. -/
def acceptedAndFailed : List Action := steps 0 5 ++ [.dequeue 2 0 (.done true [])] ++ steps 2 7 ++ clientFails

theorem no_session_lost_acceptedAndFailed :
    ∃ v, run (step .homework7) (start .homework7 1) acceptedAndFailed = some v ∧ v.AtRest firstClient ∧ v.Kept := by
  have hmap : (run (step .homework7) (start .homework7 1) acceptedAndFailed).map
      (fun v => decide (v.AtRest firstClient)) = some true := by decide +kernel
  obtain ⟨v, hr, hrest⟩ := Option.map_eq_some_iff.1 hmap
  exact ⟨v, hr, of_decide_eq_true hrest, no_session_lost 1 acceptedAndFailed (by decide +kernel) hr⟩

/-- The only `AcceptEx` fails. -/
def acceptFails : List Action := steps 0 4 ++ [.run 0 false] ++ steps 0 2

/-- `WSARecv` fails in `AcceptCompletion`. -/
def acceptRecvFails : List Action :=
  steps 0 5 ++ [.dequeue 2 0 (.done true [])] ++ steps 2 4 ++ [.run 2 false] ++ steps 2 3

/-- `WSARecv` fails in `PostRecv`, and so does `DisconnectEx`. -/
def disconnectFails : List Action :=
  steps 0 5 ++ [.dequeue 2 0 (.done true [])] ++ steps 2 7 ++
    [.dequeue 2 0 (.done true [])] ++ steps 2 3 ++ [.run 2 false] ++ steps 2 3 ++ [.run 2 false] ++ steps 2 2

/-- A session with a count and no context that no thread is busy with is lost. -/
theorem not_kept {as : List Action} (hm : Meets (step .homework7) SparesPeeked (start .homework7 1) as)
    (hmap : (run (step .homework7) (start .homework7 1) as).map (fun v =>
      (decide (v.AtRest firstClient), (v.session firstClient).mRefCount, v.liveContexts firstClient)) =
        some (true, 1, 0)) :
    ∃ v, run (step .homework7) (start .homework7 1) as = some v ∧ ¬ v.Kept := by
  obtain ⟨v, hr, hv⟩ := Option.map_eq_some_iff.1 hmap
  simp only [Prod.mk.injEq, decide_eq_true_eq] at hv
  obtain ⟨hrest, hcount, hlive⟩ := hv
  refine ⟨v, hr, fun hkept => ?_⟩
  -- what is counted is not free
  have hbooks := run_consistent hm hr
  have hrefs := mRefCount_eq hbooks firstClient
  have hfree := (referenced (s := firstClient) hbooks (by omega)).2
  have hpos := (hkept firstClient hrest hfree).1
  omega

/-- After each of these failures the session is left with a count of 1 and no
context. -/
theorem session_lost :
    (∃ v, run (step .homework7) (start .homework7 1) acceptFails = some v ∧ ¬ v.Kept) ∧
      (∃ v, run (step .homework7) (start .homework7 1) acceptRecvFails = some v ∧ ¬ v.Kept) ∧
      ∃ v, run (step .homework7) (start .homework7 1) disconnectFails = some v ∧ ¬ v.Kept := by
  refine ⟨not_kept ?_ ?_, not_kept ?_ ?_, not_kept ?_ ?_⟩ <;> decide +kernel

end Server

end GameServer.Lifecycle
