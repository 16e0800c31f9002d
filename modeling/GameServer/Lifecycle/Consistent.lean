import Mathlib.Data.Fintype.Card
import Mathlib.Data.List.Nodup
import GameServer.Lifecycle.Step
/-!
# Consistent books

As long as no last reference is dropped while a thread stands between an
`IsConnected` test and the `AddRef` it makes on the strength of it, the books
of every session stay balanced, whatever the threads do and however the socket
calls end (`step_consistent`, `run_consistent`).
-/

namespace GameServer.Lifecycle

open Lib Books

/-- Whoever borrows a reference runs before the context is deleted. -/
def Covered : List Instr → Prop
  | [] => True
  | i :: rest => (∀ s, i.borrows = some s → .deleteContext s ∈ rest) ∧ Covered rest

theorem Covered.append {next rest : List Instr} {i : Instr} (hr : Covered (i :: rest))
    (hn : ∀ j ∈ next, ∀ s, j.borrows = some s → i.borrows = some s) : Covered (next ++ rest) := by
  induction next with
  | nil => exact hr.2
  | cons j next ih =>
    refine ⟨fun s hs => ?_, ih fun k hk => hn k (List.mem_cons_of_mem j hk)⟩
    have hi : i.borrows = some s := hn j List.mem_cons_self s hs
    exact List.mem_append_right next (hr.1 s hi)

/-- A handler deletes its context last. -/
theorem covered_handler {body : List Instr} {s : SessionId} (hb : ∀ i ∈ body, ∀ x, i.borrows = some x → x = s) :
    Covered (body ++ [.deleteContext s]) := by
  induction body with
  | nil => exact ⟨fun x hx => by simp [Instr.borrows] at hx, trivial⟩
  | cons i body ih =>
    refine ⟨fun x hx => ?_, ih fun j hj => hb j (List.mem_cons_of_mem i hj)⟩
    rw [hb i List.mem_cons_self x hx]
    exact List.mem_append_right body List.mem_cons_self

theorem Plain.borrows {is : List Instr} (hp : Plain is) {i : Instr} :
    ∀ j ∈ is, ∀ s, j.borrows = some s → i.borrows = some s := by
  intro j hj s hs
  simp [(hp j hj).2] at hs

/-- What the books show for the mark. -/
def Mark.shown (b : Books) : Mark → Nat
  | .token => b.tokens
  | .popped => b.popped
  | .wiping => b.wiping
  | .wiped => b.wiped
  | .opening => b.opening
  | .closing => b.closing
  | .peeking => b.peeking

namespace Server

variable {h : Homework} {v v' : Server} {answer : Bool} {i : Instr} {next : List Instr}

theorem body_borrows (c : Call) (x : SessionId) :
    ∀ j ∈ c.body h x, ∀ s, j.borrows = some s → (Instr.isConnected c x).borrows = some s := by
  cases c with
  | postRecv =>
    rw [Call.body, List.forall_mem_append]
    exact ⟨(plain_enter _ x).borrows, by simp [Instr.borrows]⟩
  | _ => simp [Call.body, Instr.borrows, Call.borrows]

theorem granted_borrows (c : Call) (x : SessionId) :
    ∀ j ∈ c.granted h x, ∀ s, j.borrows = some s → (Instr.bufferTest c x).borrows = some s := by
  cases c with
  | postSend => simp only [Call.granted]; split <;> simp [Instr.borrows]
  | _ => simp [Call.granted, Instr.borrows]

/-- An instruction leads to no borrower of another session. -/
theorem exec_borrows (he : v.exec h answer i = some (v', next)) :
    ∀ j ∈ next, ∀ s, j.borrows = some s → i.borrows = some s := by
  cases i with
  | isConnected c x =>
    cases he
    split
    · exact body_borrows c x
    · exact (plain_notConnected c x).borrows
  | bufferTest c x =>
    cases he
    split
    next hf =>
      subst hf
      unfold flushTest
      split <;> split <;> simp [Instr.borrows, Call.borrows]
    · split
      · exact granted_borrows c x
      · exact (plain_refused c x).borrows
  | startIo c x =>
    simp only [exec] at he
    split at he
    · cases he; exact (plain_started c x).borrows
    · split at he <;> cases he
      · exact (plain_nil).borrows
      · intro j hj s hs
        rcases List.mem_cons.1 hj with rfl | hj
        · exact hs
        · exact (plain_afterFailure c x).borrows j hj s hs
  | newContext c x | issueAddRef x =>
    simp only [exec, addRef, crash] at he
    split at he <;> cases he <;> simp [Instr.borrows, Call.borrows]
  | deleteContext x | disconnectCompletion x =>
    simp only [exec, releaseRef, crash] at he
    split at he
    · cases he; simp [Instr.borrows]
    · split at he <;> cases he <;> simp [Instr.borrows]
  | returning p x =>
    cases p <;> simp only [exec, returnClientSession, crash] at he <;> (try split at he) <;> cases he <;>
      simp [Instr.borrows]
  | acceptSession =>
    simp only [exec, acceptSession, crash] at he
    split at he
    · split at he <;> cases he <;> simp [Instr.borrows]
    · cases he; simp [Instr.borrows]
  | socketSetup x =>
    cases he
    split
    · cases h <;> simp [connectedClient, Instr.borrows, Call.borrows]
    · simp [Instr.borrows]
  | echoBack x =>
    cases he
    split <;> simp [Instr.borrows, Call.borrows]
  | feedLoop n =>
    cases n <;> cases he
    · simp
    · split <;> simp [Instr.borrows]
  | disconnectRequest | enterLock | acceptCompletion | startAccept | feedTest =>
    simp only [exec, crash] at he
    split at he <;> cases he <;> simp [Instr.borrows, Call.borrows]
  | sendStarted x =>
    cases he
    split <;> simp [Instr.borrows]
  | _ => cases he; simp [Instr.borrows]

/-- Every running handler is covered. -/
def AllCovered (v : Server) : Prop := ∀ th ∈ v.threads, Covered th.todo

theorem ioCompletion_borrows (c : Completion) (ty : IoType) (x : SessionId) :
    ∀ j ∈ ioCompletion h x ty c, ∀ s, j.borrows = some s → s = x := by
  have hr (calls : List HandlerCall) : ∀ j ∈ recvCompletion h x calls, ∀ s, j.borrows = some s → s = x := by
    cases h with
    | homework7 =>
      intro j hj s hs
      obtain ⟨call, -, rfl⟩ := List.mem_map.1 hj
      cases call <;> simp [HandlerCall.instr, Instr.borrows, Call.borrows] at hs
      exact hs.symm
    | _ => simp [recvCompletion, Instr.borrows]
  have hsend : ∀ j ∈ sendCompletion h x, ∀ s, j.borrows = some s → s = x := by
    unfold sendCompletion
    split <;> simp [Instr.borrows]
  cases ty with
  | send =>
    cases c with
    | done all calls =>
      cases all <;> rw [ioCompletion, List.forall_mem_append]
      · exact ⟨hsend, by simp [Instr.borrows]⟩
      · refine ⟨hsend, ?_⟩
        split <;> simp [Instr.borrows, Call.borrows]
    | _ => simp [ioCompletion, Instr.borrows]
  | recv =>
    cases c with
    | done all calls =>
      rw [ioCompletion, List.forall_mem_append]
      refine ⟨hr calls, ?_⟩
      split <;> simp [Instr.borrows, Call.borrows]
    | _ => simp [ioCompletion, Instr.borrows]
  | _ => simp [ioCompletion, Instr.borrows, Call.borrows]

theorem covered_handlerOf (c : Completion) (job : Job) : Covered (handler h c job) := by
  cases job with
  | io ty x => exact covered_handler (ioCompletion_borrows c ty x)
  | db x | dbRequest x =>
    apply covered_handler
    unfold dbCompletion
    split <;> simp [Instr.borrows, Call.borrows]

theorem setThread_covered {t : Nat} {th : Thread} (hv : v.AllCovered) (hth : Covered th.todo) :
    (v.setThread t th).AllCovered :=
  forall_set hv hth

theorem step_covered {a : Action} (hv : v.AllCovered) (hs : v.step h a = some v') : v'.AllCovered := by
  cases a with
  | run t answer =>
    obtain ⟨-, th, i, rest, w, next, ht, htodo, he, rfl⟩ := step_run hs
    have hw : w.AllCovered := by unfold AllCovered; rw [exec_threads he]; exact hv
    have hth : Covered (i :: rest) := htodo ▸ hv th (List.mem_of_getElem? ht)
    exact setThread_covered hw (hth.append (exec_borrows he))
  | dequeue t i c =>
    obtain ⟨-, th, job, -, -, -, -, ⟨-, rfl⟩ | ⟨-, rfl⟩⟩ := step_dequeue hs
    · exact hv
    · exact setThread_covered hv (covered_handlerOf c job)
  | doSendJob t =>
    obtain ⟨-, th, x, list, -, -, -, rfl⟩ := step_doSendJob hs
    exact setThread_covered hv (by simp [Covered, Instr.borrows, Call.borrows])
  | doDatabaseJob i ok =>
    obtain ⟨-, x, -, rfl⟩ := step_doDatabaseJob hs
    cases ok <;> exact hv
  | disconnectRequest t x =>
    obtain ⟨-, th, -, -, rfl⟩ := step_disconnectRequest hs
    exact setThread_covered hv (by simp [Covered, Instr.borrows])

/-- What an instruction of a thread stands for is in the books. -/
theorem marked_pos {t : Nat} {th : Thread} {s : SessionId} (m : Mark) (ht : v.threads[t]? = some th)
    (hi : i ∈ th.todo) (hs : i.session = some s) (hm : m ∈ i.marks) : 0 < m.shown (v.books s) := by
  have hh : i.holds m s := by simp [Instr.holds, hs, hm]
  have hle : th.todo.countP (Instr.holds m s) ≤ v.running m s :=
    countP_le_tally (List.mem_map_of_mem (List.mem_of_getElem? ht))
  have hpos : 0 < th.todo.countP (Instr.holds m s) := List.countP_pos_iff.2 ⟨i, hi, hh⟩
  cases m <;> simp only [Mark.shown, books, booksWith] <;> omega

theorem holds_token (s : SessionId) : Instr.holds .token s = Instr.owns s := by
  funext i
  cases i with
  | newContext c x => cases c <;> simp [Instr.holds, Instr.marks, Instr.owns, Call.peeks, Call.owed]
  | returning p x => cases p <;> simp [Instr.holds, Instr.marks, Instr.owns, ReturnStep.wipes]
  | bufferTest c x => cases c <;> simp [Instr.holds, Instr.marks, Instr.owns]
  | _ => simp [Instr.holds, Instr.marks, Instr.session, Instr.owns]

theorem books_tokens (s : SessionId) : (v.books s).tokens = v.liveContexts s := by
  have hj : Job.holds .token s = fun j => decide (j.owner = s) := by
    funext j
    unfold Job.holds Job.marks
    split <;> simp
  simp only [books, booksWith, running, holds_token, hj, List.countP_nil, Nat.add_zero, liveContexts]

/-- A context owes no step of a return, and nobody peeks by it. -/
theorem posted_unmarked {m : Mark} (hm : m ≠ .token ∧ m ≠ .opening ∧ m ≠ .closing) (s : SessionId) :
    v.posted.countP (Job.holds m s) = 0 := by
  rw [List.countP_eq_zero]
  intro job _
  unfold Job.holds Job.marks
  split <;> simp [hm]

theorem books_returning (s : SessionId) : (v.books s).wiping + (v.books s).wiped = v.returning s := by
  have hr (i : Instr) :
      (i.returns s).toNat = (i.holds .wiping s).toNat + (i.holds .wiped s).toNat := by
    cases i with
    | newContext c x | startIo c x | bufferTest c x =>
      cases c <;> simp [Instr.holds, Instr.marks, Instr.returns, Call.peeks, Call.owed]
    | returning p x => cases p <;> simp [Instr.holds, Instr.marks, Instr.session, Instr.returns, ReturnStep.wipes]
    | _ => simp [Instr.holds, Instr.marks, Instr.returns]
  have hwiping := posted_unmarked (v := v) (m := .wiping) (by simp) s
  have hwiped := posted_unmarked (v := v) (m := .wiped) (by simp) s
  simp only [books, booksWith, running, hwiping, hwiped, List.countP_nil, Nat.add_zero, returning, tally_add hr]

/-- The session that the action releases a reference of. -/
def releases (v : Server) : Action → Option SessionId
  | .run t _ =>
    match v.next t with
    | some (.deleteContext s) | some (.disconnectCompletion s) => some s
    | _ => none
  | _ => none

/-- The action does not drop the last reference of a session while a thread is
between its `IsConnected` test of the session and its own `AddRef`. -/
def SparesPeeked (v : Server) (a : Action) : Prop :=
  match v.releases a with
  | some s => (v.session s).mRefCount = 1 → v.running .peeking s = 0
  | none => True

structure Consistent (v : Server) : Prop where
  balanced : ∀ s, (v.books s).Balanced
  covered : v.AllCovered
  pool : v.mFreeSessionList.length + (v.mCurrentIssueCount - v.mCurrentReturnCount).toNat = MAX_CONNECTION

/-! ## A step keeps the books consistent -/

theorem not_connected {s : SessionId} (hc : (v.books s).connected = 0) : (v.session s).mConnected = false :=
  Bool.toNat_eq_zero.1 hc

theorem books_peeking (s : SessionId) : (v.books s).peeking = v.running .peeking s := by
  simp only [books, booksWith, posted_unmarked (m := .peeking) (by simp) s, List.countP_nil, Nat.add_zero]

theorem mRefCount_eq (hv : v.Consistent) (s : SessionId) :
    (v.session s).mRefCount = (v.books s).issue + (v.books s).tokens := (hv.balanced s).count_eq

/-- What has a reference is counted, and not free. -/
theorem referenced {s : SessionId} (hv : v.Consistent) (hs : 0 < (v.books s).issue + (v.books s).tokens) :
    0 < (v.session s).mRefCount ∧ s ∉ v.mFreeSessionList := by
  have hcount := mRefCount_eq hv s
  have hplace := (hv.balanced s).place
  have hl : (v.books s).listed = v.mFreeSessionList.count s := rfl
  exact ⟨by omega, List.count_eq_zero.1 (by omega)⟩

/-- A session is returned at most once for each time it is issued. -/
theorem returned_once (hv : v.Consistent) (s : SessionId) :
    (v.session s).returned ≤ (v.session s).issued ∧ (v.session s).issued ≤ (v.session s).returned + 1 := by
  have honce := (hv.balanced s).once
  have hplace := (hv.balanced s).place
  have hi : (v.books s).issued = (v.session s).issued := rfl
  have hr : (v.books s).returned = (v.session s).returned := rfl
  omega

variable {t : Nat} {th : Thread} {rest : List Instr}

/-- `AddRef` is called on a session that has a reference. -/
theorem referenced_of_newContext {c : Call} {s : SessionId} (hv : v.Consistent) (ht : v.threads[t]? = some th)
    (htodo : th.todo = .newContext c s :: rest) : 0 < (v.books s).issue + (v.books s).tokens := by
  have hmem : Instr.newContext c s ∈ th.todo := htodo ▸ List.mem_cons_self
  have hb := hv.balanced s
  have howed := hb.owed
  cases c with
  | postAccept =>
    have hpos : 0 < (v.books s).opening :=
      marked_pos .opening ht hmem rfl (by simp [Instr.marks, Call.peeks, Call.owed])
    omega
  | disconnectRequest =>
    have hpos : 0 < (v.books s).closing :=
      marked_pos .closing ht hmem rfl (by simp [Instr.marks, Call.peeks, Call.owed])
    omega
  | flushSend | sendFeedOnce =>
    exact hb.peek (marked_pos .peeking ht hmem rfl (by simp [Instr.marks, Call.peeks]))
  | _ =>
    -- the handler still owns the context it serves
    have hcov : Covered th.todo := hv.covered th (List.mem_of_getElem? ht)
    rw [htodo] at hcov
    have hdel : Instr.deleteContext s ∈ th.todo := by
      rw [htodo]
      exact List.mem_cons_of_mem _ (hcov.1 s rfl)
    have hpos : 0 < (v.books s).tokens := marked_pos .token ht hdel rfl (by simp [Instr.marks])
    omega

/-- `ReleaseRef` is called with the reference there. -/
theorem referenced_of_releaseRef {s : SessionId} (hv : v.Consistent) (ht : v.threads[t]? = some th) (hi : i ∈ th.todo)
    (hrel : i = .deleteContext s ∨ i = .disconnectCompletion s) : 0 < (v.session s).mRefCount := by
  have howed := (hv.balanced s).owed
  rcases hrel with rfl | rfl
  · have hpos : 0 < (v.books s).tokens := marked_pos .token ht hi rfl (by simp [Instr.marks])
    exact (referenced hv (by omega)).1
  · have hpos : 0 < (v.books s).closing := marked_pos .closing ht hi rfl (by simp [Instr.marks])
    exact (referenced hv (by omega)).1

theorem op_sound (hv : v.Consistent) (ht : v.threads[t]? = some th) (htodo : th.todo = i :: rest)
    (hp : v.SparesPeeked (.run t answer)) (s : SessionId) : (v.books s).Sound (i.op v answer s) := by
  have hnext : v.next t = some i := by simp [Server.next, ht, htodo]
  have hrel (hi : i = .deleteContext s ∨ i = .disconnectCompletion s) :
      (v.books s).count = 1 → (v.books s).peeking = 0 := by
    intro h1
    rw [books_peeking]
    rcases hi with rfl | rfl <;> simp only [SparesPeeked, releases, hnext] at hp <;> exact hp h1
  have hd := does_op v answer s i
  generalize i.op v answer s = o at hd ⊢
  cases hd with
  | acquire c => exact referenced_of_newContext hv ht htodo
  | drop => exact hrel (.inl rfl)
  | retire => exact hrel (.inr rfl)
  | lose c o hc => cases c <;> cases hc <;> trivial
  | returning p o ho => subst ho; cases p <;> trivial
  | _ => trivial

theorem canIssue_iff : v.canIssue ↔ (v.mCurrentIssueCount - v.mCurrentReturnCount).toNat < MAX_CONNECTION := by
  have h0 : (UInt64.ofNat MAX_CONNECTION).toNat = MAX_CONNECTION := rfl
  simp only [canIssue, decide_eq_true_eq, UInt64.lt_iff_toNat_lt, h0]

theorem toNat_succ_sub {a b : UInt64} (hab : (a - b).toNat < MAX_CONNECTION) :
    (a + 1 - b).toNat = (a - b).toNat + 1 := by
  have ha := a.toNat_lt
  have hb := b.toNat_lt
  unfold MAX_CONNECTION at hab
  simp only [UInt64.toNat_sub, UInt64.toNat_add, UInt64.toNat_one, Nat.reducePow] at *
  omega

theorem toNat_sub_succ {a b : UInt64} (hab : 0 < (a - b).toNat) : (a - (b + 1)).toNat + 1 = (a - b).toNat := by
  have ha := a.toNat_lt
  have hb := b.toNat_lt
  simp only [UInt64.toNat_sub, UInt64.toNat_add, UInt64.toNat_one, Nat.reducePow] at *
  omega

theorem addRef_no_crash {s : SessionId} {note : ClientSession → ClientSession} {n : List Instr} (hv : v.Consistent)
    (h0 : v.crashed = none) (he : v.addRef s note i n = some (v', next)) : v'.crashed = none := by
  have hcount := mRefCount_eq hv s
  unfold addRef at he
  rw [if_pos (by omega)] at he
  cases he
  exact h0

theorem releaseRef_no_crash {s : SessionId} {note : ClientSession → ClientSession} (h0 : v.crashed = none)
    (hs : 0 < (v.session s).mRefCount) (he : v.releaseRef s note i = some (v', next)) : v'.crashed = none := by
  unfold releaseRef at he
  rw [if_neg (by omega)] at he
  split at he <;> cases he <;> exact h0

/-- Nobody but the thread in `ReturnClientSession` has to do with the session. -/
theorem returning_no_crash {p : ReturnStep} {s : SessionId} (hv : v.Consistent) (h0 : v.crashed = none)
    (hs : p.wipes = true → 0 < (v.books s).wiping) (he : returnClientSession h v s p = some (v', next)) :
    v'.crashed = none := by
  have hplace := (hv.balanced s).place
  have howed := (hv.balanced s).owed
  have hcount := mRefCount_eq hv s
  cases p with
  | assertConnected | assertRefCount =>
    have hpos := hs rfl
    have hcon : (v.session s).mConnected = false := not_connected (by omega)
    have hzero : (v.session s).mRefCount = 0 := by omega
    simp only [returnClientSession, hcon, hzero, ne_eq, not_true_eq_false, Bool.false_eq_true, if_false] at he
    cases he
    exact h0
  | enter | enterSendLock =>
    simp only [returnClientSession] at he
    split at he <;> cases he
    exact h0
  | _ => cases he; exact h0

/-- The free list is not empty when a session is taken from it. -/
theorem acceptSession_no_crash (hv : v.Consistent) (h0 : v.crashed = none)
    (he : v.acceptSession = some (v', next)) : v'.crashed = none := by
  unfold acceptSession at he
  split at he
  next hi =>
    split at he
    next hf =>
      have hpool := hv.pool
      have hlt := canIssue_iff.1 hi
      rw [hf, List.length_nil] at hpool
      omega
    next => cases he; exact h0
  · cases he; exact h0

theorem exec_no_crash (hv : v.Consistent) (h0 : v.crashed = none) (ht : v.threads[t]? = some th)
    (htodo : th.todo = i :: rest) (he : v.exec h answer i = some (v', next)) : v'.crashed = none := by
  have hmem : i ∈ th.todo := htodo ▸ List.mem_cons_self
  cases i with
  | newContext c x | issueAddRef x =>
    simp only [exec] at he
    exact addRef_no_crash hv h0 he
  | deleteContext x =>
    simp only [exec] at he
    exact releaseRef_no_crash h0 (referenced_of_releaseRef hv ht hmem (.inl rfl)) he
  | disconnectCompletion x =>
    simp only [exec] at he
    exact releaseRef_no_crash h0 (referenced_of_releaseRef hv ht hmem (.inr rfl)) he
  | acceptCompletion x =>
    have hpos : 0 < (v.books x).opening := marked_pos .opening ht hmem rfl (by simp [Instr.marks])
    have howed := (hv.balanced x).owed
    have hle := (hv.balanced x).issue_le
    have hcon : (v.session x).mConnected = false := not_connected (by omega)
    simp only [exec, hcon] at he
    cases he
    exact h0
  | returning p x =>
    refine returning_no_crash hv h0 (fun hp => ?_) he
    exact marked_pos .wiping ht hmem rfl (by simp [Instr.marks, hp])
  | acceptSession => exact acceptSession_no_crash hv h0 he
  | startIo =>
    simp only [exec] at he
    split at he
    · cases he; exact h0
    · split at he <;> cases he <;> exact h0
  | feedLoop n => cases n <;> cases he <;> exact h0
  | disconnectRequest | enterLock | startAccept | feedTest =>
    simp only [exec] at he
    split at he <;> cases he <;> exact h0
  | _ => cases he; exact h0

theorem free_nodup (hv : ∀ s, (v.books s).Balanced) : v.mFreeSessionList.Nodup := by
  rw [List.nodup_iff_count_le_one]
  intro s
  have hplace := (hv s).place
  have hl : (v.books s).listed = v.mFreeSessionList.count s := rfl
  omega

/-- A session that is given back leaves room for it in the pool. -/
theorem length_lt_of_wiped {s : SessionId} (hv : ∀ s, (v.books s).Balanced) (hw : 0 < (v.books s).wiped) :
    v.mFreeSessionList.length < MAX_CONNECTION := by
  have hplace := (hv s).place
  have hl : (v.books s).listed = v.mFreeSessionList.count s := rfl
  have hs : s ∉ v.mFreeSessionList := List.count_eq_zero.1 (by omega)
  have hle := (List.nodup_cons.2 ⟨hs, free_nodup hv⟩).length_le_card
  rw [Fintype.card_fin] at hle
  exact hle

theorem pool_exec (hv : v.Consistent) (ht : v.threads[t]? = some th) (htodo : th.todo = i :: rest)
    (he : v.exec h answer i = some (v', next)) :
    v'.mFreeSessionList.length + (v'.mCurrentIssueCount - v'.mCurrentReturnCount).toNat = MAX_CONNECTION := by
  have hpool := hv.pool
  cases exec_change he with
  | pop s free f hi hf =>
    have hsub := toNat_succ_sub (canIssue_iff.1 hi)
    rw [hf, List.length_cons] at hpool
    show free.length + (v.mCurrentIssueCount + 1 - v.mCurrentReturnCount).toNat = MAX_CONNECTION
    omega
  | push s =>
    have hmem : Instr.returning .push s ∈ th.todo := htodo ▸ List.mem_cons_self
    have hw : 0 < (v.books s).wiped := marked_pos .wiped ht hmem rfl (by simp [Instr.marks, ReturnStep.wipes])
    have hlt := length_lt_of_wiped hv.balanced hw
    have hsub := toNat_sub_succ (a := v.mCurrentIssueCount) (b := v.mCurrentReturnCount) (by omega)
    simp only [List.length_cons]
    omega
  | _ => exact hpool

theorem step_sound {a : Action} (hv : v.Consistent) (hp : v.SparesPeeked a) (hs : v.step h a = some v') (s : SessionId) :
    (v.books s).Sound (a.op h v s) := by
  cases a with
  | run t answer =>
    obtain ⟨-, th, i, rest, w, next, ht, htodo, -, -⟩ := step_run hs
    have hop : (Action.run t answer).op h v s = i.op v answer s := by simp [Action.op, Server.next, ht, htodo]
    rw [hop]
    exact op_sound hv ht htodo hp s
  | dequeue t i c =>
    simp only [Action.op]
    split
    · split <;> trivial
    · split <;> trivial
    · trivial
  | _ => trivial

theorem step_pool {a : Action} (hv : v.Consistent) (hs : v.step h a = some v') :
    v'.mFreeSessionList.length + (v'.mCurrentIssueCount - v'.mCurrentReturnCount).toNat = MAX_CONNECTION := by
  cases a with
  | run t answer =>
    obtain ⟨-, th, i, rest, w, next, ht, htodo, he, rfl⟩ := step_run hs
    have hpool := pool_exec hv ht htodo he
    exact hpool
  | dequeue t i c =>
    obtain ⟨-, th, job, -, -, -, -, ⟨-, rfl⟩ | ⟨-, rfl⟩⟩ := step_dequeue hs <;> exact hv.pool
  | doSendJob t =>
    obtain ⟨-, th, x, list, -, -, -, rfl⟩ := step_doSendJob hs
    exact hv.pool
  | doDatabaseJob i ok =>
    obtain ⟨-, x, -, rfl⟩ := step_doDatabaseJob hs
    cases ok <;> exact hv.pool
  | disconnectRequest t x =>
    obtain ⟨-, th, -, -, rfl⟩ := step_disconnectRequest hs
    exact hv.pool

/-- Only a database thread that cannot post its result crashes. -/
theorem step_no_crash {a : Action} (hv : v.Consistent) (hs : v.step h a = some v') :
    v'.crashed = none ∨ ∃ i, a = .doDatabaseJob i false ∧ v'.crashed = some .postDatabaseResult := by
  cases a with
  | run t answer =>
    obtain ⟨h0, th, i, rest, w, next, ht, htodo, he, rfl⟩ := step_run hs
    have hw := exec_no_crash hv h0 ht htodo he
    exact .inl hw
  | dequeue t i c =>
    obtain ⟨h0, th, job, -, -, -, -, ⟨-, rfl⟩ | ⟨-, rfl⟩⟩ := step_dequeue hs <;> exact .inl h0
  | doSendJob t =>
    obtain ⟨h0, th, x, list, -, -, -, rfl⟩ := step_doSendJob hs
    exact .inl h0
  | doDatabaseJob i ok =>
    obtain ⟨h0, x, -, rfl⟩ := step_doDatabaseJob hs
    cases ok with
    | false => exact .inr ⟨i, rfl, rfl⟩
    | true => exact .inl h0
  | disconnectRequest t x =>
    obtain ⟨h0, th, -, -, rfl⟩ := step_disconnectRequest hs
    exact .inl h0

theorem step_consistent {a : Action} (hv : v.Consistent) (hp : v.SparesPeeked a) (hs : v.step h a = some v') :
    v'.Consistent := by
  by_cases hc : v'.crashed = none
  · refine ⟨fun s => ?_, step_covered hv.covered hs, step_pool hv hs⟩
    obtain ⟨hb, he⟩ := step_books hs hc s
    rw [hb]
    exact (hv.balanced s).after he (step_sound hv hp hs s)
  · rw [step_crash hs hc]
    exact ⟨hv.balanced, hv.covered, hv.pool⟩

end Server

theorem mem_prepareSessions {n : Nat} (hn : n ≤ MAX_CONNECTION) (s : SessionId) :
    (prepareSessions n hn).count s = if s.val < n then 1 else 0 := by
  induction n with
  | zero => simp [prepareSessions]
  | succ n ih =>
    rw [prepareSessions, List.count_cons, ih]
    by_cases hs : s.val = n
    · have : (⟨n, hn⟩ : SessionId) = s := Fin.ext hs.symm
      simp [this, hs]
    · have : (⟨n, hn⟩ : SessionId) ≠ s := fun he => hs (by rw [← he])
      simp [this]
      split <;> split <;> omega

theorem length_prepareSessions {n : Nat} (hn : n ≤ MAX_CONNECTION) : (prepareSessions n hn).length = n := by
  induction n with
  | zero => rfl
  | succ n ih => rw [prepareSessions, List.length_cons, ih]

namespace Server

variable {h : Homework} {v : Server}

theorem start_todo {n : Nat} {th : Thread} (ht : th ∈ (start h n).threads) :
    th.todo = [] ∨ th.todo = [.startAccept] ∨ th.todo = [.feedGeneration] := by
  simp only [start, List.mem_cons, List.mem_append, List.mem_replicate] at ht
  rcases ht with rfl | ht | ⟨-, rfl⟩
  · exact .inr (.inl rfl)
  · split at ht
    · simp only [List.mem_singleton] at ht
      subst ht
      exact .inr (.inr rfl)
    · cases ht
  · exact .inl rfl

theorem start_consistent (h : Homework) (n : Nat) : (start h n).Consistent where
  balanced s := by
    have hr (m : Mark) : (start h n).running m s = 0 := by
      apply tally_todos_eq_zero
      intro th hth i hi
      rcases start_todo hth with h0 | h0 | h0 <;> rw [h0] at hi
      · cases hi
      · rw [List.mem_singleton] at hi; subst hi; simp [Instr.holds, Instr.session]
      · rw [List.mem_singleton] at hi; subst hi; simp [Instr.holds, Instr.session]
    have hl : (start h n).mFreeSessionList.count s = 1 := by
      rw [start, mem_prepareSessions, if_pos s.isLt]
    constructor <;> simp [books, booksWith, hr, hl] <;> simp [start, ClientSession.new]
  covered := by
    intro th hth
    rcases start_todo hth with h0 | h0 | h0 <;> rw [h0] <;> simp [Covered, Instr.borrows]
  pool := by
    simp only [start, length_prepareSessions]
    rfl

/-- Every run whose steps spare the sessions that are peeked at keeps the books. -/
theorem run_consistent {n : Nat} {as : List Action} (hm : Meets (step h) SparesPeeked (start h n) as)
    (hr : run (step h) (start h n) as = some v) : v.Consistent :=
  inv_of_meets (fun _ _ _ hv hp hs => step_consistent hv hp hs) (start_consistent h n) hm hr

end Server

end GameServer.Lifecycle
