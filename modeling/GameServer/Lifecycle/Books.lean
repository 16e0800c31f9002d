import Mathlib.Algebra.Order.Group.Nat
import Mathlib.Logic.Function.Basic
import GameServer.Lib.RefCount
import GameServer.Lib.Tally
import GameServer.Lifecycle
/-!
# The books of a session

What the machine of `GameServer.Lifecycle` holds of one session: its contexts
wherever they are, its place in the pool, and the handlers that will release
its issue reference. `exec_books`: a step of a thread does to them what
`Instr.op` says, and nothing to those of any other session.
-/

namespace GameServer.Lifecycle

open Lib Books

/-- What an instruction or a posted context stands for in the books of its
session. -/
inductive Mark where
  | token
  | popped
  | wiping
  | wiped
  | opening
  | closing
  | peeking
  deriving DecidableEq

/-- Who creates the context of the call, or handles its completion, is to
release the issue reference or to connect the session. -/
@[grind =] def Call.owed : Call → List Mark
  | .postAccept => [.opening]
  | .disconnectRequest => [.closing]
  | _ => []

/-- The calls that take a reference on a session their thread holds none of. -/
def Call.peeks : Call → Bool
  | .flushSend | .sendFeedOnce => true
  | _ => false

def ReturnStep.wipes : ReturnStep → Bool
  | .enterSendLock | .leaveSendLock | .push => false
  | _ => true

@[grind =] def Instr.marks : Instr → List Mark
  | .startIo c _ => .token :: c.owed
  | .deleteContext _ => [.token]
  | .newContext c _ => if c.peeks then [.peeking] else c.owed
  | .bufferTest c _ => if c = .flushSend then [.peeking] else []
  | .acceptCompletion _ => [.opening]
  | .disconnectCompletion _ => [.closing]
  | .returning p _ => if p.wipes then [.wiping] else [.wiped]
  | .issueAddRef _ => [.popped]
  | _ => []

@[grind =] def Instr.session : Instr → Option SessionId
  | .disconnectRequest s | .isConnected _ s | .enterLock s | .leaveLock s | .bufferTest _ s | .newContext _ s
  | .startIo _ s | .sendStarted s | .sendCompletion s | .pushSendRequest s | .echoBack s | .acceptCompletion s
  | .socketSetup s | .subscribeFeed s | .disconnectCompletion s | .deleteContext s | .returning _ s
  | .issueAddRef s | .feedTest _ s => some s
  | .popSendRequest | .leaveManagerLock | .startAccept | .acceptSession | .feedGeneration | .feedLoop _ => none

def Instr.holds (m : Mark) (s : SessionId) (i : Instr) : Bool := i.session = some s ∧ m ∈ i.marks

/-- The calls made by the handler of a completion of their session. -/
def Call.borrows : Call → Bool
  | .postAccept | .disconnectRequest | .flushSend | .sendFeedOnce => false
  | _ => true

/-- The session whose context, held by the handler, stands in for a reference
that the instruction, or one it leads to, relies on. -/
@[grind =] def Instr.borrows : Instr → Option SessionId
  | .isConnected c s | .bufferTest c s | .newContext c s => if c.borrows then some s else none
  | .acceptCompletion s | .socketSetup s | .echoBack s => some s
  | _ => none

def Job.marks : Job → List Mark
  | .io .accept _ => [.token, .opening]
  | .io .disconnect _ => [.token, .closing]
  | _ => [.token]

def Job.holds (m : Mark) (s : SessionId) (j : Job) : Bool := j.owner = s ∧ m ∈ j.marks

namespace Server

/-- The books of `s` if the instructions `is` are to be executed, and `R` is
what all others stand for. -/
def booksWith (v : Server) (R : Mark → Nat) (is : List Instr) (s : SessionId) : Books :=
  let held (m : Mark) := R m + is.countP (Instr.holds m s) + v.posted.countP (Job.holds m s)
  { count := (v.session s).mRefCount
    issue := (v.session s).issueRef
    tokens := held .token + v.stranded.countP (·.owner = s)
    listed := v.mFreeSessionList.count s
    popped := held .popped
    wiping := held .wiping
    wiped := held .wiped
    opening := held .opening
    closing := held .closing
    connected := (v.session s).mConnected.toNat
    peeking := held .peeking
    issued := (v.session s).issued
    returned := (v.session s).returned }

end Server

/-- What a socket call that fails at once leaves to nobody. -/
def Call.loss : Call → Option Op
  | .postAccept => some .loseOpening
  | .disconnectRequest => some .loseClosing
  | _ => none

def ReturnStep.op : ReturnStep → Op
  | .resetConnected => .wipeConnected
  | .resetRefCount => .wipeCount
  | .push => .push
  | _ => .stay

/-- What a step that does not crash does, and to the books of which session. -/
@[grind =] def Instr.effect (v : Server) (answer : Bool) : Instr → Option (SessionId × Op)
  | .disconnectRequest s => if (v.session s).mConnected then some (s, .disconnect) else none
  | .isConnected c s => if c = .flushSend ∧ (v.session s).mConnected then some (s, .peek) else none
  | .bufferTest c s =>
    if c = .flushSend ∧ ¬ (answer ∧ (v.session s).mSendPendingCount ≤ 0) then some (s, .unpeek) else none
  | .newContext c s => some (s, if c.peeks then .acquirePeeked else .acquire)
  | .startIo c s => if answer then none else c.loss.map (s, ·)
  | .acceptCompletion s => some (s, .connect)
  | .disconnectCompletion s => some (s, .retire)
  | .deleteContext s => some (s, .drop)
  | .returning p s => some (s, p.op)
  | .acceptSession => if v.canIssue then v.mFreeSessionList.head?.map (·, .pop) else none
  | .issueAddRef s => some (s, .issue)
  | .feedTest _ s => if (v.session s).mConnected then some (s, .peek) else none
  | .enterLock _ | .leaveLock _ | .sendStarted _ | .sendCompletion _ | .pushSendRequest _ | .popSendRequest
  | .echoBack _ | .socketSetup _ | .subscribeFeed _ | .leaveManagerLock | .startAccept | .feedGeneration
  | .feedLoop _ => none

/-- What it does to the books of `s`. -/
@[grind =] def Instr.op (v : Server) (answer : Bool) (s : SessionId) (i : Instr) : Op :=
  match i.effect v answer with
  | some (x, o) => if x = s then o else .stay
  | none => .stay

/-- The instructions that do something to the books of `s`, and what they may do. -/
inductive Does (answer : Bool) (s : SessionId) : Instr → Op → Prop where
  | stay {i : Instr} : Does answer s i .stay
  | disconnect : Does answer s (.disconnectRequest s) .disconnect
  | peek : Does answer s (.isConnected .flushSend s) .peek
  | feedPeek (n : Nat) : Does answer s (.feedTest n s) .peek
  | unpeek : Does answer s (.bufferTest .flushSend s) .unpeek
  | acquire (c : Call) : Does answer s (.newContext c s) .acquire
  | acquirePeeked (c : Call) : Does answer s (.newContext c s) .acquirePeeked
  | lose (c : Call) (o : Op) (hc : c.loss = some o) (ha : answer = false) : Does answer s (.startIo c s) o
  | connect : Does answer s (.acceptCompletion s) .connect
  | retire : Does answer s (.disconnectCompletion s) .retire
  | drop : Does answer s (.deleteContext s) .drop
  | returning (p : ReturnStep) (o : Op) (ho : p.op = o) : Does answer s (.returning p s) o
  | pop : Does answer s .acceptSession .pop
  | issue : Does answer s (.issueAddRef s) .issue

theorem does_op (v : Server) (answer : Bool) (s : SessionId) (i : Instr) : Does answer s i (i.op v answer s) := by
  unfold Instr.op
  split
  next x o he =>
    split
    next hx =>
      subst hx
      cases i with
      | acceptCompletion | disconnectCompletion | deleteContext | issueAddRef => cases he; constructor
      | returning p y => cases he; exact .returning p _ rfl
      | newContext c y =>
        cases he
        split <;> constructor
      | startIo c y =>
        simp only [Instr.effect] at he
        split at he
        · cases he
        next ha =>
          obtain ⟨o', hc, ho⟩ := Option.map_eq_some_iff.1 he
          cases ho
          exact .lose c o hc (Bool.not_eq_true _ ▸ ha)
      | acceptSession =>
        simp only [Instr.effect] at he
        split at he
        · obtain ⟨y, -, hy⟩ := Option.map_eq_some_iff.1 he
          cases hy; exact .pop
        · cases he
      | isConnected c y | bufferTest c y =>
        simp only [Instr.effect] at he
        split at he
        next hc => obtain ⟨rfl, -⟩ := hc; cases he; constructor
        · cases he
      | disconnectRequest | feedTest =>
        simp only [Instr.effect] at he
        split at he <;> cases he
        constructor
      | _ => cases he
    · exact .stay
  · exact .stay

/-- The instructions stand for nothing in the books. -/
def Unmarked (is : List Instr) : Prop := ∀ i ∈ is, i.marks = []

/-- They rely on no reference either. -/
def Plain (is : List Instr) : Prop := ∀ i ∈ is, i.marks = [] ∧ i.borrows = none

section Tables

variable {h : Homework} {is js : List Instr} {i : Instr}

@[simp] theorem unmarked_nil : Unmarked [] := by simp [Unmarked]

@[simp] theorem unmarked_cons : Unmarked (i :: is) ↔ i.marks = [] ∧ Unmarked is := by simp [Unmarked]

@[simp] theorem unmarked_append : Unmarked (is ++ js) ↔ Unmarked is ∧ Unmarked js := by
  simp only [Unmarked, List.forall_mem_append]

@[simp] theorem plain_nil : Plain [] := by simp [Plain]

@[simp] theorem plain_cons : Plain (i :: is) ↔ (i.marks = [] ∧ i.borrows = none) ∧ Plain is := by simp [Plain]

@[simp] theorem plain_append : Plain (is ++ js) ↔ Plain is ∧ Plain js := by
  simp only [Plain, List.forall_mem_append]

theorem Plain.unmarked (hp : Plain is) : Unmarked is := fun i hi => (hp i hi).1

theorem countP_holds_of_unmarked (hu : Unmarked is) (m : Mark) (s : SessionId) : is.countP (Instr.holds m s) = 0 := by
  rw [List.countP_eq_zero]
  intro i hi
  simp [Instr.holds, hu i hi]

theorem plain_onFalse (c : Call) (s : SessionId) : Plain (c.onFalse h s) := by
  cases c with
  | preRecv | postRecv => simp [Call.onFalse, Instr.marks, Instr.borrows]
  | postSend => simp only [Call.onFalse]; split <;> simp [Instr.marks, Instr.borrows]
  | _ => exact plain_nil

theorem plain_enter (c : Call) (s : SessionId) : Plain (c.enter h s) := by
  unfold Call.enter
  split <;> simp [Instr.marks, Instr.borrows]

theorem plain_leave (c : Call) (s : SessionId) : Plain (c.leave h s) := by
  unfold Call.leave
  split <;> simp [Instr.marks, Instr.borrows]

theorem plain_notConnected (c : Call) (s : SessionId) : Plain (c.notConnected h s) := by
  cases c with
  | flushSend => simp [Call.notConnected, Instr.marks, Instr.borrows]
  | _ => simp [Call.notConnected, plain_onFalse]

theorem plain_refused (c : Call) (s : SessionId) : Plain (c.refused h s) := by
  cases c with
  | postRecv => simp [Call.refused, plain_leave, Instr.marks, Instr.borrows]
  | _ => exact plain_leave _ s

theorem plain_started (c : Call) (s : SessionId) : Plain (c.started h s) := by
  cases c with
  | postAccept | flushSend => simp [Call.started, Instr.marks, Instr.borrows]
  | _ => exact plain_leave _ s

theorem plain_afterFailure (c : Call) (s : SessionId) : Plain (c.afterFailure h s) := by
  cases c with
  | postAccept | flushSend | sendRequest => simp [Call.afterFailure, Instr.marks, Instr.borrows]
  | postSend => simp only [Call.afterFailure]; split <;> simp [Instr.marks, Instr.borrows]
  | _ => exact plain_append.2 ⟨plain_leave _ s, plain_onFalse _ s⟩

theorem unmarked_body {c : Call} (hc : c ≠ .flushSend) (s : SessionId) : Unmarked (c.body h s) := by
  cases c with
  | postRecv => simp [Call.body, (plain_enter _ s).unmarked, Instr.marks]
  | flushSend => exact absurd rfl hc
  | _ => simp [Call.body, Instr.marks, Call.peeks, Call.owed]

theorem unmarked_granted (c : Call) (s : SessionId) : Unmarked (c.granted h s) := by
  cases c with
  | postSend => simp only [Call.granted]; split <;> simp [Instr.marks, Call.peeks, Call.owed]
  | _ => simp [Call.granted, Instr.marks, Call.peeks, Call.owed]

theorem unmarked_connectedClient (s : SessionId) : Unmarked (connectedClient s h) := by
  cases h <;> simp [connectedClient, Instr.marks, Call.peeks, Call.owed]

end Tables

namespace Server

variable {h : Homework} {v v' : Server} {answer : Bool} {i : Instr} {next : List Instr}

@[simp] theorem modify_session (s : SessionId) (f : ClientSession → ClientSession) (x : SessionId) :
    (v.modify s f).session x = if x = s then f (v.session s) else v.session x := by
  simp only [modify, Function.update_apply]

@[simp] theorem modify_posted (s f) : (v.modify s f).posted = v.posted := rfl
@[simp] theorem modify_stranded (s f) : (v.modify s f).stranded = v.stranded := rfl
@[simp] theorem modify_free (s f) : (v.modify s f).mFreeSessionList = v.mFreeSessionList := rfl

/-- `AddRef`, unless its assertion fails. -/
theorem addRef_cases {s : SessionId} {note : ClientSession → ClientSession} {n : List Instr}
    (he : v.addRef s note i n = some (v', next)) (hc : v'.crashed = none) :
    v' = v.modify s (fun ses => note { ses with mRefCount := ses.mRefCount + 1 }) ∧ next = n := by
  unfold addRef at he
  split at he
  · cases he
    exact ⟨rfl, rfl⟩
  · cases he
    cases hc

/-- `ReleaseRef`, unless its assertion fails. -/
theorem releaseRef_cases {s : SessionId} {note : ClientSession → ClientSession}
    (he : v.releaseRef s note i = some (v', next)) (hc : v'.crashed = none) :
    ((v.session s).mRefCount = 1 ∧ next = [.returning .enter s] ∧
      v' = v.modify s (fun ses => note { ses with mRefCount := 0, returned := ses.returned + 1 })) ∨
    (1 < (v.session s).mRefCount ∧ next = [] ∧
      v' = v.modify s (fun ses => note { ses with mRefCount := ses.mRefCount - 1 })) := by
  simp only [releaseRef] at he
  split at he
  · cases he
    cases hc
  · split at he
    · cases he
      next h₁ h₂ => exact .inl ⟨by omega, rfl, by rw [h₂]⟩
    · cases he
      exact .inr ⟨by omega, rfl, rfl⟩

/-- A change of `x` alone. -/
theorem booksWith_modify_of_ne {R : Mark → Nat} {is : List Instr} {s x : SessionId} (hs : s ≠ x)
    (f : ClientSession → ClientSession) : (v.modify x f).booksWith R is s = v.booksWith R is s := by
  simp [booksWith, hs]

theorem booksWith_unmarked {R : Mark → Nat} {is : List Instr} {s : SessionId} (hu : Unmarked is) :
    v.booksWith R is s = v.booksWith R [] s := by
  simp [booksWith, countP_holds_of_unmarked hu]

theorem booksWith_cons_unmarked {R : Mark → Nat} {is : List Instr} {s : SessionId} (hu : Unmarked is) :
    v.booksWith R (i :: is) s = v.booksWith R [i] s := by
  simp only [booksWith, List.countP_cons, List.countP_nil, countP_holds_of_unmarked hu]

/-- Instructions of another session stand for nothing in the books of `s`. -/
theorem booksWith_of_session {R : Mark → Nat} {is : List Instr} {s : SessionId}
    (hi : ∀ i ∈ is, i.session ≠ some s) : v.booksWith R is s = v.booksWith R [] s := by
  have h0 (m : Mark) : is.countP (Instr.holds m s) = 0 := by
    rw [List.countP_eq_zero]
    intro i h
    simp [Instr.holds, hi i h]
  simp [booksWith, h0]

/-- From `v` to `v'` the instruction `i`, replaced by `next`, does to the books of
every session what `Instr.op` says. -/
def Booked (v v' : Server) (answer : Bool) (i : Instr) (next : List Instr) : Prop :=
  ∀ (R : Mark → Nat) (s : SessionId), v'.booksWith R next s = (v.booksWith R [i] s).after (i.op v answer s) ∧
    (v.booksWith R [i] s).Enabled (i.op v answer s)

theorem booked_stay (he : i.effect v answer = none) (hi : i.marks = []) (hn : Unmarked next)
    (hv : ∀ R s, v'.booksWith R [] s = v.booksWith R [] s) : Booked v v' answer i next := by
  intro R s
  have hop : i.op v answer s = .stay := by simp [Instr.op, he]
  have hu : Unmarked [i] := by simp [hi]
  rw [hop, booksWith_unmarked hn, hv, booksWith_unmarked hu]
  exact ⟨rfl, trivial⟩

theorem booked_effect {x : SessionId} {o : Op} (he : i.effect v answer = some (x, o)) (hi : i.session = some x)
    (hn : ∀ j ∈ next, ∀ s, j.session = some s → s = x)
    (hv : ∀ R s, s ≠ x → v'.booksWith R [] s = v.booksWith R [] s)
    (hx : ∀ R, v'.booksWith R next x = (v.booksWith R [i] x).after o ∧ (v.booksWith R [i] x).Enabled o) :
    Booked v v' answer i next := by
  intro R s
  by_cases hs : s = x
  · subst hs
    have hop : i.op v answer s = o := by simp [Instr.op, he]
    rw [hop]
    exact hx R
  · have hop : i.op v answer s = .stay := by simp [Instr.op, he, Ne.symm hs]
    have hnext : ∀ j ∈ next, j.session ≠ some s := fun j hj h => hs (hn j hj s h)
    have hother : ∀ j ∈ [i], j.session ≠ some s := by simp [hi, Ne.symm hs]
    rw [hop, booksWith_of_session hnext, hv R s hs, booksWith_of_session hother]
    exact ⟨rfl, trivial⟩

/-- A lock or a counter of pending sends is in no books. -/
theorem booked_modify {x : SessionId} {f : ClientSession → ClientSession} (he : i.effect v answer = none)
    (hi : i.marks = []) (hn : Unmarked next) (hc : ∀ ses, (f ses).mRefCount = ses.mRefCount)
    (hm : ∀ ses, (f ses).mConnected = ses.mConnected) (hr : ∀ ses, (f ses).issueRef = ses.issueRef)
    (hd : ∀ ses, (f ses).issued = ses.issued ∧ (f ses).returned = ses.returned) :
    Booked v (v.modify x f) answer i next := by
  apply booked_stay he hi hn
  intro R s
  by_cases hs : s = x <;> simp [booksWith, hs, hc, hm, hr, hd]

theorem booked_newContext (c : Call) (x : SessionId) :
    Booked v (v.modify x fun ses => { ses with mRefCount := ses.mRefCount + 1 }) answer (.newContext c x)
      [.startIo c x] := by
  apply booked_effect (x := x) rfl rfl
  · simp [Instr.session]
  · intro R s hs; exact booksWith_modify_of_ne hs _
  · intro R
    cases c <;> simp [booksWith, Instr.holds, Instr.session, Instr.marks, Call.peeks, Call.owed, after, Enabled] <;>
      omega

theorem booked_posted (c : Call) (x : SessionId) :
    Booked v { v with posted := v.posted ++ [c.job x] } true (.startIo c x) (c.started h x) := by
  intro R s
  rw [booksWith_unmarked (plain_started c x).unmarked]
  have hop : (Instr.startIo c x).op v true s = .stay := by simp [Instr.op, Instr.effect]
  rw [hop]
  refine ⟨?_, trivial⟩
  by_cases hs : x = s
  · cases c <;> simp [booksWith, Instr.holds, Instr.session, Instr.marks, Call.owed, Call.job, Job.holds, Job.owner,
      Job.marks, after, hs] <;> omega
  · cases c <;> simp [booksWith, Instr.holds, Instr.session, Instr.marks, Call.job, Job.holds, Job.owner, after, hs]

theorem booked_stranded {c : Call} (hc : c.strands) (x : SessionId) :
    Booked v { v with stranded := v.stranded ++ [c.job x] } false (.startIo c x) [] := by
  intro R s
  have hop : (Instr.startIo c x).op v false s = .stay := by
    cases c <;> simp [Call.strands] at hc <;> simp [Instr.op, Instr.effect, Call.loss]
  rw [hop]
  refine ⟨?_, trivial⟩
  by_cases hs : x = s
  · cases c <;> simp [Call.strands] at hc <;>
      simp [booksWith, Instr.holds, Instr.session, Instr.marks, Call.owed, Call.job, Job.owner, after, hs] <;> omega
  · cases c <;> simp [Call.strands] at hc <;>
      simp [booksWith, Instr.holds, Instr.session, Call.job, Job.owner, after, hs]

theorem booked_failed {c : Call} (hc : ¬ c.strands) (x : SessionId) :
    Booked v v false (.startIo c x) (.deleteContext x :: c.afterFailure h x) := by
  intro R s
  rw [booksWith_cons_unmarked (plain_afterFailure c x).unmarked]
  by_cases hs : x = s
  · cases c <;> simp [Call.strands] at hc <;>
      simp [booksWith, Instr.op, Instr.effect, Call.loss, Instr.holds, Instr.session, Instr.marks, Call.owed, after,
        Enabled, hs]
  · cases c <;> simp [Call.strands] at hc <;>
      simp [booksWith, Instr.op, Instr.effect, Call.loss, Instr.holds, Instr.session, after, Enabled, hs]

theorem booked_unpeek {x : SessionId} (hu : ¬ (answer ∧ (v.session x).mSendPendingCount ≤ 0)) (hn : Unmarked next) :
    Booked v v answer (.bufferTest .flushSend x) next := by
  have he : (Instr.bufferTest .flushSend x).effect v answer = some (x, .unpeek) := if_pos ⟨rfl, hu⟩
  intro R s
  rw [booksWith_unmarked hn, Instr.op, he]
  by_cases hs : x = s
  · simp [booksWith, Instr.holds, Instr.session, Instr.marks, after, Enabled, hs]
  · simp [booksWith, Instr.holds, Instr.session, after, Enabled, hs]

theorem booked_flushTest (x : SessionId) :
    Booked v v answer (.bufferTest .flushSend x) (flushTest answer (v.session x) x) := by
  unfold flushTest
  split
  next ha =>
    split
    next hp => exact booked_unpeek (by omega) (by simp [Instr.marks])
    next hp =>
      -- still to create its context
      intro R s
      have hop : (Instr.bufferTest .flushSend x).op v answer s = .stay := by
        simp only [Instr.op, Instr.effect]
        rw [if_neg (fun h => h.2 ⟨ha, by omega⟩)]
      rw [hop]
      exact ⟨by simp [booksWith, Instr.holds, Instr.session, Instr.marks, Call.peeks, after], trivial⟩
  next ha => exact booked_unpeek (by simp [ha]) (by split <;> simp [Instr.marks])

/-- A step of `ReturnClientSession` changes the books of its session only. -/
theorem booked_returning {p : ReturnStep} {x : SessionId} (he : returnClientSession h v x p = some (v', next))
    (hc : v'.crashed = none) : Booked v v' answer (.returning p x) next := by
  cases p <;> simp only [returnClientSession, crash] at he
  case push =>
    cases he
    apply booked_effect (x := x) rfl rfl
    · simp [Instr.session]
    · intro R s hs; simp [booksWith, Ne.symm hs]
    · intro R
      simp [booksWith, Instr.holds, Instr.session, Instr.marks, ReturnStep.op, ReturnStep.wipes, after, Enabled]
  case resetConnected | resetRefCount | leaveSendLock =>
    cases he
    apply booked_effect (x := x) rfl rfl
    · simp [Instr.session]
    · intro R s hs; exact booksWith_modify_of_ne hs _
    · intro R
      cases h <;>
        simp [booksWith, Instr.holds, Instr.session, Instr.marks, ReturnStep.op, ReturnStep.wipes, after, Enabled] <;>
        omega
  -- a lock to wait for, or an assertion that may fail
  all_goals
    split at he <;> cases he
    first | cases hc | skip
    apply booked_effect (x := x) rfl rfl
    · simp [Instr.session]
    · intro R s hs; first | rfl | exact booksWith_modify_of_ne hs _
    · intro R
      simp [booksWith, Instr.holds, Instr.session, Instr.marks, ReturnStep.op, ReturnStep.wipes, after, Enabled]

theorem booked_disconnectRequest {x : SessionId} (he : v.exec h answer (.disconnectRequest x) = some (v', next)) :
    Booked v v' answer (.disconnectRequest x) next := by
  simp only [exec] at he
  split at he <;> cases he
  next hx =>
    apply booked_effect (x := x) (o := .disconnect) (by simp [Instr.effect, hx]) rfl
    · simp [Instr.session]
    · intro R s hs; exact booksWith_modify_of_ne hs _
    · intro R
      simp [booksWith, Instr.holds, Instr.session, Instr.marks, Call.peeks, Call.owed, hx, after, Enabled]
      omega
  next hx => exact booked_stay (by simp [Instr.effect, hx]) rfl (by simp) (fun _ _ => rfl)

/-- Only `FlushSend` holds no reference while it is past its test. -/
theorem booked_isConnected {c : Call} {x : SessionId} (he : v.exec h answer (.isConnected c x) = some (v', next)) :
    Booked v v' answer (.isConnected c x) next := by
  cases he
  by_cases hf : c = .flushSend ∧ (v.session x).mConnected
  · obtain ⟨rfl, hx⟩ := hf
    apply booked_effect (x := x) (o := .peek) (by simp [Instr.effect, hx]) rfl
    · simp [hx, Call.body, Instr.session]
    · intro R s hs; rfl
    · intro R
      simp [booksWith, Instr.holds, Instr.session, Instr.marks, Call.body, hx, after, Enabled]
      omega
  · apply booked_stay (by simp [Instr.effect, hf]) rfl _ (fun _ _ => rfl)
    split
    next hx => exact unmarked_body (fun h => hf ⟨h, hx⟩) x
    next => exact (plain_notConnected c x).unmarked

theorem booked_bufferTest {c : Call} {x : SessionId} (he : v.exec h answer (.bufferTest c x) = some (v', next)) :
    Booked v v' answer (.bufferTest c x) next := by
  cases he
  by_cases hf : c = .flushSend
  · subst hf
    exact booked_flushTest x
  · apply booked_stay (by simp [Instr.effect, hf]) (by simp [Instr.marks, hf]) _ (fun _ _ => rfl)
    rw [if_neg hf]
    split
    · exact unmarked_granted c x
    · exact (plain_refused c x).unmarked

theorem booked_startIo {c : Call} {x : SessionId} (he : v.exec h answer (.startIo c x) = some (v', next)) :
    Booked v v' answer (.startIo c x) next := by
  simp only [exec] at he
  split at he
  next ha => cases he; rw [ha]; exact booked_posted c x
  next ha =>
    rw [Bool.not_eq_true] at ha
    split at he <;> cases he <;> rw [ha]
    next hs => exact booked_stranded hs x
    next hs => exact booked_failed hs x

theorem booked_acceptCompletion {x : SessionId} (he : v.exec h answer (.acceptCompletion x) = some (v', next))
    (hc : v'.crashed = none) : Booked v v' answer (.acceptCompletion x) next := by
  simp only [exec, crash] at he
  split at he <;> cases he
  · cases hc
  next hx =>
    apply booked_effect (x := x) rfl rfl
    · simp [Instr.session]
    · intro R s hs; exact booksWith_modify_of_ne hs _
    · intro R
      simp [booksWith, Instr.holds, Instr.session, Instr.marks, hx, after, Enabled]

/-- The two callers of `ReleaseRef`. -/
theorem booked_releaseRef {x : SessionId} (hi : i = .disconnectCompletion x ∨ i = .deleteContext x)
    (he : v.exec h answer i = some (v', next)) (hc : v'.crashed = none) : Booked v v' answer i next := by
  rcases hi with rfl | rfl
  all_goals
    simp only [exec] at he
    apply booked_effect (x := x) rfl rfl
    · rcases releaseRef_cases he hc with ⟨-, rfl, -⟩ | ⟨-, rfl, -⟩ <;> simp [Instr.session]
    · intro R s hs
      rcases releaseRef_cases he hc with ⟨-, -, rfl⟩ | ⟨-, -, rfl⟩ <;> exact booksWith_modify_of_ne hs _
    · intro R
      rcases releaseRef_cases he hc with ⟨h₁, rfl, rfl⟩ | ⟨h₁, rfl, rfl⟩
      · simp [booksWith, Instr.holds, Instr.session, Instr.marks, ReturnStep.wipes, after, release, Enabled, h₁]
        omega
      · have h₂ : (v.session x).mRefCount ≠ 1 := by omega
        simp [booksWith, Instr.holds, Instr.session, Instr.marks, after, release, Enabled, h₂]
        omega

theorem booked_acceptSession (he : v.exec h answer .acceptSession = some (v', next)) (hc : v'.crashed = none) :
    Booked v v' answer .acceptSession next := by
  simp only [exec, acceptSession] at he
  split at he
  next hi =>
    intro R s
    match hf : v.mFreeSessionList, he with
    | [], he => cases he; cases hc
    | x :: rest, he =>
      cases he
      by_cases hs : x = s
      · subst hs
        simp [booksWith, Instr.op, Instr.effect, Instr.holds, Instr.session, Instr.marks, after, Enabled, hi, hf]
        omega
      · simp [booksWith, Instr.op, Instr.effect, Instr.holds, Instr.session, after, Enabled, hi, hf, hs, Ne.symm hs]
  next hi =>
    cases he
    exact booked_stay (by simp [Instr.effect, hi]) rfl (by simp [Instr.marks]) (fun _ _ => rfl)

theorem booked_issueAddRef {x : SessionId} (he : v.exec h answer (.issueAddRef x) = some (v', next))
    (hc : v'.crashed = none) : Booked v v' answer (.issueAddRef x) next := by
  simp only [exec] at he
  obtain ⟨rfl, rfl⟩ := addRef_cases he hc
  apply booked_effect (x := x) rfl rfl
  · simp [Instr.session]
  · intro R s hs; exact booksWith_modify_of_ne hs _
  · intro R
    simp [booksWith, Instr.holds, Instr.session, Instr.marks, Call.peeks, Call.owed, after, Enabled]
    omega

theorem booked_feedTest {j : Nat} {x : SessionId} (he : v.exec h answer (.feedTest j x) = some (v', next)) :
    Booked v v' answer (.feedTest j x) next := by
  simp only [exec] at he
  split at he <;> cases he
  next hx =>
    apply booked_effect (x := x) (o := .peek) (by simp [Instr.effect, hx]) rfl
    · simp [Instr.session]
    · intro R s hs; rfl
    · intro R
      simp [booksWith, Instr.holds, Instr.session, Instr.marks, Call.peeks, hx, after, Enabled]
      omega
  next hx => exact booked_stay (by simp [Instr.effect, hx]) rfl (by simp) (fun _ _ => rfl)

theorem exec_books (he : v.exec h answer i = some (v', next)) (hc : v'.crashed = none) :
    Booked v v' answer i next := by
  cases i with
  | disconnectRequest x => exact booked_disconnectRequest he
  | isConnected c x => exact booked_isConnected he
  | bufferTest c x => exact booked_bufferTest he
  | newContext c x =>
    obtain ⟨rfl, rfl⟩ := addRef_cases he hc
    exact booked_newContext c x
  | startIo c x => exact booked_startIo he
  | acceptCompletion x => exact booked_acceptCompletion he hc
  | disconnectCompletion x => exact booked_releaseRef (.inl rfl) he hc
  | deleteContext x => exact booked_releaseRef (.inr rfl) he hc
  | returning p x => exact booked_returning he hc
  | acceptSession => exact booked_acceptSession he hc
  | issueAddRef x => exact booked_issueAddRef he hc
  | feedTest j x => exact booked_feedTest he
  -- the others are in no books
  | feedLoop n =>
    cases n <;> cases he
    · exact booked_stay rfl rfl (by simp) (fun _ _ => rfl)
    · refine booked_stay rfl rfl ?_ (fun _ _ => rfl)
      split <;> simp [Instr.marks]
  | socketSetup x =>
    cases he
    refine booked_stay rfl rfl ?_ (fun _ _ => rfl)
    split
    · exact unmarked_connectedClient x
    · simp [Instr.marks]
  | echoBack x =>
    cases he
    refine booked_stay rfl rfl ?_ (fun _ _ => rfl)
    split <;> simp [Instr.marks]
  | enterLock x =>
    simp only [exec] at he
    split at he <;> cases he
    exact booked_modify rfl rfl (by simp) (fun _ => rfl) (fun _ => rfl) (fun _ => rfl) (fun _ => ⟨rfl, rfl⟩)
  | sendStarted x =>
    cases he
    refine booked_modify rfl rfl ?_ (fun _ => rfl) (fun _ => rfl) (fun _ => rfl) (fun _ => ⟨rfl, rfl⟩)
    split <;> simp [Instr.marks]
  | leaveLock x | sendCompletion x =>
    cases he
    exact booked_modify rfl rfl (by simp) (fun _ => rfl) (fun _ => rfl) (fun _ => rfl) (fun _ => ⟨rfl, rfl⟩)
  | startAccept =>
    simp only [exec] at he
    split at he <;> cases he
    exact booked_stay rfl rfl (by simp [Instr.marks]) (fun _ _ => rfl)
  | pushSendRequest x | popSendRequest | subscribeFeed x | leaveManagerLock | feedGeneration =>
    cases he
    exact booked_stay rfl rfl (by simp [Instr.marks]) (fun _ _ => rfl)

end Server

end GameServer.Lifecycle
