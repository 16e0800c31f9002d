import GameServer.Lib.Baton
import GameServer.Lib.Custody
import GameServer.Lib.Entries
import GameServer.Lib.Run
import GameServer.Lib.Tally
/-!
# Calls under one lock

Any number of threads make calls on one object. The code of a call enters and
leaves a lock between acts on the object; the lock does not let its holder in
again. A guarded call enters first, leaves last, and acts in between. Where every
call is guarded, each one returns, and the object is as if the calls were made one
after another in the order they entered (`Inv.serial`). A call that enters twice
never returns (`stuck_step`).
-/

namespace Lib

section
variable {α : Type*} {l : List α} {a b : α} {i : Nat}

theorem coe_erase (h : l[i]? = some a) : (l : Multiset α) = a ::ₘ (l.eraseIdx i : List α) := by
  simpa using coe_map_erase id h

theorem coe_set (h : l[i]? = some a) (b : α) : (l.set i b : Multiset α) = b ::ₘ (l.eraseIdx i : List α) := by
  simpa using coe_map_set id h b

end

namespace Guard

variable {κ β σ : Type*}

inductive Instr (β : Type*) where
  | enter
  | leave
  | act (b : β)
  deriving DecidableEq

/-- `call` is the last one the thread has made; it is in it while `todo` is not empty. -/
structure Thread (κ β : Type*) where
  call : Option κ
  todo : List (Instr β)
  holds : Bool
  deriving DecidableEq

/-- `calls` has every call, and `order` those that have entered the lock, in that
order. An act may end everything. -/
structure State (κ β σ : Type*) where
  locked : Bool
  data : σ
  threads : List (Thread κ β)
  calls : List κ
  order : List κ
  ended : Bool

inductive Action (κ : Type*) where
  | call (t : Nat) (c : κ)
  | run (t : Nat)
  deriving DecidableEq

def start (d : σ) (n : Nat) : State κ β σ := ⟨false, d, List.replicate n ⟨none, [], false⟩, [], [], false⟩

section
variable (code : κ → List (Instr β)) (exec : β → σ → Option σ)

/-- The next instruction of thread `t`. A thread that finds the lock taken tries again. -/
def runThread (s : State κ β σ) (t : Nat) (th : Thread κ β) : Option (State κ β σ) :=
  match th.todo with
  | [] => none
  | .enter :: rest =>
    if s.locked then some s
    else some { s with
      locked := true, order := s.order ++ th.call.toList, threads := s.threads.set t { th with todo := rest, holds := true } }
  | .leave :: rest =>
    some { s with locked := false, threads := s.threads.set t { th with todo := rest, holds := false } }
  | .act b :: rest =>
    match exec b s.data with
    | some d => some { s with data := d, threads := s.threads.set t { th with todo := rest } }
    | none => some { s with ended := true }

def step (s : State κ β σ) (a : Action κ) : Option (State κ β σ) :=
  if s.ended then none
  else match a with
    | .call t c =>
      match s.threads[t]? with
      | some th =>
        if th.todo = [] then
          some { s with calls := s.calls ++ [c], threads := s.threads.set t { th with call := some c, todo := code c } }
        else none
      | none => none
    | .run t => s.threads[t]?.bind fun th => runThread exec s t th

/-! ## One call after another -/

/-- The acts of some code, without the lock. -/
def acts : List (Instr β) → σ → Option σ
  | [], d => some d
  | .act b :: is, d => (exec b d).bind (acts is)
  | .enter :: is, d | .leave :: is, d => acts is d

def serial : List κ → σ → Option σ
  | [], d => some d
  | c :: cs, d => (acts exec (code c) d).bind (serial cs)

/-- The code enters the lock once, and does not end the process. -/
def Guarded (c : κ) : Prop :=
  ∃ body : List β, code c = .enter :: (body.map .act ++ [.leave]) ∧ ∀ b ∈ body, ∀ d, (exec b d).isSome

end

variable {code : κ → List (Instr β)} {exec : β → σ → Option σ} {s s' : State κ β σ} {th th' : Thread κ β} {t : Nat}
  {d d₀ : σ} {c : κ} {a : Action κ} {as : List (Action κ)}

theorem serial_append (cs cs' : List κ) (d : σ) :
    serial code exec (cs ++ cs') d = (serial code exec cs d).bind (serial code exec cs') := by
  induction cs generalizing d with
  | nil => rfl
  | cons c cs ih =>
    rw [List.cons_append, serial, serial, Option.bind_assoc]
    congr 1
    funext d'
    exact ih d'

/-! ## What a step does -/

/-- A thread has been given something to do, or has done an instruction. -/
inductive Effect (code : κ → List (Instr β)) (exec : β → σ → Option σ) (s : State κ β σ) (t : Nat) (th : Thread κ β) :
    Action κ → State κ β σ → Prop
  | called (c : κ) (hi : th.todo = []) : Effect code exec s t th (.call t c)
      { s with calls := s.calls ++ [c], threads := s.threads.set t { th with call := some c, todo := code c } }
  | spun (rest : List (Instr β)) (hi : th.todo = .enter :: rest) (hl : s.locked = true) : Effect code exec s t th (.run t) s
  | entered (rest : List (Instr β)) (hi : th.todo = .enter :: rest) (hl : s.locked = false) : Effect code exec s t th (.run t)
      { s with
        locked := true, order := s.order ++ th.call.toList,
        threads := s.threads.set t { th with todo := rest, holds := true } }
  | left (rest : List (Instr β)) (hi : th.todo = .leave :: rest) : Effect code exec s t th (.run t)
      { s with locked := false, threads := s.threads.set t { th with todo := rest, holds := false } }
  | acted (b : β) (rest : List (Instr β)) (d : σ) (hi : th.todo = .act b :: rest) (hd : exec b s.data = some d) :
      Effect code exec s t th (.run t) { s with data := d, threads := s.threads.set t { th with todo := rest } }
  | died (b : β) (rest : List (Instr β)) (hi : th.todo = .act b :: rest) (hd : exec b s.data = none) :
      Effect code exec s t th (.run t) { s with ended := true }

theorem effect_of_step (hs : step code exec s a = some s') :
    s.ended = false ∧ ∃ t th, s.threads[t]? = some th ∧ Effect code exec s t th a s' := by
  unfold step at hs
  split at hs
  · cases hs
  next he =>
    refine ⟨Bool.eq_false_iff.2 he, ?_⟩
    cases a with
    | call t c =>
      dsimp only at hs
      split at hs
      next th hth =>
        split at hs
        next hi =>
          cases hs
          exact ⟨t, th, hth, .called c hi⟩
        · cases hs
      · cases hs
    | run t =>
      obtain ⟨th, hth, hs⟩ := Option.bind_eq_some_iff.1 hs
      refine ⟨t, th, hth, ?_⟩
      unfold runThread at hs
      split at hs
      · cases hs
      next rest hi =>
        split at hs
        next hl =>
          cases hs
          exact .spun rest hi hl
        next hl =>
          cases hs
          exact .entered rest hi (Bool.eq_false_iff.2 hl)
      next rest hi =>
        cases hs
        exact .left rest hi
      next b rest hi =>
        split at hs
        next d hd =>
          cases hs
          exact .acted b rest d hi hd
        next hd =>
          cases hs
          exact .died b rest hi hd

/-! ## Guarded calls -/

/-- Where a thread stands whose calls are guarded. -/
inductive Phase (code : κ → List (Instr β)) (exec : β → σ → Option σ) (th : Thread κ β) : Prop
  | idle (hi : th.todo = []) (hh : th.holds = false)
  | waiting (c : κ) (hc : th.call = some c) (hg : Guarded code exec c) (hi : th.todo = code c) (hh : th.holds = false)
  | inside (body : List β) (hi : th.todo = body.map .act ++ [.leave]) (ht : ∀ b ∈ body, ∀ d, (exec b d).isSome)
      (hh : th.holds = true)

/-- The call of a thread that has yet to enter the lock. -/
def Thread.waiting (th : Thread κ β) : Option κ := if th.holds || th.todo.isEmpty then none else th.call

/-- What the thread that holds the lock has left to do completes the calls so far. -/
def Completes (exec : β → σ → Option σ) (p : σ × Option σ) (th : Thread κ β) : Prop :=
  th.holds = true → acts exec th.todo p.1 = p.2

structure Inv (code : κ → List (Instr β)) (exec : β → σ → Option σ) (d₀ : σ) (s : State κ β σ) : Prop where
  running : s.ended = false
  phase : ∀ th ∈ s.threads, Phase code exec th
  baton : Baton Thread.holds (Completes exec) (s.data, serial code exec s.order d₀) (s.threads : Multiset (Thread κ β))
  free : s.locked = false → (∀ th ∈ s.threads, th.holds = false) ∧ serial code exec s.order d₀ = some s.data
  held : s.locked = true → ∃ th ∈ s.threads, th.holds = true
  calls : (s.calls : Multiset κ) = s.order + (s.threads.filterMap Thread.waiting : List κ)

theorem Completes.of_quiet {p : σ × Option σ} (h : th.holds = false) : Completes exec p th := by
  intro hh
  rw [h] at hh
  cases hh

theorem inv_start (d : σ) (n : Nat) : Inv code exec d (start d n) where
  running := rfl
  phase th hth := by
    rw [List.eq_of_mem_replicate hth]
    exact .idle rfl rfl
  baton := by
    refine ⟨?_, fun th hth => ?_⟩
    · have hz : (Multiset.countP (Thread.holds ·) ((start d n : State κ β σ).threads : Multiset (Thread κ β))) = 0 := by
        rw [Multiset.countP_eq_zero]
        intro th hth
        rw [List.eq_of_mem_replicate hth]
        exact Bool.false_ne_true
      omega
    · rw [List.eq_of_mem_replicate hth]
      exact .of_quiet rfl
  free _ := ⟨fun th hth => by rw [List.eq_of_mem_replicate hth], rfl⟩
  held h := by cases h
  calls := by
    have hw : (start d n : State κ β σ).threads.filterMap Thread.waiting = [] := by
      rw [List.filterMap_eq_nil_iff]
      intro th hth
      rw [List.eq_of_mem_replicate hth]
      rfl
    rw [hw]
    rfl

/-- A thread at the lock is waiting for it. -/
theorem Phase.of_enter {rest : List (Instr β)} (h : Phase code exec th) (hi : th.todo = .enter :: rest) :
    ∃ (c : κ) (body : List β), th.call = some c ∧ Guarded code exec c ∧ code c = .enter :: rest ∧ th.holds = false ∧
      rest = body.map .act ++ [.leave] ∧ ∀ b ∈ body, ∀ d, (exec b d).isSome := by
  cases h with
  | idle hi' hh => rw [hi] at hi'; cases hi'
  | waiting c hc hg hi' hh =>
    obtain ⟨body, hbody, ht⟩ := hg
    rw [hi] at hi'
    refine ⟨c, body, hc, ⟨body, hbody, ht⟩, hi'.symm, hh, ?_, ht⟩
    rw [hbody] at hi'
    exact (List.cons.inj hi').2
  | inside body hi' ht hh =>
    rw [hi] at hi'
    cases body <;> cases hi'

theorem Phase.of_leave {rest : List (Instr β)} (h : Phase code exec th) (hi : th.todo = .leave :: rest) :
    rest = [] ∧ th.holds = true := by
  cases h with
  | idle hi' hh => rw [hi] at hi'; cases hi'
  | waiting c hc hg hi' hh =>
    obtain ⟨body, hbody, -⟩ := hg
    rw [hi, hbody] at hi'
    cases hi'
  | inside body hi' ht hh =>
    rw [hi] at hi'
    cases body with
    | nil =>
      cases hi'
      exact ⟨rfl, hh⟩
    | cons b body => cases hi'

theorem Phase.of_act {b : β} {rest : List (Instr β)} (h : Phase code exec th) (hi : th.todo = .act b :: rest) :
    th.holds = true ∧ (∀ d, (exec b d).isSome) ∧
      ∃ body : List β, rest = body.map .act ++ [.leave] ∧ ∀ b ∈ body, ∀ d, (exec b d).isSome := by
  cases h with
  | idle hi' hh => rw [hi] at hi'; cases hi'
  | waiting c hc hg hi' hh =>
    obtain ⟨body, hbody, -⟩ := hg
    rw [hi, hbody] at hi'
    cases hi'
  | inside body hi' ht hh =>
    rw [hi] at hi'
    cases body with
    | nil => cases hi'
    | cons b' body =>
      rw [List.map_cons, List.cons_append] at hi'
      obtain ⟨hb, rfl⟩ := List.cons.inj hi'
      cases hb
      exact ⟨hh, ht b List.mem_cons_self, body, rfl, fun b' hb' => ht b' (List.mem_cons_of_mem b hb')⟩

theorem Thread.waiting_of_holds (h : th.holds = true) : th.waiting = none := by
  unfold Thread.waiting
  rw [h]
  rfl

theorem Thread.waiting_of_idle (h : th.todo = []) : th.waiting = none := by
  unfold Thread.waiting
  rw [h, List.isEmpty_nil, Bool.or_true]
  rfl

/-- Only the thread that holds the lock acts, and what the calls before it have left
is what it found. -/
theorem inv_step (hi : Inv code exec d₀ s) (hg : ∀ t c, a = .call t c → Guarded code exec c)
    (hs : step code exec s a = some s') : Inv code exec d₀ s' := by
  obtain ⟨-, t, th, hth, he⟩ := effect_of_step hs
  have hmem := List.mem_of_getElem? hth
  have hph := hi.phase th hmem
  have hbaton := hi.baton
  have hcalls := hi.calls
  rw [coe_erase hth] at hbaton
  rw [coe_filterMap_erase _ hth] at hcalls
  cases he with
  | called c hidle =>
    obtain ⟨body, hbody, ht⟩ := hg t c rfl
    have hh : th.holds = false := by
      cases hph with
      | idle _ hh => exact hh
      | waiting c' _ hg' hi' hh => exact hh
      | inside body hi' => rw [hidle] at hi'; cases body <;> cases hi'
    refine ⟨hi.running, forall_set hi.phase (.waiting c rfl ⟨body, hbody, ht⟩ rfl hh), ?_, fun hl => ?_, fun hl => ?_, ?_⟩
    · rw [coe_set hth]
      exact hbaton.keep rfl (.of_quiet hh)
    · obtain ⟨hfree, hser⟩ := hi.free hl
      exact ⟨forall_set hfree hh, hser⟩
    · obtain ⟨th', hth', hh'⟩ := hi.held hl
      have hne : th' ≠ th := by
        rintro rfl
        rw [hh] at hh'
        cases hh'
      exact ⟨th', mem_set_of_ne hth hth' hne, hh'⟩
    · rw [coe_filterMap_set _ hth, ← Multiset.coe_add, hcalls, Thread.waiting_of_idle hidle]
      have hw : Thread.waiting { th with call := some c, todo := code c } = some c := by
        unfold Thread.waiting
        rw [hbody, hh]
        rfl
      rw [hw]
      simp only [Option.toList_none, Option.toList_some, Multiset.coe_nil, Multiset.coe_singleton]
      ac_rfl
  | spun rest hi' hl => exact hi
  | entered rest hi' hl =>
    obtain ⟨c, body, hc, hg', hcode, hh, rfl, ht⟩ := hph.of_enter hi'
    obtain ⟨hfree, hser⟩ := hi.free hl
    refine ⟨hi.running, forall_set hi.phase (.inside body rfl ht rfl), ?_, fun hl' => ?_, fun _ => ?_, ?_⟩
    · rw [coe_set hth]
      refine Baton.enter (fun th' hth' => ?_) fun _ => ?_
      · have hq := hfree th' (List.mem_of_mem_eraseIdx hth')
        exact ⟨hq, .of_quiet hq⟩
      · -- the acts of the call come after the calls before it
        rw [hc, Option.toList_some, serial_append, hser, Option.bind_some, serial, hcode, acts]
        exact (Option.bind_fun_some _).symm
    · cases hl'
    · exact ⟨_, List.mem_set (List.getElem?_eq_some_iff.1 hth).1 _, rfl⟩
    · have hw : th.waiting = some c := by
        unfold Thread.waiting
        rw [hh, hi', hc]
        rfl
      rw [coe_filterMap_set _ hth, Thread.waiting_of_holds rfl, hc, hcalls, hw, ← Multiset.coe_add]
      simp only [Option.toList_none, Option.toList_some, Multiset.coe_nil, Multiset.coe_singleton]
      ac_rfl
  | left rest hi' =>
    obtain ⟨rfl, hh⟩ := hph.of_leave hi'
    have hquiet := hbaton.rest_quiet hh
    have hdone := hbaton.head hh
    rw [hi'] at hdone
    have hall : ∀ th' ∈ s.threads.set t { th with todo := [], holds := false }, th'.holds = false := by
      intro th' hth'
      rw [← Multiset.mem_coe, coe_set hth, Multiset.mem_cons] at hth'
      rcases hth' with rfl | hth'
      · rfl
      · exact hquiet th' hth'
    refine ⟨hi.running, forall_set hi.phase (.idle rfl rfl), ?_, fun _ => ⟨hall, hdone.symm⟩, fun hl => ?_, ?_⟩
    · rw [coe_set hth]
      exact Baton.act (fun _ _ => .of_quiet) hbaton hh (.of_quiet rfl)
    · cases hl
    · rw [coe_filterMap_set _ hth, Thread.waiting_of_idle rfl, hcalls, Thread.waiting_of_holds hh]
  | acted b rest d hi' hd =>
    obtain ⟨hh, -, body, rfl, ht⟩ := hph.of_act hi'
    have hdone := hbaton.head hh
    rw [hi', acts, hd, Option.bind_some] at hdone
    have hin : ({ th with todo := body.map .act ++ [.leave] } : Thread κ β) ∈
        s.threads.set t { th with todo := body.map .act ++ [.leave] } :=
      List.mem_set (List.getElem?_eq_some_iff.1 hth).1 _
    refine ⟨hi.running, forall_set hi.phase (.inside body rfl ht hh), ?_, fun hl => ?_, fun _ => ⟨_, hin, hh⟩, ?_⟩
    · rw [coe_set hth]
      exact Baton.act (fun _ _ => .of_quiet) hbaton hh fun _ => hdone
    · have := (hi.free hl).1 th hmem
      rw [hh] at this
      cases this
    · have hw : Thread.waiting { th with todo := body.map .act ++ [.leave] } = none := Thread.waiting_of_holds hh
      rw [coe_filterMap_set _ hth, hw, hcalls, Thread.waiting_of_holds hh]
  | died b rest hi' hd =>
    obtain ⟨-, ht, -⟩ := hph.of_act hi'
    have := ht s.data
    rw [hd] at this
    cases this

/-! ## Every call returns -/

/-- How many instructions are left. -/
def remaining (s : State κ β σ) : Nat := (s.threads.map fun th => th.todo.length).sum

theorem remaining_lt {i : Instr β} {rest : List (Instr β)} (hth : s.threads[t]? = some th) (hi : th.todo = i :: rest)
    (h' : th'.todo = rest) (hs : s'.threads = s.threads.set t th') : remaining s' < remaining s := by
  have hold := (Multiset.coe_eq_coe.1 (coe_map_erase (fun th : Thread κ β => th.todo.length) hth)).sum_nat
  have hnew := (Multiset.coe_eq_coe.1 (coe_map_set (fun th : Thread κ β => th.todo.length) hth th')).sum_nat
  rw [List.sum_cons, hi, List.length_cons] at hold
  rw [List.sum_cons, h'] at hnew
  unfold remaining
  rw [hs]
  omega

/-- A thread that runs comes closer to its return, unless it waits for the lock. -/
theorem run_decreases (hi : Inv code exec d₀ s) (hs : step code exec s (.run t) = some s') :
    (s' = s ∧ s.locked = true ∧ ∃ th rest, s.threads[t]? = some th ∧ th.todo = .enter :: rest) ∨
      remaining s' < remaining s := by
  obtain ⟨-, t, th, hth, he⟩ := effect_of_step hs
  cases he with
  | spun rest hi' hl => exact .inl ⟨rfl, hl, th, rest, hth, hi'⟩
  | entered rest hi' hl => exact .inr (remaining_lt hth hi' rfl rfl)
  | left rest hi' => exact .inr (remaining_lt hth hi' rfl rfl)
  | acted b rest d hi' hd => exact .inr (remaining_lt hth hi' rfl rfl)
  | died b rest hi' hd =>
    have := ((hi.phase th (List.mem_of_getElem? hth)).of_act hi').2.1 s.data
    rw [hd] at this
    cases this

theorem run_of_todo (code : κ → List (Instr β)) (exec : β → σ → Option σ) {i : Instr β} {rest : List (Instr β)}
    (he : s.ended = false) (hth : s.threads[t]? = some th) (hi : th.todo = i :: rest) : ∃ s', step code exec s (.run t) = some s' := by
  unfold step
  rw [he]
  dsimp only
  rw [if_neg Bool.false_ne_true, hth, Option.bind_some]
  unfold runThread
  rw [hi]
  cases i with
  | enter =>
    dsimp only
    split <;> exact ⟨_, rfl⟩
  | leave => exact ⟨_, rfl⟩
  | act b =>
    dsimp only
    split <;> exact ⟨_, rfl⟩

/-- The thread in the lock does not try to enter it. -/
theorem Inv.not_enter (hi : Inv code exec d₀ s) (hth : th ∈ s.threads) (hh : th.holds = true) :
    th.todo.head? ≠ some .enter := by
  cases hi.phase th hth with
  | idle _ hh' => rw [hh] at hh'; cases hh'
  | waiting c _ _ _ hh' => rw [hh] at hh'; cases hh'
  | inside body hi' _ _ =>
    rw [hi']
    cases body <;> simp

/-- Some thread can go on. -/
theorem exists_run (hi : Inv code exec d₀ s) (hb : ∃ th ∈ s.threads, th.todo ≠ []) :
    ∃ t s', step code exec s (.run t) = some s' ∧ remaining s' < remaining s := by
  have hgo : ∃ (t : Nat) (th : Thread κ β) (i : Instr β) (rest : List (Instr β)), s.threads[t]? = some th ∧
      th.todo = i :: rest ∧ (i = .enter → s.locked = false) := by
    cases hl : s.locked with
    | true =>
      -- the thread that holds the lock, which does not enter it again
      obtain ⟨th, hth, hh⟩ := hi.held hl
      obtain ⟨t, ht⟩ := List.getElem?_of_mem hth
      cases hi.phase th hth with
      | idle _ hh' => rw [hh] at hh'; cases hh'
      | waiting c _ _ _ hh' => rw [hh] at hh'; cases hh'
      | inside body hi' _ _ =>
        cases body with
        | nil => exact ⟨t, th, .leave, [], ht, hi', fun h => by cases h⟩
        | cons b body => exact ⟨t, th, .act b, _, ht, hi', fun h => by cases h⟩
    | false =>
      obtain ⟨th, hth, hne⟩ := hb
      obtain ⟨t, ht⟩ := List.getElem?_of_mem hth
      obtain ⟨i, rest, hi'⟩ := List.exists_cons_of_ne_nil hne
      exact ⟨t, th, i, rest, ht, hi', fun _ => rfl⟩
  obtain ⟨t, th, i, rest, hth, hi', hfree⟩ := hgo
  obtain ⟨s', hs⟩ := run_of_todo code exec hi.running hth hi'
  refine ⟨t, s', hs, ?_⟩
  rcases run_decreases hi hs with ⟨-, hl, th', rest', hth', he⟩ | hlt
  · cases hth.symm.trans hth'
    rw [hi'] at he
    rw [hfree (List.cons.inj he).1] at hl
    cases hl
  · exact hlt

/-- All calls have returned. -/
def Idle (s : State κ β σ) : Prop := ∀ th ∈ s.threads, th.todo = []

theorem exists_idle (hi : Inv code exec d₀ s) :
    ∃ (ts : List Nat) (s' : State κ β σ), run (step code exec) s (ts.map .run) = some s' ∧ Idle s' := by
  induction hn : remaining s using Nat.strongRecOn generalizing s with
  | ind n ih =>
    by_cases hidle : Idle s
    · exact ⟨[], s, rfl, hidle⟩
    · obtain ⟨th, hth⟩ := not_forall.1 hidle
      obtain ⟨hmem, hne⟩ := Classical.not_imp.1 hth
      obtain ⟨t, s₁, hs, hlt⟩ := exists_run hi ⟨th, hmem, hne⟩
      obtain ⟨ts, s', hr, hd⟩ := ih _ (hn ▸ hlt) (inv_step hi (fun _ _ h => by cases h) hs) rfl
      exact ⟨t :: ts, s', run_cons.2 ⟨s₁, hs, hr⟩, hd⟩

/-- When all calls have returned the lock is free, and the object is as if they had
been made in the order they entered. -/
theorem Inv.serial (hi : Inv code exec d₀ s) (hd : Idle s) :
    s.locked = false ∧ s.order.Perm s.calls ∧ Guard.serial code exec s.order d₀ = some s.data := by
  have hl : s.locked = false := by
    rw [← Bool.not_eq_true]
    intro hl
    obtain ⟨th, hth, hh⟩ := hi.held hl
    cases hi.phase th hth with
    | idle _ hh' => rw [hh] at hh'; cases hh'
    | waiting c _ _ _ hh' => rw [hh] at hh'; cases hh'
    | inside body hi' _ _ => rw [hd th hth] at hi'; cases body <;> cases hi'
  have hw : s.threads.filterMap Thread.waiting = [] :=
    List.filterMap_eq_nil_iff.2 fun th hth => Thread.waiting_of_idle (hd th hth)
  have hcalls := hi.calls
  rw [hw, Multiset.coe_nil, Multiset.add_zero] at hcalls
  exact ⟨hl, (Multiset.coe_eq_coe.1 hcalls).symm, (hi.free hl).2⟩

/-! ## Calls that never return -/

/-- The code enters the lock twice. -/
def Nested (code : κ → List (Instr β)) (c : κ) : Prop := ∃ rest, code c = .enter :: .enter :: rest

/-- An act of the code ends the process. -/
def Fatal (code : κ → List (Instr β)) (exec : β → σ → Option σ) (c : κ) : Prop :=
  ∃ body : List β, code c = .enter :: (body.map .act ++ [.leave]) ∧ ∃ b ∈ body, ∀ d, exec b d = none

/-- A thread in the lock is stuck at its door, or has acts left and then leaves. -/
inductive Inside (th : Thread κ β) : Prop
  | stuck (rest : List (Instr β)) (hi : th.todo = .enter :: rest)
  | acting (body : List β) (hi : th.todo = body.map .act ++ [.leave])

/-- One thread at most is in the lock, and calls begin at it. -/
structure Ordered (code : κ → List (Instr β)) (s : State κ β σ) : Prop where
  count : s.threads.countP Thread.holds = s.locked.toNat
  outside : ∀ th ∈ s.threads, th.holds = false → th.todo = [] ∨ ∃ c, th.call = some c ∧ th.todo = code c
  inside : ∀ th ∈ s.threads, th.holds = true → Inside th

/-- The thread is in call `c`, which it will not finish. -/
structure Lost (code : κ → List (Instr β)) (exec : β → σ → Option σ) (c : κ) (th : Thread κ β) : Prop where
  call : th.call = some c
  busy : th.todo ≠ []
  waiting : th.holds = false → th.todo = code c
  inside : th.holds = true → (∃ rest, th.todo = .enter :: rest) ∨ ∃ b, .act b ∈ th.todo ∧ ∀ d, exec b d = none

theorem Inside.of_act {b : β} {rest : List (Instr β)} (h : Inside th) (hi : th.todo = .act b :: rest) :
    ∃ body : List β, rest = body.map .act ++ [.leave] := by
  cases h with
  | stuck rest' hi' => rw [hi] at hi'; cases hi'
  | acting body hi' =>
    rw [hi] at hi'
    cases body with
    | nil => cases hi'
    | cons b' body => exact ⟨body, (List.cons.inj hi').2⟩

theorem Inside.of_leave {rest : List (Instr β)} (h : Inside th) (hi : th.todo = .leave :: rest) : rest = [] := by
  cases h with
  | stuck rest' hi' => rw [hi] at hi'; cases hi'
  | acting body hi' =>
    rw [hi] at hi'
    cases body <;> cases hi'
    rfl

theorem Inside.busy (h : Inside th) : th.todo ≠ [] := by
  cases h with
  | stuck rest hi => rw [hi]; exact List.cons_ne_nil _ _
  | acting body hi => rw [hi]; simp

/-- The three kinds of calls. -/
def Known (code : κ → List (Instr β)) (exec : β → σ → Option σ) (c : κ) : Prop :=
  Guarded code exec c ∨ Nested code c ∨ Fatal code exec c

theorem Known.inside (hk : Known code exec c) : ∃ rest, code c = .enter :: rest ∧ ∀ th : Thread κ β, th.todo = rest → Inside th := by
  rcases hk with ⟨body, hc, -⟩ | ⟨rest, hc⟩ | ⟨body, hc, -⟩
  · exact ⟨_, hc, fun th hi => .acting body hi⟩
  · exact ⟨_, hc, fun th hi => .stuck rest hi⟩
  · exact ⟨_, hc, fun th hi => .acting body hi⟩

namespace Ordered

theorem start (d : σ) (n : Nat) : Ordered code (start d n) where
  count := by
    rw [List.countP_eq_zero.2]
    · rfl
    · intro th hth
      rw [List.eq_of_mem_replicate hth]
      exact Bool.false_ne_true
  outside th hth _ := by
    rw [List.eq_of_mem_replicate hth]
    exact .inl rfl
  inside th hth hh := by
    rw [List.eq_of_mem_replicate hth] at hh
    cases hh

/-- Only a thread in the lock has something other to do than to enter it. -/
theorem holds_of_todo (ho : Ordered code s) (hk : ∀ c, Known code exec c) (hth : th ∈ s.threads) {i : Instr β}
    {rest : List (Instr β)} (hi : th.todo = i :: rest) (hne : i ≠ .enter) : th.holds = true := by
  by_contra hh
  rcases ho.outside th hth (Bool.eq_false_iff.2 hh) with h | ⟨c, -, h⟩
  · rw [hi] at h
    cases h
  · obtain ⟨rest', hc, -⟩ := (hk c).inside
    rw [hi, hc] at h
    exact hne (List.cons.inj h).1

theorem locked_of_holds (ho : Ordered code s) (hth : th ∈ s.threads) (hh : th.holds = true) : s.locked = true := by
  have hpos : 0 < s.threads.countP Thread.holds := List.countP_pos_iff.2 ⟨th, hth, hh⟩
  rw [ho.count] at hpos
  cases hl : s.locked with
  | true => rfl
  | false =>
    rw [hl] at hpos
    cases hpos

theorem step (ho : Ordered code s) (hk : ∀ c, Known code exec c) (hs : step code exec s a = some s') : Ordered code s' := by
  obtain ⟨-, t, th, hth, he⟩ := effect_of_step hs
  have hmem := List.mem_of_getElem? hth
  have hset (th' : Thread κ β) := countP_set_add (p := Thread.holds) (b := th') hth
  have hkeep (th' : Thread κ β) (h : th'.holds = th.holds) : (s.threads.set t th').countP Thread.holds = s.locked.toNat :=
    (countP_set_of_eq hth h).trans ho.count
  cases he with
  | called c hi =>
    have hh : th.holds = false := by
      by_contra hh
      exact (ho.inside th hmem (Bool.not_eq_false _ ▸ hh)).busy hi
    refine ⟨hkeep _ rfl, forall_set ho.outside fun _ => .inr ⟨c, rfl, rfl⟩, forall_set ho.inside fun h => ?_⟩
    rw [hh] at h
    cases h
  | spun rest hi hl => exact ho
  | entered rest hi hl =>
    have hh : th.holds = false := by
      by_contra hh
      rw [ho.locked_of_holds hmem (Bool.not_eq_false _ ▸ hh)] at hl
      cases hl
    refine ⟨?_, forall_set ho.outside fun h => (by cases h), forall_set ho.inside fun _ => ?_⟩
    · have := hset { th with todo := rest, holds := true }
      rw [ho.count, hl, hh] at this
      exact this
    · rcases ho.outside th hmem hh with h | ⟨c, -, h⟩
      · rw [hi] at h
        cases h
      · obtain ⟨rest', hc, hin⟩ := (hk c).inside
        rw [hi, hc] at h
        exact hin _ (List.cons.inj h).2
  | left rest hi =>
    have hh := ho.holds_of_todo hk hmem hi (by simp)
    have hrest := (ho.inside th hmem hh).of_leave hi
    refine ⟨?_, forall_set ho.outside fun _ => .inl hrest, forall_set ho.inside fun h => (by cases h)⟩
    have := hset { th with todo := rest, holds := false }
    rw [ho.count, ho.locked_of_holds hmem hh, hh] at this
    simpa using this
  | acted b rest d hi hd =>
    have hh := ho.holds_of_todo hk hmem hi (by simp)
    obtain ⟨body, hbody⟩ := (ho.inside th hmem hh).of_act hi
    refine ⟨hkeep _ rfl, forall_set ho.outside fun h => ?_, forall_set ho.inside fun _ => .acting body hbody⟩
    rw [hh] at h
    cases h
  | died b rest hi hd => exact ⟨ho.count, ho.outside, ho.inside⟩

end Ordered

/-- A thread that is lost stays lost, or everything ends. -/
theorem lost_step (ho : Ordered code s) (hk : ∀ c, Known code exec c) (hb : Nested code c ∨ Fatal code exec c)
    (hl : ∃ th ∈ s.threads, Lost code exec c th) (hs : step code exec s a = some s') :
    s'.ended = true ∨ ∃ th ∈ s'.threads, Lost code exec c th := by
  obtain ⟨-, t, th₁, hth, he⟩ := effect_of_step hs
  obtain ⟨th, hmem, hl⟩ := hl
  have hlt := (List.getElem?_eq_some_iff.1 hth).1
  -- only the step of the thread itself matters
  by_cases hne : th = th₁
  · subst hne
    cases he with
    | called c' hi => exact absurd hi hl.busy
    | spun rest hi hlk => exact .inr ⟨th, hmem, hl⟩
    | entered rest hi hlk =>
      have hh : th.holds = false := by
        by_contra hh
        rw [ho.locked_of_holds hmem (Bool.not_eq_false _ ▸ hh)] at hlk
        cases hlk
      have hcode := hl.waiting hh
      rw [hi] at hcode
      refine .inr ⟨_, List.mem_set hlt _, hl.call, ?_, fun h => (by cases h), fun _ => ?_⟩
      · rcases hb with ⟨rest', hc⟩ | ⟨body, hc, -⟩ <;> rw [hc] at hcode <;> rw [(List.cons.inj hcode).2] <;> simp
      · rcases hb with ⟨rest', hc⟩ | ⟨body, hc, b, hbody, hd⟩ <;> rw [hc] at hcode
        · exact .inl ⟨rest', (List.cons.inj hcode).2⟩
        · exact .inr ⟨b, by rw [(List.cons.inj hcode).2]; simp [hbody], hd⟩
    | left rest hi =>
      have hh := ho.holds_of_todo hk hmem hi (by simp)
      rcases hl.inside hh with ⟨rest', h⟩ | ⟨b, hbody, -⟩
      · rw [hi] at h
        cases h
      · rw [hi, (ho.inside th hmem hh).of_leave hi] at hbody
        simp at hbody
    | acted b rest d hi hd =>
      have hh := ho.holds_of_todo hk hmem hi (by simp)
      obtain ⟨body, hrest⟩ := (ho.inside th hmem hh).of_act hi
      rcases hl.inside hh with ⟨rest', h⟩ | ⟨b', hbody, hfatal⟩
      · rw [hi] at h
        cases h
      · have hin : .act b' ∈ rest := by
          rw [hi, List.mem_cons] at hbody
          rcases hbody with h | h
          · cases h
            rw [hfatal] at hd
            cases hd
          · exact h
        refine .inr ⟨_, List.mem_set hlt _, hl.call, List.ne_nil_of_mem hin, fun h => ?_, fun _ => .inr ⟨b', hin, hfatal⟩⟩
        rw [hh] at h
        cases h
    | died b rest hi hd => exact .inl rfl
  · cases he with
    | called c' hi => exact .inr ⟨th, mem_set_of_ne hth hmem hne, hl⟩
    | spun rest hi hlk => exact .inr ⟨th, hmem, hl⟩
    | entered rest hi hlk => exact .inr ⟨th, mem_set_of_ne hth hmem hne, hl⟩
    | left rest hi => exact .inr ⟨th, mem_set_of_ne hth hmem hne, hl⟩
    | acted b rest d hi hd => exact .inr ⟨th, mem_set_of_ne hth hmem hne, hl⟩
    | died b rest hi hd => exact .inl rfl

theorem ordered_run (hk : ∀ c, Known code exec c) {n : Nat} (hr : run (step code exec) (start d n) as = some s) :
    Ordered code s :=
  inv_of_run (fun _ _ _ ho hs => Ordered.step ho hk hs) (Ordered.start d n) hr

/-- The call has been made, or not yet. -/
theorem lost_of_called (hk : ∀ c, Known code exec c) (hb : Nested code c ∨ Fatal code exec c) {n : Nat}
    (hr : run (step code exec) (start d n) as = some s) (hc : c ∈ s.calls) :
    s.ended = true ∨ ∃ th ∈ s.threads, Lost code exec c th := by
  have hI : Ordered code s ∧ (c ∈ s.calls → s.ended = true ∨ ∃ th ∈ s.threads, Lost code exec c th) := by
    refine inv_of_run (I := fun s => Ordered code s ∧ (c ∈ s.calls → s.ended = true ∨ ∃ th ∈ s.threads, Lost code exec c th))
      (fun s a s' h hs => ⟨h.1.step hk hs, fun hc' => ?_⟩) ⟨Ordered.start d n, fun h => (by cases h)⟩ hr
    obtain ⟨hrun, t, th, hth, he⟩ := effect_of_step hs
    by_cases hold : c ∈ s.calls
    · rcases h.2 hold with hend | hl
      · rw [hrun] at hend
        cases hend
      · exact lost_step h.1 hk hb hl hs
    · cases he with
      | called c' hi =>
        rcases List.mem_append.1 hc' with hc' | hc'
        · exact absurd hc' hold
        · cases List.mem_singleton.1 hc'
          obtain ⟨rest, hcode, -⟩ := (hk c).inside
          have hh : th.holds = false := by
            by_contra hh
            exact (h.1.inside th (List.mem_of_getElem? hth) (Bool.not_eq_false _ ▸ hh)).busy hi
          refine .inr ⟨_, List.mem_set (List.getElem?_eq_some_iff.1 hth).1 _, rfl, ?_, fun _ => rfl, fun h => ?_⟩
          · rw [hcode]
            exact List.cons_ne_nil _ _
          · rw [hh] at h
            cases h
      | spun rest hi hl => exact absurd hc' hold
      | entered rest hi hl => exact absurd hc' hold
      | left rest hi => exact absurd hc' hold
      | acted b rest d hi hd => exact absurd hc' hold
      | died b rest hi hd => exact absurd hc' hold
  exact hI.2 hc

theorem lost_run (hk : ∀ c, Known code exec c) (hb : Nested code c ∨ Fatal code exec c) (ho : Ordered code s)
    (hl : s.ended = true ∨ ∃ th ∈ s.threads, Lost code exec c th) (hr : run (step code exec) s as = some s') :
    s'.ended = true ∨ ∃ th ∈ s'.threads, Lost code exec c th := by
  have hI : Ordered code s' ∧ (s'.ended = true ∨ ∃ th ∈ s'.threads, Lost code exec c th) := by
    refine inv_of_run (I := fun s => Ordered code s ∧ (s.ended = true ∨ ∃ th ∈ s.threads, Lost code exec c th))
      (fun s a s' h hs => ⟨h.1.step hk hs, ?_⟩) ⟨ho, hl⟩ hr
    rcases h.2 with hend | hl
    · rw [(effect_of_step hs).1] at hend
      cases hend
    · exact lost_step h.1 hk hb hl hs
  exact hI.2

/-- Whatever happens after it was made, the call does not return. -/
theorem never_returns (hk : ∀ c, Known code exec c) (hb : Nested code c ∨ Fatal code exec c) {n : Nat}
    (hr : run (step code exec) (start d n) as = some s) (hc : c ∈ s.calls) {as' : List (Action κ)}
    (hr' : run (step code exec) s as' = some s') : s'.ended = true ∨ ∃ th ∈ s'.threads, th.call = some c ∧ th.todo ≠ [] :=
  (lost_run hk hb (ordered_run hk hr) (lost_of_called hk hb hr hc) hr').imp_right
    fun ⟨th, hth, hl⟩ => ⟨th, hth, hl.call, hl.busy⟩

/-- What is expected of the calls made so far: none tries to enter the lock it is in,
each thread that runs comes closer to its return, all can return, and when they
have, the lock is free and the object is as after the calls one by one. -/
structure Complete (code : κ → List (Instr β)) (exec : β → σ → Option σ) (d₀ : σ) (s : State κ β σ) : Prop where
  notEntering : ∀ th ∈ s.threads, th.holds = true → th.todo.head? ≠ some .enter
  closer : ∀ t s', step code exec s (.run t) = some s' → (s' = s ∧ s.locked = true) ∨ remaining s' < remaining s
  returns : ∃ (ts : List Nat) (s' : State κ β σ),
    run (step code exec) s (ts.map .run) = some s' ∧ Idle s' ∧ s'.ended = false
  serial : Idle s → s.locked = false ∧ s.order.Perm s.calls ∧ serial code exec s.order d₀ = some s.data

theorem inv_run {n : Nat} (hr : run (step code exec) (start d n) as = some s) (hg : ∀ c ∈ s.calls, Guarded code exec c) :
    Inv code exec d s := by
  refine inv_of_run (I := fun s => (∀ c ∈ s.calls, Guarded code exec c) → Inv code exec d s)
    (fun s a s' hi hs hg => ?_) (fun _ => inv_start d n) hr hg
  obtain ⟨-, t, th, hth, he⟩ := effect_of_step hs
  have hsub : ∀ c ∈ s.calls, c ∈ s'.calls := by
    intro c hc
    cases he with
    | called c' hi' => exact List.mem_append_left _ hc
    | _ => exact hc
  refine inv_step (hi fun c hc => hg c (hsub c hc)) (fun t' c' ha => ?_) hs
  subst ha
  cases he with
  | called c' hi' => exact hg c' (List.mem_append_right _ (List.mem_singleton.2 rfl))

/-- The calls complete if every one of them is guarded, and else do not. -/
theorem complete_iff (hk : ∀ c, Known code exec c) {n : Nat}
    (hr : run (step code exec) (start d n) as = some s) :
    Complete code exec d s ↔ ∀ c ∈ s.calls, Guarded code exec c := by
  constructor
  · intro h c hc
    by_contra hg
    obtain ⟨ts, s', hr', hidle, hend⟩ := h.returns
    rcases never_returns hk ((hk c).resolve_left hg) hr hc hr' with hend' | ⟨th, hth, -, hne⟩
    · rw [hend] at hend'
      cases hend'
    · exact hne (hidle th hth)
  · intro hg
    have hi := inv_run hr hg
    obtain ⟨ts, s', hr', hidle⟩ := exists_idle hi
    have hend : s'.ended = false := by
      refine Inv.running (inv_of_meets (P := fun _ a => ∀ t c, a = .call t c → Guarded code exec c)
        (fun _ _ _ hi hg hs => inv_step hi hg hs) hi (meets_of_forall fun a ha => ?_) hr')
      obtain ⟨t, -, rfl⟩ := List.mem_map.1 ha
      intro t c h
      cases h
    refine ⟨fun th hth hh => hi.not_enter hth hh, fun t s' hs => ?_, ⟨ts, s', hr', hidle, hend⟩, hi.serial⟩
    exact (run_decreases hi hs).imp_left fun h => ⟨h.1, h.2.1⟩

end Guard

end Lib
