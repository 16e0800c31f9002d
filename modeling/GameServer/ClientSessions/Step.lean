import GameServer.ClientSessions
import GameServer.Lib.Run
import GameServer.Lib.Visits
/-!
# What a step changes

`lines` are what the threads that work on a client do next, and `contexts` what is
outstanding with its completion key. A step changes the record, the lines and the
contexts of one client only.
-/

namespace GameServer.ClientSessions

open Lib

variable {s s' : State} {x y t i : Nat} {c c' : ClientSession} {line : Line} {next : Option Line} {answer : Bool}
  {context : OverlappedIOContext}

def place (o : Option Frame) : Option (Nat × Line) := o.map fun f => (f.client, f.line)

theorem visitAt_place : visitAt place x (some ⟨x, line⟩) = some line := visitAt_eq_some.2 rfl

namespace State

def lines (s : State) (x : Nat) : Multiset Line := visits place s.threads x

def contexts (s : State) (x : Nat) : Multiset OverlappedIOContext := visits some s.posted x

theorem mem_lines : line ∈ s.lines x ↔ some ⟨x, line⟩ ∈ s.threads := by
  unfold lines
  rw [mem_visits]
  constructor
  · rintro ⟨o, ho, hf⟩
    obtain ⟨f, rfl, he⟩ := Option.map_eq_some_iff.1 hf
    cases he
    exact ho
  · intro h
    exact ⟨_, h, rfl⟩

theorem mem_contexts : context ∈ s.contexts x ↔ (x, context) ∈ s.posted := by
  unfold contexts
  rw [mem_visits]
  constructor
  · rintro ⟨p, hp, he⟩
    cases he
    exact hp
  · intro h
    exact ⟨_, h, rfl⟩

/-- The lines of a client but for those of thread `t`. -/
def otherLines (s : State) (t x : Nat) : Multiset Line :=
  visits place (s.threads.eraseIdx t) x

theorem mem_otherLines : line ∈ s.otherLines t x ↔ some ⟨x, line⟩ ∈ s.threads.eraseIdx t :=
  mem_lines (s := { s with threads := s.threads.eraseIdx t })

theorem lines_of_idle (ht : s.threads[t]? = some none) (x : Nat) : s.lines x = s.otherLines t x := by
  have h := visits_erase (f := place) ht x
  rw [visitAt_of_ne (fun k hk => by cases hk)] at h
  exact h.trans (zero_add _)

theorem lines_of_frame (ht : s.threads[t]? = some (some ⟨x, line⟩)) : s.lines x = line ::ₘ s.otherLines t x := by
  have h := visits_erase (f := place) ht x
  rw [visitAt_place] at h
  exact h

/-- A thread that was idle takes on a client that nobody has. -/
theorem lines_enter (ht : s.threads[t]? = some none) (hs : s'.threads = s.threads.set t (some ⟨x, line⟩))
    (h0 : s.lines x = 0) : s'.lines x = {line} := by
  have hothers : s.otherLines t x = 0 := (lines_of_idle ht x).symm.trans h0
  rw [lines, hs, visits_set ht, visitAt_place]
  exact (congrArg ({line} + ·) hothers).trans (add_zero _)

theorem lines_enter_ne (ht : s.threads[t]? = some none) (hs : s'.threads = s.threads.set t (some ⟨x, line⟩))
    (hy : y ≠ x) : s'.lines y = s.lines y := by
  rw [lines, hs]
  refine visits_set_of_ne ht (fun k hk => by cases hk) fun k hk => ?_
  cases hk
  exact hy rfl

/-! ## One client -/

/-- The thread does `next` next, with the same client if with one. -/
structure Changed (s : State) (t x : Nat) (c' : ClientSession) (next : Option Line) (s' : State) : Prop where
  sessions : s'.sessions = s.sessions.set x c'
  threads : s'.threads = s.threads.set t (next.map fun line => ⟨x, line⟩)

namespace Changed

variable (h : Changed s t x c' next s') (hx : s.sessions[x]? = some c)
include h

theorem lines_self {o : Option Frame} (ht : s.threads[t]? = some o) :
    s'.lines x = (next.toList : Multiset Line) + s.otherLines t x := by
  unfold lines
  rw [h.threads, visits_set ht]
  cases next with
  | none => rfl
  | some line =>
    rw [Option.map_some, visitAt_place]
    rfl

theorem lines_ne {o : Option Frame} (ht : s.threads[t]? = some o) (ho : ∀ f, o = some f → f.client = x) (hy : y ≠ x) :
    s'.lines y = s.lines y := by
  unfold lines
  rw [h.threads]
  refine visits_set_of_ne ht (fun k hk => ?_) fun k hk => ?_
  · obtain ⟨f, hf, he⟩ := Option.map_eq_some_iff.1 hk
    cases he
    exact hy (ho f hf)
  · obtain ⟨f, hf, he⟩ := Option.map_eq_some_iff.1 hk
    obtain ⟨line, -, rfl⟩ := Option.map_eq_some_iff.1 hf
    cases he
    exact hy rfl

theorem session_ne (hy : y ≠ x) : s'.sessions[y]? = s.sessions[y]? := by
  rw [h.sessions, List.getElem?_set_ne hy.symm]

include hx in
theorem session_self : s'.sessions[x]? = some c' := by
  rw [h.sessions, List.getElem?_set_self (List.getElem?_eq_some_iff.1 hx).1]

end Changed

/-! ## The contexts -/

theorem contexts_posted {new : Option OverlappedIOContext} (h : s'.posted = s.posted ++ new.toList.map (x, ·)) :
    s'.contexts x = (new.toList : Multiset OverlappedIOContext) + s.contexts x := by
  unfold contexts
  rw [h]
  cases new with
  | none => exact (congrArg (visits some · x) (List.append_nil s.posted)).trans (zero_add _).symm
  | some context =>
    have hv : visitAt some x (x, context) = some context := visitAt_eq_some.2 rfl
    exact (visits_concat s.posted (x, context) x).trans (by rw [hv])

theorem contexts_posted_ne {new : Option OverlappedIOContext} (h : s'.posted = s.posted ++ new.toList.map (x, ·))
    (hy : y ≠ x) : s'.contexts y = s.contexts y := by
  unfold contexts
  rw [h]
  cases new with
  | none => exact congrArg (visits some · y) (List.append_nil s.posted)
  | some context =>
    have hv : visitAt some y (x, context) = none := visitAt_of_ne fun k hk => by
      cases hk
      exact hy rfl
    exact (visits_concat s.posted (x, context) y).trans (by rw [hv]; exact zero_add _)

theorem contexts_erase (h : s.posted[i]? = some (x, context)) (hs : s'.posted = s.posted.eraseIdx i) :
    s.contexts x = context ::ₘ s'.contexts x := by
  have hv : visitAt some x (x, context) = some context := visitAt_eq_some.2 rfl
  unfold contexts
  rw [visits_erase h, hv, hs]
  rfl

theorem contexts_erase_ne (h : s.posted[i]? = some (x, context)) (hs : s'.posted = s.posted.eraseIdx i) (hy : y ≠ x) :
    s'.contexts y = s.contexts y := by
  have hv : visitAt some y (x, context) = none := visitAt_of_ne fun k hk => by
    cases hk
    exact hy rfl
  unfold contexts
  rw [visits_erase h, hv, hs]
  exact (zero_add _).symm

/-! ## Inversion -/

theorem of_runThread (hs : s.runThread t answer = some s') :
    ∃ x line c s₁ next, s.threads[t]? = some (some ⟨x, line⟩) ∧ s.sessions[x]? = some c ∧
      s.exec x c answer line = some (s₁, next) ∧
      s' = { s₁ with threads := s₁.threads.set t (next.map fun line => ⟨x, line⟩) } := by
  unfold runThread at hs
  obtain ⟨f, hf, hs⟩ := Option.bind_eq_some_iff.1 hs
  obtain ⟨c, hc, hs⟩ := Option.bind_eq_some_iff.1 hs
  obtain ⟨⟨s₁, next⟩, he, rfl⟩ := Option.map_eq_some_iff.1 hs
  exact ⟨f.client, f.line, c, s₁, next, Option.join_eq_some_iff.1 hf, hc, he, rfl⟩

theorem of_dequeue {ret : Bool} {transferred : Nat} (hs : s.dequeue t i ret transferred = some s') :
    ∃ x context, s.threads[t]? = some none ∧ s.posted[i]? = some (x, context) ∧ s'.posted = s.posted.eraseIdx i ∧
      s'.sessions = s.sessions ∧ s'.mClientList = s.mClientList ∧
      ∀ c, s.sessions[x]? = some c → Changed s t x c (ioCompletion context ret transferred) s' := by
  unfold dequeue at hs
  split at hs
  next ht =>
    obtain ⟨⟨x, context⟩, hp, hs⟩ := Option.bind_eq_some_iff.1 hs
    dsimp only at hs
    split at hs
    · cases hs
      exact ⟨x, context, ht.2, hp, rfl, rfl, rfl, fun c hx => ⟨(set_of_getElem? hx).symm, rfl⟩⟩
    · cases hs
  · cases hs

theorem of_accept {sock : Nat} (hs : s.accept sock = some s') :
    s.threads[0]? = some none ∧ s.isOpen sock = false ∧
      s'.sessions = s.sessions ++ [⟨false, sock, false, false, 0, 0⟩] ∧
      s'.threads = s.threads.set 0 (some ⟨s.sessions.length, .createEnterLock⟩) ∧ s'.posted = s.posted ∧
      s'.mClientList = s.mClientList := by
  unfold accept at hs
  split at hs
  next h =>
    cases hs
    exact ⟨h.1, h.2, rfl, rfl, rfl, rfl⟩
  · cases hs

theorem lines_start (n x : Nat) : (start n).lines x = 0 := by
  apply Multiset.eq_zero_of_forall_notMem
  intro l hl
  have hmem := List.eq_of_mem_replicate (mem_lines.1 hl)
  cases hmem

end State

/-- Thread `t` does so many lines, and every call succeeds. -/
def runs (t k : Nat) : List State.Action := List.replicate k (.run t true)

end GameServer.ClientSessions
