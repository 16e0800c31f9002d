import GameServer.Timer
/-!
# What DoTimerJob runs

A task that runs is due, and whatever it pushes is not due before it, so the
element on top is still there when the task returns (`top_runTask`), and `pop` takes
that one. A task that pushes more than the vector has room for moves it to another
buffer, and nothing is defined after `LeaveLock`. If all fits and tasks push nothing
that is due at once, the loop ends when the elements that were due at the beginning
are gone.
-/

namespace GameServer.Timer

open Lib

variable {τ σ : Type} {grow : Nat → Nat} {task : τ → σ → σ × List (Push τ)} {t : Timer τ} {s : σ} {e : TimerJobElement τ}

/-! ## Pushes -/

/-- What a call of `PushTimerJob` does. -/
structure Pushed (t : Timer τ) (new : List (TimerJobElement τ)) (t' : Timer τ) : Prop where
  perm : t'.mTimerJobQueue.c.Perm (new ++ t.mTimerJobQueue.c)
  tick : t'.LTickCount = t.LTickCount
  pushed : t'.pushed = t.pushed ++ new
  executed : t'.executed = t.executed
  locks : t'.locks = t.locks
  top : ∀ e, t.mTimerJobQueue.top = some e → e.mExecutionTick ≤ t.LTickCount → t'.mTimerJobQueue.top = some e

/-- The queue has the new element, in whichever buffer it is. -/
theorem pushTimerJob_eq (grow : Nat → Nat) (t : Timer τ) (p : Push τ) : ∃ capacity room buffer,
    t.pushTimerJob grow p = { t with
      mTimerJobQueue := t.mTimerJobQueue.push (t.element p)
      capacity := capacity
      room := room
      buffer := buffer
      pushed := t.pushed ++ [t.element p] } := by
  unfold pushTimerJob
  dsimp only
  split
  next h => exact ⟨t.capacity, by rw [PriorityQueue.length_push]; exact h, t.buffer, rfl⟩
  next h => exact ⟨_, by rw [PriorityQueue.length_push]; exact Nat.le_add_right _ _, t.buffer + 1, rfl⟩

theorem pushed_pushTimerJob (grow : Nat → Nat) (t : Timer τ) (p : Push τ) :
    Pushed t [t.element p] (t.pushTimerJob grow p) := by
  obtain ⟨capacity, room, buffer, he⟩ := pushTimerJob_eq grow t p
  rw [he]
  refine ⟨t.mTimerJobQueue.push_perm _, rfl, rfl, rfl, rfl, fun e htop hle => ?_⟩
  apply PriorityQueue.top_push htop
  unfold element
  dsimp only
  omega

theorem pushed_foldl (grow : Nat → Nat) (t : Timer τ) (ps : List (Push τ)) :
    Pushed t (ps.map t.element) (ps.foldl (pushTimerJob grow) t) := by
  induction ps generalizing t with
  | nil => exact ⟨.refl _, rfl, (List.append_nil _).symm, rfl, rfl, fun _ he _ => he⟩
  | cons p ps ih =>
    have h₁ : Pushed t [t.element p] (t.pushTimerJob grow p) := pushed_pushTimerJob grow t p
    have h₂ := ih (t.pushTimerJob grow p)
    have helem : (t.pushTimerJob grow p).element = t.element := by
      funext p'
      unfold element
      rw [h₁.tick]
    rw [helem] at h₂
    refine ⟨?_, h₂.tick.trans h₁.tick, ?_, h₂.executed.trans h₁.executed, h₂.locks.trans h₁.locks, fun e he hle => ?_⟩
    · refine h₂.perm.trans ((List.Perm.append_left _ h₁.perm).trans ?_)
      exact List.perm_middle
    · rw [List.foldl_cons, h₂.pushed, h₁.pushed, List.append_assoc]
      rfl
    · exact h₂.top e (h₁.top e he hle) (by rw [h₁.tick]; exact hle)

/-! ## One turn of the loop -/

/-- What the task of `e` pushes. -/
def pushes (task : τ → σ → σ × List (Push τ)) (t : Timer τ) (e : TimerJobElement τ) (s : σ) : List (TimerJobElement τ) :=
  (task e.mTask s).2.map t.element

theorem pushed_runTask (grow : Nat → Nat) (task : τ → σ → σ × List (Push τ)) (t : Timer τ) (e : TimerJobElement τ) (s : σ) :
    ∃ t₁, Pushed t₁ (pushes task t e s) { (runTask grow task t e s).1 with locks := t₁.locks } ∧
      t₁.mTimerJobQueue = t.mTimerJobQueue ∧ t₁.LTickCount = t.LTickCount ∧ t₁.executed = t.executed ++ [e] ∧
      t₁.pushed = t.pushed := by
  refine ⟨{ t.lock (.enterLock e.mOwner) with executed := t.executed ++ [e] }, ?_, rfl, rfl, rfl, rfl⟩
  have h := pushed_foldl grow { t.lock (.enterLock e.mOwner) with executed := t.executed ++ [e] } (task e.mTask s).2
  exact ⟨h.perm, h.tick, h.pushed, h.executed, rfl, h.top⟩

/-- The element that was executed is on top when its task returns. -/
theorem top_runTask (he : t.mTimerJobQueue.top = some e) (hdue : e.mExecutionTick ≤ t.LTickCount) :
    (runTask grow task t e s).1.mTimerJobQueue.top = some e := by
  obtain ⟨t₁, h, hq, ht, -, -⟩ := pushed_runTask grow task t e s
  exact h.top e (by rw [hq]; exact he) (by rw [ht]; exact hdue)

/-- A turn of the loop, and the pop at its end. -/
structure Turn (task : τ → σ → σ × List (Push τ)) (t : Timer τ) (e : TimerJobElement τ) (s : σ) (t' : Timer τ) : Prop where
  perm : (pushes task t e s ++ t.mTimerJobQueue.c).Perm (e :: t'.mTimerJobQueue.c)
  tick : t'.LTickCount = t.LTickCount
  pushed : t'.pushed = t.pushed ++ pushes task t e s
  executed : t'.executed = t.executed ++ [e]

theorem turn (he : t.mTimerJobQueue.top = some e) (hdue : e.mExecutionTick ≤ t.LTickCount) :
    Turn task t e s (runTask grow task t e s).1.pop := by
  obtain ⟨t₁, h, hq, ht, hex, hpu⟩ := pushed_runTask grow task t e s
  have htop : (runTask grow task t e s).1.mTimerJobQueue.top = some e := top_runTask he hdue
  refine ⟨?_, h.tick.trans ht, h.pushed.trans (by rw [hpu]), h.executed.trans hex⟩
  have hperm := h.perm
  rw [hq] at hperm
  exact hperm.symm.trans (PriorityQueue.pop_perm htop)

/-! ## When the vector moves -/

theorem length_pushTimerJob (grow : Nat → Nat) (t : Timer τ) (p : Push τ) :
    (t.pushTimerJob grow p).mTimerJobQueue.c.length = t.mTimerJobQueue.c.length + 1 :=
  (pushed_pushTimerJob grow t p).perm.length_eq

theorem buffer_pushTimerJob (grow : Nat → Nat) (t : Timer τ) (p : Push τ) :
    (t.mTimerJobQueue.c.length < t.capacity ∧ (t.pushTimerJob grow p).buffer = t.buffer ∧
      (t.pushTimerJob grow p).capacity = t.capacity) ∨
    (t.capacity ≤ t.mTimerJobQueue.c.length ∧ (t.pushTimerJob grow p).buffer = t.buffer + 1) := by
  unfold pushTimerJob
  dsimp only
  split
  next h => exact .inl ⟨h, rfl, rfl⟩
  next h => exact .inr ⟨Nat.not_lt.1 h, rfl⟩

theorem buffer_le_foldl (grow : Nat → Nat) (ps : List (Push τ)) (t : Timer τ) :
    t.buffer ≤ (ps.foldl (pushTimerJob grow) t).buffer := by
  induction ps generalizing t with
  | nil => exact Nat.le_refl _
  | cons p ps ih =>
    have hle := ih (t.pushTimerJob grow p)
    rw [List.foldl_cons]
    rcases buffer_pushTimerJob grow t p with ⟨-, hb, -⟩ | ⟨-, hb⟩ <;> omega

/-- The buffer stays if the pushes fit into it. -/
theorem buffer_foldl_iff (grow : Nat → Nat) (ps : List (Push τ)) (t : Timer τ) :
    (ps.foldl (pushTimerJob grow) t).buffer = t.buffer ↔ t.mTimerJobQueue.c.length + ps.length ≤ t.capacity := by
  induction ps generalizing t with
  | nil => exact ⟨fun _ => t.room, fun _ => rfl⟩
  | cons p ps ih =>
    rw [List.foldl_cons, List.length_cons]
    have hlen := length_pushTimerJob grow t p
    rcases buffer_pushTimerJob grow t p with ⟨hlt, hb, hc⟩ | ⟨hge, hb⟩
    · rw [← hb, ih, hlen, hc]
      omega
    · have hle := buffer_le_foldl grow ps (t.pushTimerJob grow p)
      constructor
      · intro h
        omega
      · intro h
        omega

/-- The vector has room for what the task pushes. -/
def Fits (task : τ → σ → σ × List (Push τ)) (t : Timer τ) (e : TimerJobElement τ) (s : σ) : Prop :=
  t.mTimerJobQueue.c.length + (task e.mTask s).2.length ≤ t.capacity

instance : Decidable (Fits task t e s) := inferInstanceAs (Decidable (_ ≤ _))

/-- The reference still holds after a task whose pushes fit, and no other. -/
theorem buffer_runTask_iff (grow : Nat → Nat) (task : τ → σ → σ × List (Push τ)) (t : Timer τ)
    (e : TimerJobElement τ) (s : σ) :
    (runTask grow task t e s).1.buffer = t.buffer ↔ Fits task t e s :=
  buffer_foldl_iff grow (task e.mTask s).2 { t.lock (.enterLock e.mOwner) with executed := t.executed ++ [e] }

/-! ## The loop -/

/-- Some turns of the loop, in which `ex` were executed and `new` pushed. -/
structure Ran (t : Timer τ) (ex new : List (TimerJobElement τ)) (t' : Timer τ) : Prop where
  perm : (new ++ t.mTimerJobQueue.c).Perm (ex ++ t'.mTimerJobQueue.c)
  tick : t'.LTickCount = t.LTickCount
  pushed : t'.pushed = t.pushed ++ new
  executed : t'.executed = t.executed ++ ex
  due : ∀ e ∈ ex, e.mExecutionTick ≤ t.LTickCount
  late : ∀ e ∈ new, t.LTickCount < e.mExecutionTick
  sorted : ex.Pairwise fun e e' => e.mExecutionTick ≤ e'.mExecutionTick

theorem ran_refl (t : Timer τ) : ∃ ex new, Ran t ex new t :=
  ⟨[], [], .refl _, rfl, (List.append_nil _).symm, (List.append_nil _).symm, by simp, by simp, .nil⟩

/-- Each task of the loop's turns has room for its pushes. -/
def AllFit (grow : Nat → Nat) (task : τ → σ → σ × List (Push τ)) : (fuel : Nat) → Timer τ → σ → Prop
  | 0, _, _ => True
  | fuel + 1, t, s =>
    match t.mTimerJobQueue.top with
    | none => True
    | some e =>
      if t.LTickCount < e.mExecutionTick then True
      else Fits task t e s ∧
        AllFit grow task fuel (runTask grow task t e s).1.pop (runTask grow task t e s).2

section
variable (grow : Nat → Nat) (task : τ → σ → σ × List (Push τ))

/-! What the loop does by the element on top. -/

theorem loop_of_none (fuel : Nat) (s : σ) (hn : t.mTimerJobQueue.top = none) :
    loop grow task (fuel + 1) t s = (.returned, t, s) := by
  rw [loop, hn]

theorem loop_of_late (fuel : Nat) (s : σ) (he : t.mTimerJobQueue.top = some e) (hlate : t.LTickCount < e.mExecutionTick) :
    loop grow task (fuel + 1) t s = (.returned, t, s) := by
  rw [loop, he]
  exact if_pos hlate

theorem loop_of_due (fuel : Nat) (s : σ) (he : t.mTimerJobQueue.top = some e) (hdue : ¬t.LTickCount < e.mExecutionTick) :
    loop grow task (fuel + 1) t s =
      if Fits task t e s then loop grow task fuel (runTask grow task t e s).1.pop (runTask grow task t e s).2
      else (.undefined, runTask grow task t e s) := by
  rw [loop, he]
  dsimp only
  rw [if_neg hdue]
  exact if_congr (buffer_runTask_iff grow task t e s) rfl rfl

theorem allFit_of_none {fuel : Nat} (hn : t.mTimerJobQueue.top = none) : AllFit grow task (fuel + 1) t s := by
  unfold AllFit
  rw [hn]
  trivial

theorem allFit_of_late {fuel : Nat} (he : t.mTimerJobQueue.top = some e) (hlate : t.LTickCount < e.mExecutionTick) :
    AllFit grow task (fuel + 1) t s := by
  unfold AllFit
  rw [he]
  dsimp only
  rw [if_pos hlate]
  trivial

theorem allFit_of_due {fuel : Nat} (he : t.mTimerJobQueue.top = some e) (hdue : ¬t.LTickCount < e.mExecutionTick) :
    AllFit grow task (fuel + 1) t s ↔
      Fits task t e s ∧ AllFit grow task fuel (runTask grow task t e s).1.pop (runTask grow task t e s).2 := by
  conv_lhs => unfold AllFit
  rw [he]
  dsimp only
  rw [if_neg hdue]

/-- Nothing is undefined while all fits, and only then. -/
theorem allFit_iff (fuel : Nat) (t : Timer τ) (s : σ) :
    AllFit grow task fuel t s ↔ (loop grow task fuel t s).1 ≠ .undefined := by
  induction fuel generalizing t s with
  | zero => exact ⟨fun _ => nofun, fun _ => trivial⟩
  | succ fuel ih =>
    cases he : t.mTimerJobQueue.top with
    | none =>
      rw [loop_of_none grow task fuel s he]
      exact ⟨fun _ => nofun, fun _ => allFit_of_none grow task he⟩
    | some e =>
      by_cases hlate : t.LTickCount < e.mExecutionTick
      · rw [loop_of_late grow task fuel s he hlate]
        exact ⟨fun _ => nofun, fun _ => allFit_of_late grow task he hlate⟩
      · rw [allFit_of_due grow task he hlate, loop_of_due grow task fuel s he hlate]
        by_cases hfit : Fits task t e s
        · rw [if_pos hfit, ih]
          exact and_iff_right hfit
        · rw [if_neg hfit]
          exact ⟨fun h => absurd h.1 hfit, fun h => absurd rfl h⟩

/-- More fuel changes nothing once the loop has come to an end. -/
theorem loop_add (fuel k : Nat) (t : Timer τ) (s : σ) (h : (loop grow task fuel t s).1 ≠ .running) :
    loop grow task (fuel + k) t s = loop grow task fuel t s := by
  induction fuel generalizing t s with
  | zero => exact absurd rfl h
  | succ fuel ih =>
    rw [Nat.add_right_comm]
    cases he : t.mTimerJobQueue.top with
    | none => rw [loop_of_none grow task _ s he, loop_of_none grow task _ s he]
    | some e =>
      by_cases hlate : t.LTickCount < e.mExecutionTick
      · rw [loop_of_late grow task _ s he hlate, loop_of_late grow task _ s he hlate]
      · rw [loop_of_due grow task _ s he hlate] at h ⊢
        rw [loop_of_due grow task _ s he hlate]
        by_cases hfit : Fits task t e s
        · rw [if_pos hfit] at h
          rw [if_pos hfit, if_pos hfit, ih _ _ h]
        · rw [if_neg hfit, if_neg hfit]

end

section
variable (grow : Nat → Nat) (hafter : ∀ task' s, ∀ p ∈ (task task' s).2, 1 ≤ p.after)
include hafter

/-- What a task pushes is not due yet. -/
theorem late_of_pushes (t : Timer τ) (e : TimerJobElement τ) (s : σ) :
    ∀ e' ∈ pushes task t e s, t.LTickCount < e'.mExecutionTick := by
  intro e' he'
  obtain ⟨p, hp, rfl⟩ := List.mem_map.1 he'
  have h1 := hafter _ _ p hp
  unfold element
  dsimp only
  omega

theorem ran_loop (fuel : Nat) (t : Timer τ) (s : σ) (hfit : AllFit grow task fuel t s) :
    ∃ ex new, Ran t ex new (loop grow task fuel t s).2.1 := by
  induction fuel generalizing t s with
  | zero => exact ran_refl t
  | succ fuel ih =>
    cases he : t.mTimerJobQueue.top with
    | none =>
      rw [loop_of_none grow task fuel s he]
      exact ran_refl t
    | some e =>
      by_cases hlate : t.LTickCount < e.mExecutionTick
      · rw [loop_of_late grow task fuel s he hlate]
        exact ran_refl t
      · obtain ⟨hfits, hrest⟩ := (allFit_of_due grow task he hlate).1 hfit
        have hdue := Int.not_lt.1 hlate
        have ht : Turn task t e s (runTask grow task t e s).1.pop := turn he hdue
        obtain ⟨ex, new, hr⟩ := ih (runTask grow task t e s).1.pop (runTask grow task t e s).2 hrest
        rw [loop_of_due grow task fuel s he hlate, if_pos hfits]
        have hlate := late_of_pushes hafter t e s
        have htick := ht.tick
        refine ⟨e :: ex, pushes task t e s ++ new, ?_, hr.tick.trans ht.tick, ?_, ?_, ?_, ?_, ?_⟩
        · -- what is pushed later comes after what is pushed now
          have h₁ : (pushes task t e s ++ new ++ t.mTimerJobQueue.c).Perm
              (new ++ (pushes task t e s ++ t.mTimerJobQueue.c)) := by
            rw [← List.append_assoc]
            exact List.Perm.append_right _ List.perm_append_comm
          have h₂ := List.Perm.append_left new ht.perm
          refine h₁.trans (h₂.trans (List.perm_middle.trans ?_))
          exact hr.perm.cons e
        · rw [hr.pushed, ht.pushed, List.append_assoc]
        · rw [hr.executed, ht.executed, List.append_assoc]
          rfl
        · intro e' he'
          rcases List.mem_cons.1 he' with rfl | he'
          · exact hdue
          · rw [← ht.tick]
            exact hr.due e' he'
        · intro e' he'
          rcases List.mem_append.1 he' with he' | he'
          · exact hlate e' he'
          · rw [← ht.tick]
            exact hr.late e' he'
        · refine List.pairwise_cons.2 ⟨fun e' he' => ?_, hr.sorted⟩
          -- an element executed later was in the queue with this one
          have hdue' := hr.due e' he'
          have hmem : e' ∈ new ++ (runTask grow task t e s).1.pop.mTimerJobQueue.c :=
            hr.perm.mem_iff.2 (List.mem_append_left _ he')
          rcases List.mem_append.1 hmem with hnew | hq
          · have := hr.late e' hnew
            omega
          · have hin := ht.perm.mem_iff.2 (List.mem_cons_of_mem e hq)
            rcases List.mem_append.1 hin with hpush | hold
            · have := hlate e' hpush
              omega
            · exact PriorityQueue.top_le he hold

/-- Every turn takes an element that was due, and adds none. -/
theorem loop_ends (fuel : Nat) (t : Timer τ) (s : σ) (hfit : AllFit grow task fuel t s)
    (hf : t.mTimerJobQueue.c.countP (fun e => e.mExecutionTick ≤ t.LTickCount) < fuel) :
    (loop grow task fuel t s).1 = .returned ∧
      ∀ e ∈ (loop grow task fuel t s).2.1.mTimerJobQueue.c, t.LTickCount < e.mExecutionTick := by
  induction fuel generalizing t s with
  | zero => omega
  | succ fuel ih =>
    cases he : t.mTimerJobQueue.top with
    | none =>
      rw [loop_of_none grow task fuel s he]
      refine ⟨rfl, fun e hmem => ?_⟩
      rw [PriorityQueue.top_eq_none.1 he] at hmem
      cases hmem
    | some e =>
      by_cases hlate : t.LTickCount < e.mExecutionTick
      · rw [loop_of_late grow task fuel s he hlate]
        refine ⟨rfl, fun e' he' => ?_⟩
        have hle := PriorityQueue.top_le he he'
        omega
      · obtain ⟨hfits, hrest⟩ := (allFit_of_due grow task he hlate).1 hfit
        have hdue := Int.not_lt.1 hlate
        have ht : Turn task t e s (runTask grow task t e s).1.pop := turn he hdue
        rw [loop_of_due grow task fuel s he hlate, if_pos hfits]
        have hlate := late_of_pushes hafter t e s
        have hcount := ht.perm.countP_eq fun e => decide (e.mExecutionTick ≤ t.LTickCount)
        have hnone : (pushes task t e s).countP (fun e => e.mExecutionTick ≤ t.LTickCount) = 0 := by
          rw [List.countP_eq_zero]
          intro e' he'
          have := hlate e' he'
          simpa using this
        rw [List.countP_append, hnone, List.countP_cons_of_pos (by simpa using hdue)] at hcount
        have hnext := ih (runTask grow task t e s).1.pop (runTask grow task t e s).2 hrest (by rw [ht.tick]; omega)
        rw [ht.tick] at hnext
        exact hnext

end

/-- Elements are taken out that satisfy `p`, and put in that do not, until none is left that does. -/
theorem perm_filter_of_perm {α : Type} {p : α → Bool} {old new out left : List α} (h : (new ++ old).Perm (out ++ left))
    (hout : ∀ a ∈ out, p a = true) (hnew : ∀ a ∈ new, p a = false) (hleft : ∀ a ∈ left, p a = false) :
    out.Perm (old.filter p) ∧ left.Perm (old.filter (fun a => !p a) ++ new) := by
  have hf := h.filter p
  have hg := h.filter fun a => !p a
  have hnew₁ : new.filter p = [] := List.filter_eq_nil_iff.2 fun a ha => by simp [hnew a ha]
  have hleft₁ : left.filter p = [] := List.filter_eq_nil_iff.2 fun a ha => by simp [hleft a ha]
  have hout₁ : out.filter p = out := List.filter_eq_self.2 hout
  have hnew₂ : new.filter (fun a => !p a) = new := List.filter_eq_self.2 fun a ha => by simp [hnew a ha]
  have hleft₂ : left.filter (fun a => !p a) = left := List.filter_eq_self.2 fun a ha => by simp [hleft a ha]
  have hout₂ : out.filter (fun a => !p a) = [] := List.filter_eq_nil_iff.2 fun a ha => by simp [hout a ha]
  rw [List.filter_append, List.filter_append, hnew₁, hleft₁, hout₁, List.nil_append, List.append_nil] at hf
  rw [List.filter_append, List.filter_append, hnew₂, hleft₂, hout₂, List.nil_append] at hg
  exact ⟨hf.symm, hg.symm.trans List.perm_append_comm⟩

/-- `DoTimerJob` returns, has then run what was due when it was called, each once and in
order, and leaves the rest and what the tasks have pushed. -/
def RunsDue (grow : Nat → Nat) (task : τ → σ → σ × List (Push τ)) (now : Int) (t : Timer τ) (s : σ) : Prop :=
  ∃ t' s' ex new, (∀ fuel, t.mTimerJobQueue.c.length < fuel → doTimerJob grow task fuel now t s = (.returned, t', s')) ∧
    t'.executed = t.executed ++ ex ∧ t'.pushed = t.pushed ++ new ∧
    ex.Perm (t.mTimerJobQueue.c.filter fun e => e.mExecutionTick ≤ now) ∧
    ex.Pairwise (fun e e' => e.mExecutionTick ≤ e'.mExecutionTick) ∧
    t'.mTimerJobQueue.c.Perm (t.mTimerJobQueue.c.filter (fun e => now < e.mExecutionTick) ++ new)

theorem runsDue_of_allFit (grow : Nat → Nat) (hafter : ∀ task' s, ∀ p ∈ (task task' s).2, 1 ≤ p.after) {now : Int}
    (hfit : AllFit grow task (t.mTimerJobQueue.c.length + 1) { t with LTickCount := now } s) :
    RunsDue grow task now t s := by
  let t₀ : Timer τ := { t with LTickCount := now }
  have hcount : (t₀.mTimerJobQueue.c.countP fun e => e.mExecutionTick ≤ now) < t.mTimerJobQueue.c.length + 1 :=
    Nat.lt_succ_of_le List.countP_le_length
  obtain ⟨hend, hleft⟩ := loop_ends grow hafter _ t₀ s hfit hcount
  obtain ⟨ex, new, hr⟩ := ran_loop grow hafter (t.mTimerJobQueue.c.length + 1) t₀ s hfit
  have hmore := fun k => loop_add grow task _ k t₀ s (by rw [hend]; nofun)
  generalize loop grow task (t.mTimerJobQueue.c.length + 1) t₀ s = r at hend hleft hr hmore
  obtain ⟨course, t', s'⟩ := r
  cases hend
  have hparts := perm_filter_of_perm (p := fun e => decide (e.mExecutionTick ≤ now)) hr.perm
    (fun e he => decide_eq_true (hr.due e he)) (fun e he => decide_eq_false (Int.not_le.2 (hr.late e he)))
    fun e he => decide_eq_false (Int.not_le.2 (hleft e he))
  refine ⟨t', s', ex, new, fun fuel hf => ?_, hr.executed, hr.pushed, hparts.1, hr.sorted, ?_⟩
  · obtain ⟨k, rfl⟩ := Nat.exists_eq_add_of_lt hf
    rw [Nat.add_right_comm]
    exact hmore k
  · have hnot : (fun e : TimerJobElement τ => decide (now < e.mExecutionTick)) =
        fun e => !decide (e.mExecutionTick ≤ now) := by
      funext e
      rw [← decide_not, decide_eq_decide, Int.not_le]
    rw [hnot]
    exact hparts.2

/-- `DoTimerJob` runs what is due if and only if the vector has room for what each task
pushes. What is on top when a task returns, and popped if the lock was left, is the
element of that task. -/
theorem doTimerJob_runs_due_iff (grow : Nat → Nat) (task : τ → σ → σ × List (Push τ))
    (hafter : ∀ task' s, ∀ p ∈ (task task' s).2, 1 ≤ p.after) (now : Int) (t : Timer τ) (s : σ) :
    (RunsDue grow task now t s ↔ ∀ fuel, AllFit grow task fuel { t with LTickCount := now } s) ∧
    ∀ (t : Timer τ) (e : TimerJobElement τ) (s : σ), t.mTimerJobQueue.top = some e → e.mExecutionTick ≤ t.LTickCount →
      (runTask grow task t e s).1.mTimerJobQueue.top = some e ∧
      (pushes task t e s ++ t.mTimerJobQueue.c).Perm (e :: (runTask grow task t e s).1.pop.mTimerJobQueue.c) := by
  refine ⟨⟨?_, fun h => runsDue_of_allFit grow hafter (h _)⟩,
    fun t e s he hdue => ⟨top_runTask he hdue, (turn he hdue).perm⟩⟩
  rintro ⟨t', s', -, -, hreturns, -⟩ fuel
  rw [allFit_iff]
  intro hundefined
  -- with more fuel it would still be undefined, and it returns
  have hmore := loop_add grow task fuel (t.mTimerJobQueue.c.length + 1) { t with LTickCount := now } s
    (by rw [hundefined]; nofun)
  have hreturned := hreturns (fuel + (t.mTimerJobQueue.c.length + 1)) (by omega)
  rw [doTimerJob, hmore] at hreturned
  rw [hreturned] at hundefined
  cases hundefined

/-- The queue that the pushes leave, of elements without tasks. -/
def queueOf (es : List (TimerJobElement Unit)) : TimerJobPriorityQueue Unit := es.foldl PriorityQueue.push .empty

/-- Three jobs, two of them due at once, in a vector with room for another. -/
def threeJobs : Timer Unit := .of (queueOf [⟨1, (), 5⟩, ⟨2, (), 5⟩, ⟨3, (), 9⟩]) 4 (by decide)

/-- The vector of a queue with the first job has room for that one alone. -/
def firstJob : Timer Unit := .of (queueOf [⟨1, (), 0⟩]) 1 (by decide)

/-- As a heartbeat of 10 ms does. -/
def heartbeat (_ : Unit) (s : Unit) : Unit × List (Push Unit) := (s, [⟨7, (), 10⟩])

theorem after_heartbeat (task' s : Unit) : ∀ p ∈ (heartbeat task' s).2, 1 ≤ p.after :=
  List.forall_mem_singleton.2 (by decide)

theorem doTimerJob_runs_due_threeJobs :
    (doTimerJob id heartbeat 4 6 threeJobs ()).1 = .returned ∧
    (doTimerJob id heartbeat 4 6 threeJobs ()).2.1.executed = [⟨1, (), 5⟩, ⟨2, (), 5⟩] ∧
    (RunsDue id heartbeat 6 threeJobs () ↔ ∀ fuel, AllFit id heartbeat fuel { threeJobs with LTickCount := 6 } ()) :=
  ⟨by decide, by decide, (doTimerJob_runs_due_iff id heartbeat after_heartbeat 6 threeJobs ()).1⟩

/-- `Player::Start` on its first client: the job re-arms itself, the vector moves, and
what follows the task is undefined. -/
theorem not_runsDue_firstJob : (doTimerJob id heartbeat 2 0 firstJob ()).1 = .undefined ∧
    ¬∀ (task : Unit → Unit → Unit × List (Push Unit)) (now : Int) (t : Timer Unit),
      (∀ task' s, ∀ p ∈ (task task' s).2, 1 ≤ p.after) → RunsDue id task now t () := by
  have hundefined : (doTimerJob id heartbeat 2 0 firstJob ()).1 = .undefined := by decide
  refine ⟨hundefined, fun h => ?_⟩
  obtain ⟨t', s', -, -, hreturns, -⟩ := h heartbeat 0 firstJob after_heartbeat
  rw [hreturns 2 (by decide)] at hundefined
  cases hundefined

end GameServer.Timer
