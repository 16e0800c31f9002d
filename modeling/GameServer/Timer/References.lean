import GameServer.Timer.Jobs
/-!
# The reference to the element on top

`DoTimerJob` leaves the owner's lock through the reference it had from `top` before
the task ran. A task that pushes more than the vector has room for moves it to
another buffer, and the reference with which the lock is left dangles.
-/

namespace GameServer.Timer

open Lib

variable {τ σ : Type} {grow : Nat → Nat} {task : τ → σ → σ × List (Push τ)} {t : Timer τ} {s : σ} {e : TimerJobElement τ}

/-! ## The locks -/

/-- The lock of the element's owner is entered, and left. -/
def balanced (e : TimerJobElement τ) : List LockEvent := [.enterLock e.mOwner, .leaveLock (some e.mOwner)]

/-- In one turn the lock is left by the reference that was taken before the task, or by
one that dangles. -/
theorem locks_runTask (he : t.mTimerJobQueue.top = some e) (hdue : e.mExecutionTick ≤ t.LTickCount) :
    (runTask grow task t e s).1.locks =
      t.locks ++ if Fits task t e s then balanced e else [.enterLock e.mOwner, .leaveLock none] := by
  let t₀ : Timer τ := { t.lock (.enterLock e.mOwner) with executed := t.executed ++ [e] }
  have hp := pushed_foldl grow t₀ (task e.mTask s).2
  have hb := buffer_foldl_iff grow (task e.mTask s).2 t₀
  have hderef : ((task e.mTask s).2.foldl (pushTimerJob grow) t₀).deref t.buffer =
      if Fits task t e s then some e.mOwner else none := by
    unfold deref Fits
    rw [hp.top e he hdue]
    exact if_congr hb rfl rfl
  have hlocks : (runTask grow task t e s).1.locks =
      ((task e.mTask s).2.foldl (pushTimerJob grow) t₀).locks ++
        [.leaveLock (((task e.mTask s).2.foldl (pushTimerJob grow) t₀).deref t.buffer)] := rfl
  rw [hlocks, hderef, hp.locks]
  change t.locks ++ [.enterLock e.mOwner] ++ _ = _
  rw [List.append_assoc]
  split <;> rfl

section
variable (grow : Nat → Nat) (task : τ → σ → σ × List (Push τ))

/-- Nothing is run. -/
theorem locks_of_idle (t : Timer τ) {P : Prop} (h : P) :
    ∃ ex locks, t.executed = t.executed ++ ex ∧ t.locks = t.locks ++ locks ∧ locks.length = 2 * ex.length ∧
      (locks = ex.flatMap balanced ↔ P) :=
  ⟨[], [], (List.append_nil _).symm, (List.append_nil _).symm, rfl, ⟨fun _ => h, fun _ => rfl⟩⟩

theorem locks_loop (fuel : Nat) (t : Timer τ) (s : σ) :
    ∃ ex locks, (loop grow task fuel t s).2.1.executed = t.executed ++ ex ∧
      (loop grow task fuel t s).2.1.locks = t.locks ++ locks ∧ locks.length = 2 * ex.length ∧
      (locks = ex.flatMap balanced ↔ AllFit grow task fuel t s) := by
  induction fuel generalizing t s with
  | zero => exact locks_of_idle t trivial
  | succ fuel ih =>
    cases he : t.mTimerJobQueue.top with
    | none =>
      rw [loop_of_none grow task fuel s he]
      exact locks_of_idle t (allFit_of_none grow task he)
    | some e =>
      by_cases hlate : t.LTickCount < e.mExecutionTick
      · rw [loop_of_late grow task fuel s he hlate]
        exact locks_of_idle t (allFit_of_late grow task he hlate)
      · have hdue := Int.not_lt.1 hlate
        have ht : Turn task t e s (runTask grow task t e s).1.pop := turn he hdue
        have hturn : (runTask grow task t e s).1.locks = _ := locks_runTask he hdue
        rw [allFit_of_due grow task he hlate, loop_of_due grow task fuel s he hlate]
        by_cases hfit : Fits task t e s
        · obtain ⟨ex, locks, hex, hlocks, hlen, hiff⟩ := ih (runTask grow task t e s).1.pop (runTask grow task t e s).2
          rw [if_pos hfit] at hturn ⊢
          rw [ht.executed, List.append_assoc] at hex
          rw [show (runTask grow task t e s).1.pop.locks = _ from hturn, List.append_assoc] at hlocks
          refine ⟨_, _, hex, hlocks, ?_, ?_⟩
          · rw [List.length_append, hlen, List.length_append, List.length_singleton, balanced, List.length_cons,
              List.length_singleton]
            omega
          · rw [List.singleton_append, List.flatMap_cons, List.append_cancel_left_eq, hiff]
            exact (and_iff_right hfit).symm
        · -- the turn was the last, and left no lock that can be named
          rw [if_neg hfit] at hturn ⊢
          refine ⟨[e], _, ht.executed, hturn, rfl, ?_⟩
          constructor
          · intro h
            cases h
          · intro h
            exact absurd h.1 hfit

end

/-- The locks that `DoTimerJob` enters and leaves are those of the owners of the jobs it
runs, each entered and then left, if and only if the vector has room for what each task
pushes. -/
theorem doTimerJob_locks_iff (grow : Nat → Nat) (task : τ → σ → σ × List (Push τ)) (fuel : Nat) (now : Int) (t : Timer τ)
    (s : σ) :
    ∃ ex locks, (doTimerJob grow task fuel now t s).2.1.executed = t.executed ++ ex ∧
      (doTimerJob grow task fuel now t s).2.1.locks = t.locks ++ locks ∧
      (locks = ex.flatMap balanced ↔ AllFit grow task fuel { t with LTickCount := now } s) := by
  obtain ⟨ex, locks, hex, hlocks, -, hiff⟩ := locks_loop grow task fuel { t with LTickCount := now } s
  exact ⟨ex, locks, hex, hlocks, hiff⟩

/-- `Player::Start` on its first client: the job re-arms itself, the vector grows and
the player's lock is not left. -/
theorem firstJob_not_balanced :
    (doTimerJob id heartbeat 2 0 firstJob ()).2.1.executed = [⟨1, (), 0⟩] ∧
    (doTimerJob id heartbeat 2 0 firstJob ()).2.1.locks = [.enterLock 1, .leaveLock none] ∧
    ¬∀ (t : Timer Unit) (task : Unit → Unit → Unit × List (Push Unit)) (fuel : Nat) (now : Int), ∃ ex,
      (doTimerJob id task fuel now t ()).2.1.executed = t.executed ++ ex ∧
      (doTimerJob id task fuel now t ()).2.1.locks = t.locks ++ ex.flatMap balanced := by
  refine ⟨by decide, by decide, fun h => ?_⟩
  obtain ⟨ex, hex, hlocks⟩ := h firstJob heartbeat 2 0
  have hran : (doTimerJob id heartbeat 2 0 firstJob ()).2.1.executed = [⟨1, (), 0⟩] := by decide
  have hleft : (doTimerJob id heartbeat 2 0 firstJob ()).2.1.locks = [.enterLock 1, .leaveLock none] := by decide
  rw [hran] at hex
  rw [hleft, ← List.nil_append (ex.flatMap balanced)] at hlocks
  have hone : ex = [⟨1, (), 0⟩] := hex.symm
  rw [hone] at hlocks
  revert hlocks
  decide

end GameServer.Timer
