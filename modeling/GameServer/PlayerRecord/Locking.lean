import GameServer.PlayerRecord
import Mathlib.Algebra.Ring.Int.Defs
/-!
# The player's lock

Every operation but one is guarded: it enters `mPlayerLock`, assigns, and leaves it.
`ResponseDeleted` calls `PlayerReset` under its guard, and waits there for itself.
`ResponseCreated` has a copy that always fails, so it returns if the invalid
parameter handler does.
-/

namespace GameServer.PlayerRecord

open Lib

variable {F : Type} {handlerReturns : Bool} {s : State F} {as : List (Guard.Action (Call F))}

/-! ## Copies -/

theorem wcscpyS_fits {size : Nat} (dst src : Text size) : wcscpyS dst size src = (true, src) := by
  have hlt := src.2.1
  unfold wcscpyS wcslen
  rw [if_neg (by omega), if_neg (by omega)]

/-- A buffer said to be as long as the string has no room for the null. -/
theorem wcscpyS_wcslen {size : Nat} (dst src : Text size) : (wcscpyS dst (wcslen src) src).1 = false := by
  unfold wcscpyS
  split
  · rfl
  · rw [if_pos (Nat.le_refl _)]

theorem isSome_copied {α : Type} {r : Bool × α} (h : r.1 = true ∨ handlerReturns = true) :
    (copied handlerReturns r).isSome := by
  unfold copied
  rcases h with h | h <;> rw [h] <;> simp

/-- A statement that does not end the process. -/
theorem isSome_exec (i : Stmt F) (hn : ∀ n name, i = .copyPlayerName n name → n = maxNameLen ∨ handlerReturns = true)
    (hc : ∀ n comment, i = .copyComment n comment → n = maxCommentLen) (p : Player F) :
    (i.exec handlerReturns p).isSome := by
  cases i with
  | copyPlayerName n name =>
    unfold Stmt.exec
    rw [Option.isSome_map]
    apply isSome_copied
    rcases hn n name rfl with rfl | h
    · exact .inl (by rw [wcscpyS_fits])
    · exact .inr h
  | copyComment n comment =>
    cases hc n comment rfl
    unfold Stmt.exec
    rw [Option.isSome_map]
    exact isSome_copied (.inl (by rw [wcscpyS_fits]))
  | _ => rfl

variable [Zero F]

/-! ## What each operation does -/

/-- The operations that return. -/
def Call.Returns (handlerReturns : Bool) : Call F → Prop
  | .responseCreated _ _ => handlerReturns = true
  | .responseDeleted _ _ => False
  | _ => True

theorem guarded_of_returns {c : Call F} (h : c.Returns handlerReturns) :
    Guard.Guarded Call.code (Stmt.exec handlerReturns) c := by
  cases c with
  | responseCreated playerID playerName =>
    refine ⟨_, rfl, fun i hi => isSome_exec i (fun _ _ _ => .inr h) fun n comment he => ?_⟩
    simp [he] at hi
  | responseDeleted playerID rows => exact h.elim
  | playerReset =>
    refine ⟨_, rfl, fun i hi => isSome_exec i (fun n name he => ?_) fun n comment he => ?_⟩ <;> simp [he, resetBody] at hi
  | _ =>
    refine ⟨_, rfl, fun i hi => isSome_exec i (fun n name he => ?_) fun n comment he => ?_⟩ <;> simp [he] at hi <;>
      simp [hi]

theorem nested_deleted (playerID rows : Int) : Guard.Nested (Call.code (F := F)) (.responseDeleted playerID rows) :=
  ⟨_, rfl⟩

theorem fatal_created (playerID : Int) (playerName : Name) :
    Guard.Fatal (Call.code (F := F)) (Stmt.exec false) (.responseCreated playerID playerName) := by
  refine ⟨_, rfl, .copyPlayerName (wcslen playerName) playerName, by simp, fun p => ?_⟩
  have hfail : copied false (wcscpyS p.mPlayerName (wcslen playerName) playerName) = none := by
    unfold copied
    rw [wcscpyS_wcslen]
    rfl
  simp only [Stmt.exec, hfail, Option.map_none]

theorem known (c : Call F) : Guard.Known Call.code (Stmt.exec handlerReturns) c := by
  cases c with
  | responseCreated playerID playerName =>
    cases handlerReturns with
    | true => exact .inl (guarded_of_returns rfl)
    | false => exact .inr (.inr (fatal_created playerID playerName))
  | responseDeleted playerID rows => exact .inr (.inl (nested_deleted playerID rows))
  | _ => exact .inl (guarded_of_returns trivial)

theorem guarded_iff (c : Call F) : Guard.Guarded Call.code (Stmt.exec handlerReturns) c ↔ c.Returns handlerReturns := by
  refine ⟨fun h => ?_, guarded_of_returns⟩
  obtain ⟨body, hcode, htotal⟩ := h
  cases c with
  | responseCreated playerID playerName =>
    by_contra hr
    have hr : handlerReturns = false := Bool.eq_false_iff.2 hr
    subst hr
    obtain ⟨body', hcode', b, hb, hnone⟩ := fatal_created (F := F) playerID playerName
    rw [hcode] at hcode'
    have hbody : body.map Guard.Instr.act = body'.map Guard.Instr.act := List.append_cancel_right (List.cons.inj hcode').2
    have hb' := List.mem_map_of_mem (f := Guard.Instr.act) hb
    rw [← hbody] at hb'
    obtain ⟨b', hmem, he⟩ := List.mem_map.1 hb'
    cases he
    have := htotal b hmem ⟨0, 0, 0, 0, false, .empty, .empty⟩
    rw [hnone] at this
    cases this
  | responseDeleted playerID rows =>
    obtain ⟨rest, hcode'⟩ := nested_deleted (F := F) playerID rows
    rw [hcode] at hcode'
    cases body <;> cases hcode'
  | _ => trivial

/-- Whatever the threads have called, the calls complete as they should if none of
them is a `ResponseDeleted`, nor a `ResponseCreated` that ends the process. -/
theorem operations_complete_iff (handlerReturns : Bool) (n : Nat) (p : Player F)
    (hr : run (step handlerReturns) (Guard.start p n) as = some s) :
    Guard.Complete Call.code (Stmt.exec handlerReturns) p s ↔ ∀ c ∈ s.calls, c.Returns handlerReturns := by
  rw [Guard.complete_iff known hr]
  simp only [guarded_iff]

/-- A player at the origin. -/
def loaded : Player Int := ⟨7, 0, 0, 0, true, .empty, .empty⟩

/-- The thread waits in `PlayerReset` for the lock it is in, and never returns. -/
theorem responseDeleted_waits : ∃ s th, run (step true) (Guard.start loaded 1) [.call 0 (.responseDeleted 7 1), .run 0] = some s ∧
    th ∈ s.threads ∧ th.holds = true ∧ th.todo.head? = some .enter ∧
    ∀ as s', run (step true) s as = some s' → s'.ended = true ∨
      ∃ th ∈ s'.threads, th.call = some (.responseDeleted 7 1) ∧ th.todo ≠ [] := by
  obtain ⟨s, hr, hcalls, hth⟩ : ∃ s, run (step true) (Guard.start loaded 1)
      [.call 0 (.responseDeleted 7 1), .run 0] = some s ∧ s.calls = [.responseDeleted 7 1] ∧
      ∃ th ∈ s.threads, th.holds = true ∧ th.todo.head? = some .enter :=
    ⟨_, rfl, rfl, ⟨some (.responseDeleted 7 1), _, true⟩, List.mem_singleton.2 rfl, rfl, rfl⟩
  obtain ⟨th, hmem, hh, hi⟩ := hth
  refine ⟨s, th, hr, hmem, hh, hi, fun as s' hr' => ?_⟩
  exact Guard.never_returns known (.inl (nested_deleted 7 1)) hr (hcalls ▸ List.mem_singleton.2 rfl) hr'

/-- Two threads, one of which waits for the other. -/
theorem operations_complete_iff_two : ∃ s, run (step false) (Guard.start loaded 2)
    [.call 0 (.responseUpdatePosition 1 2 3), .call 1 (.responseUpdateValidation false), .run 1, .run 0, .run 1, .run 1] = some s ∧
    (Guard.Complete Call.code (Stmt.exec false) loaded s ↔ ∀ c ∈ s.calls, c.Returns false) := by
  have hr : ∃ s, run (step false) (Guard.start loaded 2) [.call 0 (.responseUpdatePosition 1 2 3),
      .call 1 (.responseUpdateValidation false), .run 1, .run 0, .run 1, .run 1] = some s := ⟨_, rfl⟩
  obtain ⟨s, hr⟩ := hr
  exact ⟨s, hr, operations_complete_iff false 2 _ hr⟩

end GameServer.PlayerRecord
