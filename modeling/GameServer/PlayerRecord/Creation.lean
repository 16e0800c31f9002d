import GameServer.PlayerRecord.Locking
/-!
# Creating a player

Both copies of the name are told a length that leaves no room for it: the length of
the buffer's own empty string, and that of the name. So no name reaches the
database, and none comes back.
-/

namespace GameServer.PlayerRecord

open Lib CreatePlayerDataContext

variable {F : Type}

/-- The statements of `ResponseCreated` do what the function says. -/
theorem acts_responseCreated [Zero F] (p : Player F) (playerID : Int) (playerName : Name) :
    Guard.acts (Stmt.exec true) (Call.code (.responseCreated playerID playerName)) p =
      some (p.responseCreated playerID playerName).2 := by
  simp [Call.code, guarded, Guard.acts, Stmt.exec, copied, Player.responseCreated]

/-- The constructor's copy is told that there is no room at all. -/
theorem new_eq (name : Name) : new name = (false, ⟨-1, .empty⟩) := rfl

/-- The player's name is never the one it was created with. -/
theorem responseCreated_name (p : Player F) (playerID : Int) (playerName : Name) :
    (p.responseCreated playerID playerName).1 = false ∧
      (p.responseCreated playerID playerName).2.mPlayerName =
        if wcslen playerName = 0 then p.mPlayerName else .empty := by
  refine ⟨wcscpyS_wcslen _ _, ?_⟩
  unfold Player.responseCreated wcscpyS
  split
  · rfl
  · rw [if_pos (Nat.le_refl _)]
    rfl

/-- What a job is to do for a player when the insert returns `id`. -/
structure Created (spCreatePlayer : Name → Option Int) (name : Name) (id : Int) (p : Player F) : Prop where
  constructed : (new name).1 = true
  passed : (new name).2.mPlayerName = name
  executed : ((new name).2.onSQLExecute spCreatePlayer).1 = true
  responded : (((new name).2.onSQLExecute spCreatePlayer).2.onSuccess p).1 = true
  playerId : (((new name).2.onSQLExecute spCreatePlayer).2.onSuccess p).2.mPlayerId = id
  playerName : (((new name).2.onSQLExecute spCreatePlayer).2.onSuccess p).2.mPlayerName = name

/-- No job does. The procedure is called with the empty name, and both copies fail. Of
a successful insert only the id gets to the player. -/
theorem never_created (spCreatePlayer : Name → Option Int) (name : Name) (id : Int) (p : Player F) :
    ¬ Created spCreatePlayer name id p ∧ (new name).1 = false ∧ (new name).2.mPlayerName = .empty ∧
    (spCreatePlayer .empty = some id →
      ((new name).2.onSQLExecute spCreatePlayer).2.onSuccess p = (false, { p with mPlayerId := id })) := by
  refine ⟨fun h => ?_, rfl, rfl, fun hid => ?_⟩
  · have hfail := (responseCreated_name p ((new name).2.onSQLExecute spCreatePlayer).2.mPlayerID
      ((new name).2.onSQLExecute spCreatePlayer).2.mPlayerName).1
    have hok := h.responded
    unfold onSuccess at hok
    rw [hfail] at hok
    cases hok
  · rw [new_eq]
    unfold onSQLExecute
    dsimp only
    rw [hid]
    rfl

/-- The name "A" is lost on its way to the database. -/
theorem created_as_empty : (new ⟨[65], by decide, by decide⟩).1 = false ∧ (new ⟨[65], by decide, by decide⟩).2.mPlayerName.1 = [] ∧
    ¬ Created (fun _ => some 7) ⟨[65], by decide, by decide⟩ 7 loaded := by
  exact ⟨rfl, rfl, fun h => Bool.false_ne_true h.constructed⟩

end GameServer.PlayerRecord
