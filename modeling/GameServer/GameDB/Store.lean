import GameServer.DatabaseJobs.PlayerTable
import GameServer.GameDB
import Mathlib.Data.List.Nodup
/-!
# The table is a store

What the table is for: a store of players (`Store`), whose updates are those of
`DatabaseJobs` in memory. Each `OnSQLExecute` does with the table what its job does with
the store, and gives the answer that the store gives (`Holds.perform`).
-/

namespace GameServer.GameDB

open Lib
open DatabaseJobs (Comment Field Player Update)

variable {F : Type}

/-! ## The store -/

/-- What a load gives back: the player as it is in memory, and its name. -/
structure Saved (F : Type) where
  name : Text
  player : Player F

/-- What fits the buffer that it is loaded to. -/
def cutComment (text : Text) : Comment :=
  ⟨text.take 255, Nat.lt_succ_of_le (List.length_take_le 255 text)⟩

namespace Saved

def created [Zero F] (name : Text) : Saved F := ⟨name.take 31, ⟨0, 0, 0, true, cutComment []⟩⟩

def response (p : Saved F) (u : Update F) : Saved F := { p with player := p.player.response u }

def loaded (p : Saved F) : Answer F :=
  .loaded p.name p.player.mPosX p.player.mPosY p.player.mPosZ p.player.mIsValid p.player.mComment.val

end Saved

structure Store (F : Type) where
  player : Int32 → Option (Saved F)
  /-- The key of the next one. -/
  next : Nat

namespace Store

def new : Store F := ⟨fun _ => none, 100⟩

/-- Of a player that is there. -/
def update (s : Store F) (id : Int32) (u : Update F) : Store F × Answer F :=
  ({ s with player := Function.update s.player id ((s.player id).map (·.response u)) },
    if (s.player id).isSome then .updated else .failed)

def perform [Zero F] (s : Store F) : Context F → Store F × Answer F
  | .createPlayer mPlayerName =>
    if s.next < 2 ^ 31 then
      (⟨Function.update s.player (Int32.ofNat s.next) (some (.created mPlayerName)), s.next + 1⟩,
        .created (Int32.ofNat s.next))
    else (s, .failed)
  | .deletePlayer mPlayerID =>
    ({ s with player := Function.update s.player mPlayerID none },
      .deleted (if (s.player mPlayerID).isSome then 1 else 0))
  | .loadPlayer mPlayerId =>
    (s, match s.player mPlayerId with
      | some p => p.loaded
      | none => .failed)
  | .updatePlayerPosition mPlayerId mPosX mPosY mPosZ => s.update mPlayerId (.position mPosX mPosY mPosZ)
  | .updatePlayerComment mPlayerId mComment => s.update mPlayerId (.comment (cutComment mComment))
  | .updatePlayerValid mPlayerId mIsValid => s.update mPlayerId (.validation mIsValid)

/-- The store after some jobs. -/
def after [Zero F] (s : Store F) (contexts : List (Context F)) : Store F :=
  contexts.foldl (fun s context => (s.perform context).1) s

end Store

/-! ## The table is the store -/

def Record.saved (r : Record F) : Saved F :=
  ⟨r.playerName.take 31, ⟨r.currentPosX, r.currentPosY, r.currentPosZ, r.isValid != 0, cutComment (r.comment.getD [])⟩⟩

namespace PlayerTable

def find (t : PlayerTable F) (id : Int32) : Option (Record F) := t.rows.find? (·.playerUID = id)

/-- The key is a key, and the identity has not given out again what it gave. -/
structure Keyed (t : PlayerTable F) : Prop where
  nodup : (t.rows.map Record.playerUID).Nodup
  given : ∀ r ∈ t.rows, ∃ n, 100 ≤ n ∧ n < t.identity ∧ r.playerUID = Int32.ofNat n
  range : 100 ≤ t.identity ∧ t.identity ≤ 2 ^ 31

end PlayerTable

/-- The table holds the store. -/
structure Holds (t : PlayerTable F) (s : Store F) : Prop where
  keyed : t.Keyed
  next : t.identity = s.next
  player : ∀ id, (t.find id).map Record.saved = s.player id

theorem holds_new : Holds (.new : PlayerTable F) .new where
  keyed := ⟨List.nodup_nil, by simp [PlayerTable.new], Nat.le_refl 100, Nat.le_of_ble_eq_true rfl⟩
  next := rfl
  player _ := rfl

namespace PlayerTable

variable {t : PlayerTable F} {id : Int32}

/-- The rows with a key are what is found, at most one. -/
theorem Keyed.filter_eq (h : t.Keyed) (id : Int32) : t.rows.filter (·.playerUID = id) = (t.find id).toList := by
  obtain ⟨hnodup, -, -⟩ := h
  rw [find]
  generalize t.rows = rows at hnodup ⊢
  induction rows with
  | nil => rfl
  | cons r rows ih =>
    rw [List.map_cons, List.nodup_cons] at hnodup
    by_cases hr : r.playerUID = id
    · have hnone : rows.filter (·.playerUID = id) = [] := by
        rw [List.filter_eq_nil_iff]
        intro r' hmem heq
        apply hnodup.1
        rw [hr, ← of_decide_eq_true heq]
        exact List.mem_map_of_mem hmem
      simp [hr, hnone]
    · simpa [hr] using ih hnodup.2

theorem Keyed.countP_eq (h : t.Keyed) (id : Int32) :
    t.rows.countP (·.playerUID = id) = if (t.find id).isSome then 1 else 0 := by
  rw [List.countP_eq_length_filter, h.filter_eq]
  cases t.find id <;> rfl

theorem Keyed.count_ne_zero (h : t.Keyed) (id : Int32) :
    Int32.ofNat (t.rows.countP (·.playerUID = id)) = if (t.find id).isSome then 1 else 0 := by
  rw [h.countP_eq]
  cases (t.find id).isSome <;> rfl

theorem find_key {r : Record F} (h : t.find id = some r) : r.playerUID = id := by
  simpa using List.find?_some h

/-- An update that keeps the key. -/
theorem find_update {set : Record F → Record F} (hset : ∀ r, (set r).playerUID = r.playerUID) (id id' : Int32) :
    (t.updateWhere id set).1.find id' = if id' = id then (t.find id).map set else t.find id' := by
  have hkey : ∀ r : Record F, (if r.playerUID = id then set r else r).playerUID = r.playerUID := by
    intro r
    split
    · exact hset r
    · rfl
  simp only [find, updateWhere, List.find?_map, Function.comp_def, hkey]
  by_cases heq : id' = id
  · subst heq
    rw [if_pos rfl]
    cases hr : t.rows.find? (·.playerUID = id') with
    | none => rfl
    | some r =>
      have hid : r.playerUID = id' := find_key hr
      simp [hid]
  · rw [if_neg heq]
    cases hr : t.rows.find? (·.playerUID = id') with
    | none => rfl
    | some r =>
      have hid : r.playerUID = id' := find_key hr
      simp [hid, heq]

theorem find_delete (id id' : Int32) : (t.spDeletePlayer id).1.find id' = if id' = id then none else t.find id' := by
  simp only [find, spDeletePlayer, List.find?_filter]
  by_cases heq : id' = id
  · subst heq
    simp
  · rw [if_neg heq]
    congr 1
    funext r
    by_cases hr : r.playerUID = id'
    · simp [hr, heq]
    · simp [hr]

theorem Keyed.update (h : t.Keyed) {set : Record F → Record F} (hset : ∀ r, (set r).playerUID = r.playerUID)
    (id : Int32) : (t.updateWhere id set).1.Keyed := by
  have hkeys : (t.updateWhere id set).1.rows.map Record.playerUID = t.rows.map Record.playerUID := by
    simp only [updateWhere, List.map_map]
    apply List.map_congr_left
    intro r _
    simp only [Function.comp]
    split
    · exact hset r
    · rfl
  constructor
  · rw [hkeys]
    exact h.nodup
  · intro r hmem
    have hkey : r.playerUID ∈ t.rows.map Record.playerUID := hkeys ▸ List.mem_map_of_mem hmem
    obtain ⟨r', hmem', heq⟩ := List.mem_map.1 hkey
    rw [← heq]
    exact h.given r' hmem'
  · exact h.range

theorem Keyed.delete (h : t.Keyed) (id : Int32) : (t.spDeletePlayer id).1.Keyed where
  nodup := h.nodup.sublist (List.filter_sublist.map _)
  given r hmem := h.given r (List.mem_of_mem_filter hmem)
  range := h.range

/-- The next key is new. -/
theorem Keyed.fresh (h : t.Keyed) (hlt : t.identity < 2 ^ 31) : ∀ r ∈ t.rows, r.playerUID ≠ Int32.ofNat t.identity := by
  intro r hmem heq
  obtain ⟨n, -, hn, hkey⟩ := h.given r hmem
  have hint := congrArg Int32.toInt (hkey.symm.trans heq)
  rw [Int32.toInt_ofNat_of_lt (Nat.lt_trans hn hlt), Int32.toInt_ofNat_of_lt hlt] at hint
  omega

theorem Keyed.create (h : t.Keyed) (hlt : t.identity < 2 ^ 31) (r : Record F)
    (hr : r.playerUID = Int32.ofNat t.identity) :
    (⟨t.rows ++ [r], t.identity + 1⟩ : PlayerTable F).Keyed := by
  constructor
  · rw [List.map_append, List.map_singleton, List.nodup_append]
    refine ⟨h.nodup, List.nodup_singleton _, ?_⟩
    intro key hkey key' hkey'
    obtain ⟨r', hmem, rfl⟩ := List.mem_map.1 hkey
    rw [List.mem_singleton.1 hkey', hr]
    exact h.fresh hlt r' hmem
  · intro r' hmem
    rcases List.mem_append.1 hmem with hmem | hmem
    · obtain ⟨n, hle, hn, heq⟩ := h.given r' hmem
      exact ⟨n, hle, Nat.lt_succ_of_lt hn, heq⟩
    · rw [List.mem_singleton.1 hmem, hr]
      exact ⟨t.identity, h.range.1, Nat.lt_succ_self _, rfl⟩
  · exact ⟨Nat.le_succ_of_le h.range.1, hlt⟩

theorem Keyed.find_create (h : t.Keyed) (hlt : t.identity < 2 ^ 31) (r : Record F)
    (hr : r.playerUID = Int32.ofNat t.identity) (id : Int32) :
    (⟨t.rows ++ [r], t.identity + 1⟩ : PlayerTable F).find id =
      if id = Int32.ofNat t.identity then some r else t.find id := by
  simp only [find, List.find?_append]
  by_cases heq : id = Int32.ofNat t.identity
  · subst heq
    have hnone : t.rows.find? (·.playerUID = Int32.ofNat t.identity) = none := by
      rw [List.find?_eq_none]
      intro r' hmem
      simpa using h.fresh hlt r' hmem
    simp [hnone, hr]
  · have hother : Int32.ofNat t.identity ≠ id := fun e => heq e.symm
    simp [heq, hr, hother]

end PlayerTable

/-! ## A job on the table -/

/-- Bound by their numbers, from 1 on. -/
def numbered {α : Type} (l : List α) (k : Nat) : Option α := if k = 0 then none else l[k - 1]?

/-- What a query makes of the rows of its statement. -/
def Query.ofRows (query : Query F) : PlayerTable.Rows F → Answer F
  | [] => .failed
  | row :: _ => query.result fun k => do
    let column ← numbered query.columns k
    let value ← row[k - 1]?
    column.convert value

variable {t : PlayerTable F} {s : Store F}

/-- An update of a row is one of the store. -/
theorem Holds.updateWhere (h : Holds t s) (id : Int32) {set : Record F → Record F} {u : Update F}
    (hset : ∀ r, (set r).playerUID = r.playerUID) (hsaved : ∀ r, (set r).saved = r.saved.response u) :
    Holds (t.updateWhere id set).1 (s.update id u).1 := by
  refine ⟨h.keyed.update hset id, h.next, ?_⟩
  intro id'
  simp only [PlayerTable.find_update hset, Store.update, Function.update_apply]
  split
  · rw [← h.player id]
    cases t.find id <;> simp [hsaved]
  · exact h.player id'

/-- Its query counts the row. -/
theorem Holds.updateQuery (h : Holds t s) (id : Int32) (set : Record F → Record F) (u : Update F)
    (hset : ∀ r, (set r).playerUID = r.playerUID) (hsaved : ∀ r, (set r).saved = r.saved.response u)
    (params : List (Value F)) (sqlstmt : Statement) :
    Holds (t.updateWhere id set).1 (s.update id u).1 ∧
      (updateQuery params sqlstmt).ofRows (t.updateWhere id set).2 = (s.update id u).2 := by
  refine ⟨h.updateWhere id hset hsaved, ?_⟩
  have hsome : (s.player id).isSome = (t.find id).isSome := by
    rw [← h.player id, Option.isSome_map]
  simp only [Query.ofRows, PlayerTable.updateWhere, h.keyed.count_ne_zero, GameDB.updateQuery, Store.update, hsome]
  cases (t.find id).isSome <;> rfl

theorem Holds.create [Zero F] (h : Holds t s) (name : Text) (hlt : t.identity < 2 ^ 31) :
    Holds ⟨t.rows ++ [⟨Int32.ofNat t.identity, name.take 32, 0, 0, 0, 1, none⟩], t.identity + 1⟩
      (s.perform (.createPlayer name)).1 := by
  rw [Store.perform, ← h.next, if_pos hlt]
  refine ⟨h.keyed.create hlt _ rfl, rfl, ?_⟩
  intro id
  rw [h.keyed.find_create hlt _ rfl]
  simp only [Function.update_apply]
  split
  · simp [Record.saved, Saved.created, List.take_take]
  · exact h.player id

theorem Holds.delete [Zero F] (h : Holds t s) (id : Int32) :
    Holds (t.spDeletePlayer id).1 (s.perform (.deletePlayer id)).1 := by
  refine ⟨h.keyed.delete id, h.next, ?_⟩
  intro id'
  simp only [PlayerTable.find_delete, Store.perform, Function.update_apply]
  split
  · rfl
  · exact h.player id'

/-- The load of a row gives back what is saved of it. -/
theorem Holds.load [Zero F] (h : Holds t s) (id : Int32) :
    (LoadPlayerDataContext.onSQLExecute id).ofRows (t.spLoadPlayer id).2 = (s.perform (.loadPlayer id)).2 := by
  rw [PlayerTable.spLoadPlayer, h.keyed.filter_eq, Store.perform, ← h.player id]
  cases t.find id with
  | none => rfl
  | some r =>
    cases hc : r.comment <;> simp [Query.ofRows, numbered, LoadPlayerDataContext.onSQLExecute, Column.convert, textOr,
      floatOr, boolOr, maxNameLen, maxCommentLen, Record.saved, Saved.loaded, cutComment, hc]

/-- One job: the table goes on to hold the store, and the answer is the store's. -/
theorem Holds.perform [Zero F] (h : Holds t s) (context : Context F) :
    match t.call context.onSQLExecute.sqlstmt context.onSQLExecute.params with
    | some (t', rows) => Holds t' (s.perform context).1 ∧ context.onSQLExecute.ofRows rows = (s.perform context).2
    | none => s.perform context = (s, .failed) := by
  cases context with
  | createPlayer name =>
    by_cases hlt : t.identity < 2 ^ 31
    · have hcall : t.call .createPlayer [.text name] = some
          (⟨t.rows ++ [⟨Int32.ofNat t.identity, name.take 32, 0, 0, 0, 1, none⟩], t.identity + 1⟩,
            [[.int (Int32.ofNat t.identity)]]) := by
        rw [PlayerTable.call, PlayerTable.spCreatePlayer, if_pos hlt]
      simp only [Context.onSQLExecute, CreatePlayerDataContext.onSQLExecute, hcall]
      refine ⟨h.create name hlt, ?_⟩
      rw [Store.perform, ← h.next, if_pos hlt]
      rfl
    · have hcall : t.call .createPlayer [.text name] = none := by
        rw [PlayerTable.call, PlayerTable.spCreatePlayer, if_neg hlt]
      simp only [Context.onSQLExecute, CreatePlayerDataContext.onSQLExecute, hcall]
      rw [Store.perform, ← h.next, if_neg hlt]
  | deletePlayer id =>
    refine ⟨h.delete id, ?_⟩
    have hsome : (s.player id).isSome = (t.find id).isSome := by
      rw [← h.player id, Option.isSome_map]
    simp only [Context.onSQLExecute, DeletePlayerDataContext.onSQLExecute, Query.ofRows,
      h.keyed.count_ne_zero, Store.perform, hsome]
    rfl
  | loadPlayer id => exact ⟨⟨h.keyed, h.next, h.player⟩, h.load id⟩
  | updatePlayerPosition id posX posY posZ =>
    exact h.updateQuery id (fun r => { r with currentPosX := posX, currentPosY := posY, currentPosZ := posZ })
      (.position posX posY posZ) (fun _ => rfl) (fun _ => rfl) _ _
  | updatePlayerComment id comment =>
    refine h.updateQuery id (fun r => { r with comment := some (comment.take 256) }) (.comment (cutComment comment))
      (fun _ => rfl) (fun r => ?_) _ _
    simp [Record.saved, Saved.response, Player.response, cutComment, List.take_take]
  | updatePlayerValid id isValid =>
    refine h.updateQuery id (fun r => { r with isValid := isValid.toUInt8 }) (.validation isValid)
      (fun _ => rfl) (fun r => ?_) _ _
    cases isValid <;> rfl

end GameServer.GameDB
