import GameServer.Lib.Run
import Mathlib.Algebra.Group.Nat.Defs
import Mathlib.Data.Nat.Notation
import Mathlib.Logic.Function.Basic
/-!
# The player database

`DBHelper.cpp`, the `OnSQLExecute`s of `PlayerDBContext.cpp` and the table and the
procedures of `GameDB.sql`, which Homework6 and Homework7 share. A `float` may be of any
type. The driver and the server are the environment: a statement may be refused, its
result may be lost, and a row may not be fetched. The connections of the threads are
taken to be there (Homework7 has `DBHelper::Initialize` commented out), and the length
indicator that `BindResultColumn*` hands to the driver, a variable of its own frame, is
left out.
-/

namespace GameServer.GameDB

/-- A `wchar_t` array up to its terminator. -/
abbrev Text := List UInt16

/-! ## The table -/

/-- A row. `createTime`, which nothing reads, is left out. -/
structure Record (F : Type) where
  playerUID : Int32
  playerName : Text
  currentPosX : F
  currentPosY : F
  currentPosZ : F
  isValid : UInt8
  comment : Option Text
  deriving DecidableEq

/-- `PlayerTable`, with the next value of its `IDENTITY(100, 1)`. -/
structure PlayerTable (F : Type) where
  rows : List (Record F)
  identity : Nat
  deriving DecidableEq

/-- A parameter, or a column of a result. -/
inductive Value (F : Type) where
  | int (value : Int32)
  | float (value : F)
  | tinyint (value : UInt8)
  | text (value : Text)
  | null
  deriving DecidableEq

/-- `SQL_CreatePlayer` … `SQL_UpdatePlayerValid`. -/
inductive Statement where
  | createPlayer
  | deletePlayer
  | loadPlayer
  | updatePlayerPosition
  | updatePlayerComment
  | updatePlayerValid
  deriving DecidableEq

/-- The question marks in its text. -/
def Statement.markers : Statement → Nat
  | .createPlayer => 1
  | .deletePlayer => 1
  | .loadPlayer => 1
  | .updatePlayerPosition => 4
  | .updatePlayerComment => 2
  | .updatePlayerValid => 2

namespace PlayerTable

variable {F : Type}

def new : PlayerTable F := ⟨[], 100⟩

/-- What a `SELECT` returns. -/
abbrev Rows (F : Type) := List (List (Value F))

/-- An `UPDATE` of the rows with that key, and `SELECT @@ROWCOUNT`. -/
def updateWhere (t : PlayerTable F) (playerUID : Int32) (set : Record F → Record F) : PlayerTable F × Rows F :=
  ({ t with rows := t.rows.map fun r => if r.playerUID = playerUID then set r else r },
    [[.int (Int32.ofNat (t.rows.countP (·.playerUID = playerUID)))]])

/-- None where the identity leaves the range of `int`. -/
def spCreatePlayer [Zero F] (t : PlayerTable F) (name : Text) : Option (PlayerTable F × Rows F) :=
  if t.identity < 2 ^ 31 then
    some (⟨t.rows ++ [⟨Int32.ofNat t.identity, name, 0, 0, 0, 1, none⟩], t.identity + 1⟩,
      [[.int (Int32.ofNat t.identity)]])
  else none

def spDeletePlayer (t : PlayerTable F) (playerUID : Int32) : PlayerTable F × Rows F :=
  ({ t with rows := t.rows.filter (·.playerUID ≠ playerUID) },
    [[.int (Int32.ofNat (t.rows.countP (·.playerUID = playerUID)))]])

def spUpdatePlayerPosition (t : PlayerTable F) (playerUID : Int32) (posX posY posZ : F) : PlayerTable F × Rows F :=
  t.updateWhere playerUID fun r => { r with currentPosX := posX, currentPosY := posY, currentPosZ := posZ }

def spUpdatePlayerComment (t : PlayerTable F) (playerUID : Int32) (comment : Text) : PlayerTable F × Rows F :=
  t.updateWhere playerUID fun r => { r with comment := some comment }

def spUpdatePlayerValid (t : PlayerTable F) (playerUID : Int32) (valid : UInt8) : PlayerTable F × Rows F :=
  t.updateWhere playerUID fun r => { r with isValid := valid }

def spLoadPlayer (t : PlayerTable F) (playerUID : Int32) : PlayerTable F × Rows F :=
  (t, (t.rows.filter (·.playerUID = playerUID)).map fun r =>
    [.text r.playerName, .float r.currentPosX, .float r.currentPosY, .float r.currentPosZ, .tinyint r.isValid,
      match r.comment with
      | some comment => .text comment
      | none => .null])

/-- The call of a procedure. Its `NVARCHAR`s cut their arguments off. -/
def call [Zero F] (t : PlayerTable F) : Statement → List (Value F) → Option (PlayerTable F × Rows F)
  | .createPlayer, [.text name] => t.spCreatePlayer (name.take 32)
  | .deletePlayer, [.int playerUID] => some (t.spDeletePlayer playerUID)
  | .loadPlayer, [.int playerUID] => some (t.spLoadPlayer playerUID)
  | .updatePlayerPosition, [.int playerUID, .float posX, .float posY, .float posZ] =>
    some (t.spUpdatePlayerPosition playerUID posX posY posZ)
  | .updatePlayerComment, [.int playerUID, .text comment] =>
    some (t.spUpdatePlayerComment playerUID (comment.take 256))
  | .updatePlayerValid, [.int playerUID, .tinyint valid] => some (t.spUpdatePlayerValid playerUID valid)
  | _, _ => none

end PlayerTable

/-! ## A connection -/

/-- The buffer of a result column; that of a text has `count` characters. -/
inductive Column where
  | int
  | float
  | bool
  | text (count : Nat)
  deriving DecidableEq

/-- What is written to it. A null, which `SQLFetch` reports elsewhere, leaves it alone. -/
def Column.convert {F : Type} : Column → Value F → Option (Value F)
  | .int, .int value => some (.int value)
  | .float, .float value => some (.float value)
  | .bool, .tinyint value => some (.tinyint value)
  | .text count, .text value => some (.text (value.take (count - 1)))
  | _, _ => none

/-- A `SQL_CONN`: what is bound to its statement, by number, and its open cursor. -/
structure SqlConn (F : Type) where
  mUsingNow : Bool
  params : Nat → Option (Value F)
  columns : Nat → Option Column
  cursor : Option (PlayerTable.Rows F)

/-- As `Initialize` leaves it. -/
def SqlConn.new {F : Type} : SqlConn F := ⟨false, fun _ => none, fun _ => none, none⟩

/-- A `DBHelper` on the connection of its thread. -/
structure DBHelper (F : Type) where
  conn : SqlConn F
  mCurrentResultCol : Nat
  mCurrentBindParam : Nat

namespace DBHelper

variable {F : Type}

/-- The constructor, none where its assertion fails. -/
def new (conn : SqlConn F) : Option (DBHelper F) :=
  if conn.mUsingNow then none else some ⟨{ conn with mUsingNow := true }, 1, 1⟩

/-- The destructor: `SQL_UNBIND`, `SQL_RESET_PARAMS` and `SQL_CLOSE`. -/
def delete (_ : DBHelper F) : SqlConn F := ⟨false, fun _ => none, fun _ => none, none⟩

/-- `BindParamInt`, `BindParamFloat`, `BindParamBool` and `BindParamText`. -/
def bindParam (h : DBHelper F) (param : Value F) : DBHelper F :=
  { h with
    conn := { h.conn with params := Function.update h.conn.params h.mCurrentBindParam (some param) }
    mCurrentBindParam := h.mCurrentBindParam + 1 }

/-- `BindResultColumnInt`, `BindResultColumnFloat`, `BindResultColumnBool` and
`BindResultColumnText`. -/
def bindResultColumn (h : DBHelper F) (column : Column) : DBHelper F :=
  { h with
    conn := { h.conn with columns := Function.update h.conn.columns h.mCurrentResultCol (some column) }
    mCurrentResultCol := h.mCurrentResultCol + 1 }

/-- The values from number `k` on, none if one is not bound. -/
def arguments (params : Nat → Option (Value F)) : Nat → Nat → Option (List (Value F))
  | _, 0 => some []
  | k, n + 1 => do
    let value ← params k
    let values ← arguments params (k + 1) n
    return value :: values

/-- How a statement ends: the server refuses it, or its answer does not come back. -/
inductive Fate where
  | refused
  | lost
  | returned
  deriving DecidableEq

/-- `Execute`, with the table after it. A statement is not executed while its cursor
is open. -/
def execute [Zero F] (h : DBHelper F) (t : PlayerTable F) (sqlstmt : Statement) (fate : Fate) :
    Bool × DBHelper F × PlayerTable F :=
  let called := if h.conn.cursor.isSome then none else arguments h.conn.params 1 sqlstmt.markers
  match called.bind (t.call sqlstmt) with
  | none => (false, h, t)
  | some (t', rows) =>
    match fate with
    | .refused => (false, h, t)
    | .lost => (false, h, t')
    | .returned => (true, { h with conn := { h.conn with cursor := some rows } }, t')

/-- `FetchRow`: what it writes to the buffers, by their numbers. -/
def fetchRow (h : DBHelper F) (answered : Bool) : Option (Nat → Option (Value F)) :=
  match h.conn.cursor with
  | some (row :: _) =>
    if answered then
      some fun k => do
        let column ← h.conn.columns k
        let value ← row[k - 1]?
        column.convert value
    else none
  | _ => none

end DBHelper

/-! ## The jobs -/

/-- What `OnResult` finds in a context: `failed` if `OnSQLExecute` returned false. -/
inductive Answer (F : Type) where
  | failed
  | created (mPlayerID : Int32)
  | deleted (mDeletedRows : Int32)
  | loaded (mPlayerName : Text) (mPosX mPosY mPosZ : F) (mIsValid : Bool) (mComment : Text)
  | updated
  deriving DecidableEq

/-- An `OnSQLExecute`: what it binds, its statement and what it makes of the buffers. -/
structure Query (F : Type) where
  params : List (Value F)
  columns : List Column
  sqlstmt : Statement
  result : (Nat → Option (Value F)) → Answer F

namespace Query

variable {F : Type} (query : Query F)

/-- Up to its `Execute`. -/
def bind (helper : DBHelper F) : DBHelper F :=
  query.columns.foldl DBHelper.bindResultColumn (query.params.foldl DBHelper.bindParam helper)

/-- From its `FetchRow` on. -/
def answer (helper : DBHelper F) (answered : Bool) : Answer F :=
  match helper.fetchRow answered with
  | some fetched => query.result fetched
  | none => .failed

end Query

variable {F : Type}

def intOr (initial : Int32) : Option (Value F) → Int32
  | some (.int value) => value
  | _ => initial

def floatOr (initial : F) : Option (Value F) → F
  | some (.float value) => value
  | _ => initial

def boolOr (initial : Bool) : Option (Value F) → Bool
  | some (.tinyint value) => value != 0
  | _ => initial

def textOr (initial : Text) : Option (Value F) → Text
  | some (.text value) => value
  | _ => initial

def maxNameLen : Nat := 32

def maxCommentLen : Nat := 256

namespace CreatePlayerDataContext

def onSQLExecute (mPlayerName : Text) : Query F :=
  ⟨[.text mPlayerName], [.int], .createPlayer, fun fetched => .created (intOr (-1) (fetched 1))⟩

end CreatePlayerDataContext

namespace DeletePlayerDataContext

def onSQLExecute (mPlayerID : Int32) : Query F :=
  ⟨[.int mPlayerID], [.int], .deletePlayer, fun fetched => .deleted (intOr 0 (fetched 1))⟩

end DeletePlayerDataContext

namespace LoadPlayerDataContext

def onSQLExecute [Zero F] (mPlayerId : Int32) : Query F :=
  ⟨[.int mPlayerId], [.text maxNameLen, .float, .float, .float, .bool, .text maxCommentLen], .loadPlayer, fun fetched =>
    .loaded (textOr [] (fetched 1)) (floatOr 0 (fetched 2)) (floatOr 0 (fetched 3)) (floatOr 0 (fetched 4))
      (boolOr false (fetched 5)) (textOr [] (fetched 6))⟩

end LoadPlayerDataContext

/-- The three updates: `result` counts the rows. -/
def updateQuery (params : List (Value F)) (sqlstmt : Statement) : Query F :=
  ⟨params, [.int], sqlstmt, fun fetched => if intOr 0 (fetched 1) ≠ 0 then .updated else .failed⟩

namespace UpdatePlayerPositionContext

def onSQLExecute (mPlayerId : Int32) (mPosX mPosY mPosZ : F) : Query F :=
  updateQuery [.int mPlayerId, .float mPosX, .float mPosY, .float mPosZ] .updatePlayerPosition

end UpdatePlayerPositionContext

namespace UpdatePlayerCommentContext

def onSQLExecute (mPlayerId : Int32) (mComment : Text) : Query F :=
  updateQuery [.int mPlayerId, .text mComment] .updatePlayerComment

end UpdatePlayerCommentContext

namespace UpdatePlayerValidContext

def onSQLExecute (mPlayerId : Int32) (mIsValid : Bool) : Query F :=
  updateQuery [.int mPlayerId, .tinyint mIsValid.toUInt8] .updatePlayerValid

end UpdatePlayerValidContext

/-- A context of `PlayerDBContext.h`. -/
inductive Context (F : Type) where
  | createPlayer (mPlayerName : Text)
  | deletePlayer (mPlayerID : Int32)
  | loadPlayer (mPlayerId : Int32)
  | updatePlayerPosition (mPlayerId : Int32) (mPosX mPosY mPosZ : F)
  | updatePlayerComment (mPlayerId : Int32) (mComment : Text)
  | updatePlayerValid (mPlayerId : Int32) (mIsValid : Bool)
  deriving DecidableEq

def Context.onSQLExecute [Zero F] : Context F → Query F
  | .createPlayer mPlayerName => CreatePlayerDataContext.onSQLExecute mPlayerName
  | .deletePlayer mPlayerID => DeletePlayerDataContext.onSQLExecute mPlayerID
  | .loadPlayer mPlayerId => LoadPlayerDataContext.onSQLExecute mPlayerId
  | .updatePlayerPosition mPlayerId mPosX mPosY mPosZ =>
    UpdatePlayerPositionContext.onSQLExecute mPlayerId mPosX mPosY mPosZ
  | .updatePlayerComment mPlayerId mComment => UpdatePlayerCommentContext.onSQLExecute mPlayerId mComment
  | .updatePlayerValid mPlayerId mIsValid => UpdatePlayerValidContext.onSQLExecute mPlayerId mIsValid

/-! ## The database threads -/

/-- A thread, by how far it is in an `OnSQLExecute`: its connection, or the helper that
uses it. -/
inductive Thread (F : Type) where
  | idle (conn : SqlConn F)
  | bound (helper : DBHelper F) (job : Nat) (context : Context F)
  | executed (helper : DBHelper F) (job : Nat) (context : Context F) (success : Bool)

/-- `jobs`, `performed` and `answers` are ghost: how many were begun, which of them the
server has performed, in that order, and what they returned. -/
structure State (F : Type) where
  table : PlayerTable F
  threads : List (Thread F)
  jobs : Nat
  performed : List (Nat × Context F)
  answers : List (Nat × Context F × Answer F)

namespace State

open Lib

/-- `Initialize`, for so many threads. -/
def start (dbWorkerThreadCount : Nat) : State F :=
  ⟨.new, List.replicate dbWorkerThreadCount (.idle .new), 0, [], []⟩

inductive Action (F : Type) where
  /-- Thread `i` begins with a job: the helper, and what is bound. -/
  | begin (i : Nat) (context : Context F)
  | execute (i : Nat) (fate : DBHelper.Fate)
  /-- The rest: `FetchRow`, if the driver answers, and the destructor. -/
  | finish (i : Nat) (answered : Bool)

def step [Zero F] (s : State F) : Action F → Option (State F)
  | .begin i context =>
    match s.threads[i]? with
    | some (.idle conn) =>
      (DBHelper.new conn).map fun helper =>
        { s with
          threads := s.threads.set i (.bound (context.onSQLExecute.bind helper) s.jobs context)
          jobs := s.jobs + 1 }
    | _ => none
  | .execute i fate =>
    match s.threads[i]? with
    | some (.bound helper job context) =>
      let r := helper.execute s.table context.onSQLExecute.sqlstmt fate
      some { s with
        table := r.2.2
        threads := s.threads.set i (.executed r.2.1 job context r.1)
        performed := if fate = .refused then s.performed else s.performed ++ [(job, context)] }
    | _ => none
  | .finish i answered =>
    match s.threads[i]? with
    | some (.executed helper job context success) =>
      let answer := if success then context.onSQLExecute.answer helper answered else .failed
      some { s with threads := s.threads.set i (.idle helper.delete), answers := s.answers ++ [(job, context, answer)] }
    | _ => none

end State

end GameServer.GameDB
