import GameServer.Lib.Guard
import Mathlib.Algebra.Notation.Defs
/-!
# The player in memory

`Player.cpp`, the same in Homework6 and Homework7, and the job that creates a
player (`PlayerDBContext.h` and `.cpp` of Homework6). A wide string in a buffer is
what stands before its null. `wcscpy_s` calls the invalid parameter handler when it
fails, which ends the process or returns. Coordinates may be of any type.
-/

namespace GameServer

namespace PlayerRecord

open Lib

/-- `MAX_NAME_LEN`. -/
def maxNameLen : Nat := 32

/-- `MAX_COMMENT_LEN`. -/
def maxCommentLen : Nat := 256

/-- A string that fits a buffer of `size` with its null. -/
def Text (size : Nat) : Type := { text : List UInt16 // text.length < size ∧ 0 ∉ text }
  deriving DecidableEq

/-- A buffer after `memset(…, 0, …)`. -/
def Text.empty (size : Nat) (h : 0 < size) : Text size := ⟨[], h, List.not_mem_nil⟩

abbrev Name := Text maxNameLen
abbrev Comment := Text maxCommentLen

def Name.empty : Name := Text.empty maxNameLen (by decide)
def Comment.empty : Comment := Text.empty maxCommentLen (by decide)

def wcslen {size : Nat} (s : Text size) : Nat := s.1.length

/-- `wcscpy_s(dst, n, src)`: whether it succeeds, and the buffer after it. A copy that
does not fit leaves the empty string. -/
def wcscpyS {size : Nat} (dst : Text size) (n : Nat) (src : Text size) : Bool × Text size :=
  if n = 0 then (false, dst)
  else if n ≤ wcslen src then (false, .empty size (Nat.zero_lt_of_lt src.2.1))
  else (true, src)

structure Player (F : Type) where
  mPlayerId : Int
  mPosX : F
  mPosY : F
  mPosZ : F
  mIsValid : Bool
  mPlayerName : Name
  mComment : Comment
  deriving DecidableEq

/-- What the operations do between `EnterLock` and `LeaveLock`. -/
inductive Stmt (F : Type) where
  /-- `memset(mPlayerName, 0, sizeof(mPlayerName))` -/
  | clearPlayerName
  | clearComment
  | setPlayerId (pid : Int)
  | setPosX (x : F)
  | setPosY (y : F)
  | setPosZ (z : F)
  | setIsValid (valid : Bool)
  /-- `wcscpy_s(mPlayerName, n, name)` -/
  | copyPlayerName (n : Nat) (name : Name)
  | copyComment (n : Nat) (comment : Comment)
  deriving DecidableEq

/-- The operations that threads call. -/
inductive Call (F : Type) where
  | playerReset
  | responseLoad (pid : Int) (x y z : F) (valid : Bool) (name : Name) (comment : Comment)
  | responseUpdatePosition (x y z : F)
  | responseUpdateComment (comment : Comment)
  | responseUpdateValidation (isValid : Bool)
  | responseCreated (playerID : Int) (playerName : Name)
  | responseDeleted (playerID numRowsDeleted : Int)
  deriving DecidableEq

variable {F : Type}

/-- A failed copy goes on if the handler returns. -/
def copied (handlerReturns : Bool) {α : Type} (r : Bool × α) : Option α :=
  if r.1 || handlerReturns then some r.2 else none

def Stmt.exec (handlerReturns : Bool) (i : Stmt F) (p : Player F) : Option (Player F) :=
  match i with
  | .clearPlayerName => some { p with mPlayerName := Name.empty }
  | .clearComment => some { p with mComment := Comment.empty }
  | .setPlayerId pid => some { p with mPlayerId := pid }
  | .setPosX x => some { p with mPosX := x }
  | .setPosY y => some { p with mPosY := y }
  | .setPosZ z => some { p with mPosZ := z }
  | .setIsValid valid => some { p with mIsValid := valid }
  | .copyPlayerName n name =>
    (copied handlerReturns (wcscpyS p.mPlayerName n name)).map fun mPlayerName => { p with mPlayerName }
  | .copyComment n comment =>
    (copied handlerReturns (wcscpyS p.mComment n comment)).map fun mComment => { p with mComment }

/-- The scope of a `FastSpinlockGuard`. -/
def guarded (body : List (Guard.Instr (Stmt F))) : List (Guard.Instr (Stmt F)) := .enter :: (body ++ [.leave])

section
variable [Zero F]

/-- The body of `PlayerReset`, whose last line assigns from the right. -/
def resetBody : List (Stmt F) :=
  [.clearPlayerName, .clearComment, .setPlayerId (-1), .setIsValid false, .setPosZ 0, .setPosY 0, .setPosX 0]

/-- `ResponseDeleted` calls `PlayerReset` under its guard. -/
def Call.code : Call F → List (Guard.Instr (Stmt F))
  | .playerReset => guarded (resetBody.map .act)
  | .responseLoad pid x y z valid name comment =>
    guarded (([.setPlayerId pid, .setPosX x, .setPosY y, .setPosZ z, .setIsValid valid,
      .copyPlayerName maxNameLen name, .copyComment maxCommentLen comment] : List (Stmt F)).map .act)
  | .responseUpdatePosition x y z => guarded (([.setPosX x, .setPosY y, .setPosZ z] : List (Stmt F)).map .act)
  | .responseUpdateComment comment => guarded (([.copyComment maxCommentLen comment] : List (Stmt F)).map .act)
  | .responseUpdateValidation isValid => guarded (([.setIsValid isValid] : List (Stmt F)).map .act)
  | .responseCreated playerID playerName =>
    guarded (([.setPlayerId playerID, .copyPlayerName (wcslen playerName) playerName] : List (Stmt F)).map .act)
  | .responseDeleted _ _ => guarded (guarded (resetBody.map .act))

/-- A player that `n` threads use. -/
abbrev State (F : Type) := Guard.State (Call F) (Stmt F) (Player F)

def step (handlerReturns : Bool) (s : State F) (a : Guard.Action (Call F)) : Option (State F) :=
  Guard.step Call.code (Stmt.exec handlerReturns) s a

end

/-! ## The job that creates a player -/

structure CreatePlayerDataContext where
  mPlayerID : Int
  mPlayerName : Name

/-- `ResponseCreated` where the handler returns, and whether its copy succeeds. -/
def Player.responseCreated (p : Player F) (playerID : Int) (playerName : Name) : Bool × Player F :=
  let r := wcscpyS p.mPlayerName (wcslen playerName) playerName
  (r.1, { p with mPlayerId := playerID, mPlayerName := r.2 })

namespace CreatePlayerDataContext

/-- The constructor, and whether its copy succeeds. -/
def new (playerName : Name) : Bool × CreatePlayerDataContext :=
  let mPlayerName := Name.empty
  let r := wcscpyS mPlayerName (wcslen mPlayerName) playerName
  (r.1, ⟨-1, r.2⟩)

/-- `spCreatePlayer` is called with the name, and returns the id of a successful insert. -/
def onSQLExecute (c : CreatePlayerDataContext) (spCreatePlayer : Name → Option Int) : Bool × CreatePlayerDataContext :=
  match spCreatePlayer c.mPlayerName with
  | some id => (true, { c with mPlayerID := id })
  | none => (false, c)

/-- The call of `ResponseCreated`. -/
def onSuccess (c : CreatePlayerDataContext) (p : Player F) : Bool × Player F := p.responseCreated c.mPlayerID c.mPlayerName

end CreatePlayerDataContext

end PlayerRecord

end GameServer
