import GameServer.Lib.Run
import GameServer.Lib.SortedMap
import Mathlib.Data.Int.Order.Basic
import Mathlib.Logic.Function.Basic
/-!
# Buffs

What `Player.cpp`, `PlayerWideEvent.cpp` and `PlayerManager.cpp` of Homework4 do
to the buffs of the players, between two changes of who is online. The players'
ticks dispatch tasks to the executer, which runs each of them once and one at a
time (`GameServer.GrandCentralExecuter`); here it takes them in any order. The
timer is the players whose `OnTick` it will call.
-/

namespace GameServer.Buffs

open Lib

/-- The buff list is a map from ids to times. -/
structure Player where
  mPlayerId : Int
  mHeartBeat : Int
  mIsAlive : Bool
  mBuffList : SortedMap Int Int
  deriving DecidableEq

namespace Player

/-- `PlayerReset` after its call of `UnregisterPlayer`. -/
def playerReset (p : Player) : Player := { p with mPlayerId := -1, mHeartBeat := -1, mIsAlive := false }

/-- The constructor, which resets fields that are not set yet. -/
def new : Player := playerReset ⟨0, 0, false, .empty⟩

/-- `Start` up to its call of `OnTick`, with the id `RegisterPlayer` returns. -/
def start (p : Player) (heartbeat id : Int) : Player :=
  { p with mIsAlive := true, mHeartBeat := heartbeat, mPlayerId := id }

/-- The giver is only printed. -/
def addBuff (p : Player) (_fromPlayerId buffId duration : Int) : Player :=
  { p with mBuffList := p.mBuffList.insert buffId duration }

/-- What the loop of `DecayTickBuff` makes of a time; none where it erases. -/
def decayed (p : Player) (time : Int) : Option Int :=
  let time := time - p.mHeartBeat
  if time ≤ 0 then none else some time

def decayTickBuff (p : Player) : Player := { p with mBuffList := p.mBuffList.filterMap p.decayed }

/-- The buffs it prints as expired. -/
def expires (p : Player) : List Int := (p.mBuffList.entries.filter fun e => (p.decayed e.2).isNone).map Prod.fst

end Player

/-- A task of the executer. -/
inductive Task where
  /-- `DoBuffToAllPlayers(fromPlayerId)` of an `AllPlayerBuffEvent(buffId, duration)` -/
  | doBuffToAllPlayers (fromPlayerId buffId duration : Int)
  | checkBuffTimeout
  deriving DecidableEq

/-- The players by the number of their object, and the tasks not run yet. `expired`
records what was printed, `checks` the calls of `CheckBuffTimeout`. -/
structure World where
  player : Nat → Player
  mPlayerMap : SortedMap Int Nat
  tasks : List Task
  timers : List Nat
  expired : List (Nat × Int)
  checks : Nat

namespace World

def getCurrentPlayers (w : World) : List Nat := w.mPlayerMap.values

def modify (w : World) (i : Nat) (f : Player → Player) : World :=
  { w with player := Function.update w.player i (f (w.player i)) }

def addBuff (fromPlayerId buffId duration : Int) (w : World) (i : Nat) : World :=
  w.modify i fun p => p.addBuff fromPlayerId buffId duration

def decayTickBuff (w : World) (i : Nat) : World :=
  { w.modify i Player.decayTickBuff with expired := w.expired ++ (w.player i).expires.map fun id => (i, id) }

def doBuffToAllPlayers (w : World) (fromPlayerId buffId duration : Int) : World :=
  if 0 < w.getCurrentPlayers.length then w.getCurrentPlayers.foldl (addBuff fromPlayerId buffId duration) w else w

def checkBuffTimeout (w : World) : World :=
  let w := { w with checks := w.checks + 1 }
  if 0 < w.getCurrentPlayers.length then w.getCurrentPlayers.foldl decayTickBuff w else w

def runTask (w : World) : Task → World
  | .doBuffToAllPlayers fromPlayerId buffId duration => w.doBuffToAllPlayers fromPlayerId buffId duration
  | .checkBuffTimeout => w.checkBuffTimeout

def dispatch (w : World) (task : Task) : World := { w with tasks := w.tasks ++ [task] }

/-- `OnTick` of player `i`. One call in a hundred has an event, with a duration
of 2000, 3000 or 4000. -/
def onTick (w : World) (i : Nat) (event : Option Nat) : World :=
  let p := w.player i
  if p.mIsAlive then
    let w := match event with
      | some n => w.dispatch (.doBuffToAllPlayers p.mPlayerId (p.mPlayerId * 100) ((n % 3 + 2) * 1000))
      | none => w
    let w := w.dispatch .checkBuffTimeout
    if 0 < p.mHeartBeat then { w with timers := w.timers ++ [i] } else w
  else w

inductive Action where
  /-- The timer calls `OnTick` of player `i`. -/
  | tick (i : Nat) (event : Option Nat)
  /-- The executer runs task `j`. -/
  | execute (j : Nat)
  deriving DecidableEq

def step (w : World) : Action → Option World
  | .tick i event => if i ∈ w.timers then some (({ w with timers := w.timers.erase i }).onTick i event) else none
  | .execute j => w.tasks[j]?.map fun task => ({ w with tasks := w.tasks.eraseIdx j }).runTask task

/-- `AddBuff` on player `i`, from where on the records are kept. -/
def give (w : World) (i : Nat) (fromPlayerId buffId duration : Int) : World :=
  { w.addBuff fromPlayerId buffId duration i with expired := [], checks := 0 }

/-- The checks dispatched and not run yet. -/
def pending (w : World) : Nat := w.tasks.countP (· = .checkBuffTimeout)

/-- The action is a tick of player `i`. -/
def Action.ticks (i : Nat) : Action → Bool
  | .tick k _ => k = i
  | .execute _ => false

/-- The players with an entry are the ones alive, and tick with heartbeat `h`. -/
structure Online (w : World) (h : Int) : Prop where
  nodup : w.getCurrentPlayers.Nodup
  alive : ∀ i, (w.player i).mIsAlive = true ↔ i ∈ w.getCurrentPlayers
  heartBeat : ∀ i ∈ w.getCurrentPlayers, (w.player i).mHeartBeat = h

/-- The buff has never run out and has `time` left, or has run out by then. -/
def Left (w : World) (i : Nat) (buffId time : Int) : Prop :=
  if 0 < time then (w.player i).mBuffList.find? buffId = some time ∧ (i, buffId) ∉ w.expired
  else (i, buffId) ∈ w.expired

end World

end GameServer.Buffs
