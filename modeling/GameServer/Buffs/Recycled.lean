import GameServer.Buffs
import GameServer.CircularBuffer.Lemmas
/-!
# A recycled session

What the operations on a `ClientSession` of Homework4 and on its player assign,
up to the `SessionReset` with which it goes back to the pool. `PlayerReset` leaves
the buffs (`recycled_iff`). What an operation only reads or prints, the socket
and the locks are left out, and so is the entry in the player manager's map.
-/

namespace GameServer.Buffs

/-- `BUFSIZE`. -/
def bufSize : Nat := 65536

/-- `sizeof(SOCKADDR_IN)`. -/
def sockaddrSize : Nat := 16

structure ClientSession where
  mConnected : Int
  mRefCount : Int
  mClientAddr : List Byte
  mBuffer : CircularBuffer
  mPlayer : Player
  deriving DecidableEq

namespace ClientSession

/-- The constructor. -/
def new : ClientSession where
  mConnected := 0
  mRefCount := 0
  mClientAddr := List.replicate sockaddrSize 0
  mBuffer := .new bufSize
  mPlayer := .new

def sessionReset (s : ClientSession) : ClientSession where
  mConnected := 0
  mRefCount := 0
  mClientAddr := List.replicate sockaddrSize 0
  mBuffer := s.mBuffer.bufferReset
  mPlayer := s.mPlayer.playerReset

inductive Op where
  /-- `InterlockedExchange(&mConnected, 1)`, and the address if `getpeername` is reached. -/
  | acceptCompletion (addr : Option (List Byte))
  | disconnectRequest
  | addRef
  | releaseRef
  /-- The query of the free space, which may open region B. -/
  | postRecv
  /-- What the socket writes to the span it was given. -/
  | received (bytes : List Byte)
  | recvCompletion (transferred : Nat)
  | sendCompletion (transferred : Nat)
  | start (heartbeat id : Int)
  | onTick
  | addBuff (fromPlayerId buffId duration : Int)
  | decayTickBuff
  | sessionReset
  deriving DecidableEq

def exec (s : ClientSession) : Op → ClientSession
  | .acceptCompletion addr => { s with mConnected := 1, mClientAddr := addr.getD s.mClientAddr }
  | .disconnectRequest => { s with mConnected := 0 }
  | .addRef => { s with mRefCount := s.mRefCount + 1 }
  | .releaseRef => { s with mRefCount := s.mRefCount - 1 }
  | .postRecv => if s.mConnected = 0 then s else { s with mBuffer := s.mBuffer.getFreeSpaceSize.2 }
  | .received bytes => { s with mBuffer := s.mBuffer.write bytes }
  | .recvCompletion transferred => { s with mBuffer := s.mBuffer.commit transferred }
  | .sendCompletion transferred => { s with mBuffer := s.mBuffer.remove transferred }
  | .start heartbeat id => { s with mPlayer := s.mPlayer.start heartbeat id }
  -- dispatches tasks and sets the timer
  | .onTick => s
  | .addBuff fromPlayerId buffId duration => { s with mPlayer := s.mPlayer.addBuff fromPlayerId buffId duration }
  | .decayTickBuff => { s with mPlayer := s.mPlayer.decayTickBuff }
  | .sessionReset => s.sessionReset

/-- A session after its history. -/
def after (ops : List Op) : ClientSession := ops.foldl exec new

variable {s : ClientSession} {ops : List Op}

/-! ## The buffer is never made anew -/

theorem mCapacity_getFreeSpaceSize (b : CircularBuffer) : b.getFreeSpaceSize.2.mCapacity = b.mCapacity := by
  unfold CircularBuffer.getFreeSpaceSize
  split
  · rfl
  · split <;> rfl

theorem mCapacity_remove (b : CircularBuffer) (n : Nat) : (b.remove n).mCapacity = b.mCapacity := by
  unfold CircularBuffer.remove CircularBuffer.reseat CircularBuffer.removeFromB CircularBuffer.removeFromA
  dsimp only
  grind

theorem exec_mCapacity (s : ClientSession) (op : Op) : (s.exec op).mBuffer.mCapacity = s.mBuffer.mCapacity := by
  cases op with
  | postRecv =>
    rw [exec]
    split
    · rfl
    · exact mCapacity_getFreeSpaceSize s.mBuffer
  | recvCompletion transferred => exact CircularBuffer.mCapacity_commit s.mBuffer transferred
  | sendCompletion transferred => exact mCapacity_remove s.mBuffer transferred
  | _ => rfl

theorem after_mCapacity (ops : List Op) : (after ops).mBuffer.mCapacity = bufSize := by
  have hfold (ops : List Op) (s : ClientSession) : (ops.foldl exec s).mBuffer.mCapacity = s.mBuffer.mCapacity := by
    induction ops generalizing s with
    | nil => rfl
    | cons op ops ih => rw [List.foldl_cons, ih, exec_mCapacity]
  exact hfold ops new

/-! ## What the reset leaves -/

/-- The reset restores everything but the buffs. -/
theorem sessionReset_after (ops : List Op) :
    (after ops).sessionReset = { new with mPlayer := { Player.new with mBuffList := (after ops).mPlayer.mBuffList } } := by
  have hb : (after ops).mBuffer.bufferReset = .new bufSize := by
    rw [CircularBuffer.bufferReset, after_mCapacity]
    rfl
  rw [sessionReset, hb]
  rfl

theorem sessionReset_eq_new (ops : List Op) : (after ops).sessionReset = new ↔ (after ops).mPlayer.mBuffList = .empty := by
  rw [sessionReset_after]
  constructor
  · exact fun h => congrArg (fun s => s.mPlayer.mBuffList) h
  · intro h
    rw [h]
    rfl

/-- Two sessions come back from their histories the same, and as new ones, if and
only if no buff was left on either player. -/
theorem recycled_iff (ops ops' : List Op) :
    ((after ops).sessionReset = (after ops').sessionReset ∧ (after ops).sessionReset = new) ↔
      (after ops).mPlayer.mBuffList = .empty ∧ (after ops').mPlayer.mBuffList = .empty := by
  rw [← sessionReset_eq_new, ← sessionReset_eq_new]
  constructor
  · rintro ⟨he, hn⟩
    exact ⟨hn, he ▸ hn⟩
  · rintro ⟨hn, hn'⟩
    exact ⟨hn.trans hn'.symm, hn⟩

/-- A player with a buff leaves. -/
def leavesBuffed : List Op :=
  [.addRef, .acceptCompletion none, .start 1000 1, .addBuff 1 100 2000, .disconnectRequest, .releaseRef]

theorem not_recycled_leavesBuffed : ¬ ∀ ops ops', (after ops).sessionReset = (after ops').sessionReset ∧
    (after ops).sessionReset = new := by
  intro h
  have hb := (sessionReset_eq_new leavesBuffed).1 (h leavesBuffed []).2
  exact absurd hb (by decide)

end ClientSession

end GameServer.Buffs
