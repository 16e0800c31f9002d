import GameServer.Lib.LockStack
import GameServer.Players.Base
/-!
# The registry of the players

The map of the player manager, the id and the alive flag of a player are changed
one after the other, by `Start` and `PlayerReset`, under the player's mLock.
`Place` is what a thread's continuation says of that: the players it holds, and
the change it is in the middle of. Out of it the three agree (`Settled`), in it
they do what `Updating` says, and a step of a thread leaves the players that
others hold alone (`exec_same`). So they agree in every run in which `Start`
comes for players that are not alive and the ids given out are free
(`step_registry`): mCurrentIssueId is an `int` that goes round.
-/

namespace GameServer.Players

open Lib Lifecycle

variable {p p' q : Process} {t : Nat} {th th' : Thread} {answer : Bool} {top : Nat} {a : Action} {i u : Step}
  {next rest : List Step} {s x : SessionId}

/-! ## Where a thread is -/

/-- The player whose state the step reads or changes for `Start` or `PlayerReset`. -/
def Step.subject : Step → Option SessionId
  | .start s _ | .registerPlayer s | .setPlayerId s _ | .unregisterPlayer s | .erase s _ | .playerReset s => some s
  | _ => none

/-- The step is in the middle of the change. -/
def Step.updates (s : SessionId) : Step → Bool
  | .registerPlayer x | .setPlayerId x _ | .erase x _ | .playerReset x => x = s
  | _ => false

/-- The players a thread holds the mLock of, and the change it is in. -/
structure Place where
  held : List SessionId
  updating : Option Step

namespace Place

variable {l l₁ l₂ : Place}

/-- A step outside of every change. -/
def clear (l : Place) : Option Place := if l.updating = none then some l else none

/-- A step of the player that is held. -/
def inside (l : Place) (s : SessionId) (updating : Option Step) : Option Place :=
  if l.held.head? = some s ∧ l.updating = none then some { l with updating } else none

/-- The place before the step, and `l` behind it. -/
def step (l : Place) (i : Step) : Option Place :=
  match i with
  | .push _ | .pop _ | .enterManager _ | .leaveManager _ => some l
  | .enterLock s => (l.inside s none).map fun l => { l with held := l.held.tail }
  | .leaveLock s => l.clear.map fun l => { l with held := s :: l.held }
  | .start s _ | .unregisterPlayer s => l.inside s none
  | .registerPlayer s | .setPlayerId s _ | .erase s _ | .playerReset s => l.inside s (some i)
  | .server _ | .doSyncAfter _ _ _ | .doTimerJob | .timerTop | .onTick _ | .rearm _ | .dispatch | .gce _ => l.clear

@[simp] theorem clear_eq_some : l.clear = some l₁ ↔ l.updating = none ∧ l = l₁ := by
  unfold clear
  split <;> simp_all

@[simp] theorem inside_eq_some {updating : Option Step} : l.inside s updating = some l₁ ↔
    (l.held.head? = some s ∧ l.updating = none) ∧ { l with updating } = l₁ := by
  unfold inside
  split <;> simp_all

/-- Who is in a change holds the player. -/
theorem held_of_updating {is : List Step} (hl : prior step ⟨[], none⟩ is = some l) (hu : l.updating = some u) :
    u ∈ is ∧ ∃ s, u.subject = some s ∧ u.updates s = true ∧ s ∈ l.held := by
  induction is generalizing l with
  | nil => cases hl; cases hu
  | cons i is ih =>
    obtain ⟨l₀, h₀, hi⟩ := prior_cons_eq_some.1 hl
    have hsame (h : l₀ = l) : u ∈ i :: is ∧ ∃ s, u.subject = some s ∧ u.updates s = true ∧ s ∈ l.held := by
      obtain ⟨hmem, hs⟩ := ih (h ▸ h₀) hu
      exact ⟨List.mem_cons_of_mem i hmem, hs⟩
    cases i with
    | push | pop | enterManager | leaveManager => exact hsame (Option.some.inj hi)
    | enterLock s =>
      obtain ⟨l', h', rfl⟩ := Option.map_eq_some_iff.1 hi
      obtain ⟨-, rfl⟩ := inside_eq_some.1 h'
      cases hu
    | leaveLock s =>
      obtain ⟨l', h', rfl⟩ := Option.map_eq_some_iff.1 hi
      obtain ⟨hnone, rfl⟩ := clear_eq_some.1 h'
      exact absurd (hnone.symm.trans hu) (by simp)
    | start s _ | unregisterPlayer s =>
      obtain ⟨-, rfl⟩ := inside_eq_some.1 hi
      cases hu
    | registerPlayer s | setPlayerId s _ | erase s _ | playerReset s =>
      obtain ⟨⟨hhead, -⟩, rfl⟩ := inside_eq_some.1 hi
      cases hu
      exact ⟨List.mem_cons_self, s, rfl, by simp [Step.updates], List.mem_of_head? hhead⟩
    | _ => exact hsame (clear_eq_some.1 hi).2

/-- An instruction of the server holds no player. -/
theorem prior_steps (hu : l.updating = none) (is : List Instr) : prior step l (is.flatMap steps) = some l := by
  obtain ⟨held, updating⟩ := l
  cases hu
  have hclear : (⟨held, none⟩ : Place).clear = some ⟨held, none⟩ := rfl
  induction is with
  | nil => rfl
  | cons j is ih =>
    rw [List.flatMap_cons, prior_append_of ih]
    cases j with
    | isConnected c s => cases c <;> simp [step, hclear]
    | returning r s => cases r <;> simp [step, hclear, inside]
    | _ => simp [step, hclear]

theorem prior_frameSteps (hu : l.updating = none) (frames : List GrandCentralExecuter.Frame) :
    prior step l (frames.flatMap frameSteps) = some l := by
  have hclear : l.clear = some l := clear_eq_some.2 ⟨hu, rfl⟩
  induction frames with
  | nil => rfl
  | cons frame frames ih =>
    rw [List.flatMap_cons, prior_append_of ih]
    cases frame <;> simp [step, hclear]

end Place

namespace Process

/-! ## The registry -/

/-- The map has an entry for the player exactly if it is alive, and under its id. -/
structure Settled (p : Process) (s : SessionId) : Prop where
  entry : ∀ id, p.playerManager.mPlayerMap id = some s ↔ (p.player s).mIsAlive = true ∧ id = (p.player s).mPlayerId
  dead : (p.player s).mIsAlive = false → (p.player s).mPlayerId = -1

/-- What holds in the middle of `Start` and of `PlayerReset`. -/
def Updating (p : Process) : Step → Prop
  | .registerPlayer s => (p.player s).mIsAlive = true ∧ ∀ id, p.playerManager.mPlayerMap id ≠ some s
  | .setPlayerId s id => (p.player s).mIsAlive = true ∧ ∀ k, p.playerManager.mPlayerMap k = some s ↔ k = id
  | .erase s id => p.Settled s ∧ id = (p.player s).mPlayerId
  | .playerReset s => ∀ id, p.playerManager.mPlayerMap id ≠ some s
  | _ => True

/-- The id that is given out next is not the one of a dead player and has no entry. -/
structure IdFree (p : Process) : Prop where
  ne : p.playerManager.mCurrentIssueId + 1 ≠ -1
  entry : p.playerManager.mPlayerMap (p.playerManager.mCurrentIssueId + 1) = none

/-- What holds before a step of `Start` or `PlayerReset`. -/
def Ready (p : Process) : Step → Prop
  | .start s _ => p.Settled s ∧ (p.player s).mIsAlive = false
  | .registerPlayer s => p.Updating (.registerPlayer s) ∧ p.IdFree
  | .unregisterPlayer s => p.Settled s
  | i => p.Updating i

/-- No player is registered under the id of the dead ones. -/
def Keys (p : Process) : Prop := p.playerManager.mPlayerMap (-1) = none

/-- The registry says the same of the player. -/
structure Same (p q : Process) (s : SessionId) : Prop where
  alive : (q.player s).mIsAlive = (p.player s).mIsAlive
  id : (q.player s).mPlayerId = (p.player s).mPlayerId
  entry : ∀ k, q.playerManager.mPlayerMap k = some s ↔ p.playerManager.mPlayerMap k = some s

def locked (p : Process) (s : SessionId) : Bool := (p.player s).mLock

@[simp] theorem modify_player (f : Player → Player) (x : SessionId) :
    (p.modify s f).player x = if x = s then f (p.player s) else p.player x := by
  simp only [modify, Function.update_apply]

@[simp] theorem modify_manager (f : Player → Player) : (p.modify s f).playerManager = p.playerManager := rfl

@[simp] theorem manager_manager (f : PlayerManager → PlayerManager) :
    (p.manager f).playerManager = f p.playerManager := rfl

theorem locked_modify {f : Player → Player} (hf : ∀ pl, (f pl).mLock = pl.mLock) : (p.modify s f).locked = p.locked := by
  funext x
  simp only [locked, modify_player]
  split
  next h => rw [hf, h]
  · rfl

theorem locked_setLock (b : Bool) :
    (p.modify s fun pl => { pl with mLock := b }).locked = Function.update p.locked s b := by
  funext x
  simp only [locked, modify_player, Function.update_apply]
  split <;> rfl

theorem Same.settled (h : Same p q s) (hp : p.Settled s) : q.Settled s := by
  refine ⟨fun id => ?_, fun hd => ?_⟩
  · rw [h.entry, h.alive, h.id]
    exact hp.entry id
  · rw [h.id]
    rw [h.alive] at hd
    exact hp.dead hd

theorem Same.updating (h : Same p q s) (hu : u.subject = some s) (hp : p.Updating u) : q.Updating u := by
  cases u with
  | registerPlayer x =>
    cases hu
    exact ⟨h.alive.trans hp.1, fun id hid => hp.2 id ((h.entry id).1 hid)⟩
  | setPlayerId x id =>
    cases hu
    exact ⟨h.alive.trans hp.1, fun k => (h.entry k).trans (hp.2 k)⟩
  | erase x id =>
    cases hu
    exact ⟨h.settled hp.1, hp.2.trans h.id.symm⟩
  | playerReset x =>
    cases hu
    exact fun id hid => hp id ((h.entry id).1 hid)
  | _ => trivial

/-- A step leaves the players it is not about alone. -/
theorem exec_same (hk : p.Keys) (hr : p.Ready i) (he : p.exec t th answer top i = some (q, th', next))
    (hs : i.subject ≠ some s) : Same p q s := by
  have hrefl : Same p p s := ⟨rfl, rfl, fun _ => Iff.rfl⟩
  have hlock (x : SessionId) (b : Bool) : Same p (p.modify x fun pl => { pl with mLock := b }) s := by
    refine ⟨?_, ?_, fun _ => Iff.rfl⟩ <;> rw [modify_player] <;> split <;> simp_all
  cases i with
  | server j =>
    obtain ⟨r, -, h⟩ := Option.map_eq_some_iff.1 he
    cases h
    exact ⟨rfl, rfl, fun _ => Iff.rfl⟩
  | push k | pop k =>
    simp only [exec] at he
    split at he <;> cases he <;> exact ⟨rfl, rfl, fun _ => Iff.rfl⟩
  | enterLock x =>
    simp only [exec] at he
    split at he <;> cases he
    exact hlock x true
  | leaveLock x =>
    cases he
    exact hlock x false
  | enterManager exclusive =>
    simp only [exec] at he
    split at he
    · cases he
    · split at he <;> cases he <;> exact ⟨rfl, rfl, fun _ => Iff.rfl⟩
  | leaveManager exclusive =>
    simp only [exec] at he
    split at he <;> cases he <;> exact ⟨rfl, rfl, fun _ => Iff.rfl⟩
  | timerTop =>
    obtain ⟨r, -, h⟩ := Option.map_eq_some_iff.1 he
    cases h
    exact hrefl
  | start x _ | setPlayerId x _ | playerReset x =>
    cases he
    have hne : s ≠ x := fun e => hs (e ▸ rfl)
    refine ⟨?_, ?_, fun _ => Iff.rfl⟩ <;> rw [modify_player, if_neg hne]
  | registerPlayer x =>
    cases he
    have hne : x ≠ s := fun e => hs (e ▸ rfl)
    refine ⟨rfl, rfl, fun k => ?_⟩
    simp only [manager_manager, Function.update_apply]
    split
    next h =>
      have hfree : p.playerManager.mPlayerMap k = none := h ▸ hr.2.entry
      constructor
      · intro h'
        exact absurd (Option.some.inj h') hne
      · intro h'
        rw [hfree] at h'
        cases h'
    · exact Iff.rfl
  | erase x id =>
    cases he
    have hne : x ≠ s := fun e => hs (e ▸ rfl)
    refine ⟨rfl, rfl, fun k => ?_⟩
    simp only [manager_manager, Function.update_apply]
    split
    next h =>
      obtain ⟨hset, hid⟩ := hr
      refine ⟨fun h' => absurd h' (by simp), fun h' => ?_⟩
      cases ha : (p.player x).mIsAlive with
      | false =>
        rw [h, hid, hset.dead ha, hk] at h'
        cases h'
      | true =>
        have hx := (hset.entry k).2 ⟨ha, h.trans hid⟩
        rw [hx] at h'
        exact absurd (Option.some.inj h') hne
    · exact Iff.rfl
  | _ => cases he; exact ⟨rfl, rfl, fun _ => Iff.rfl⟩

theorem exec_manager (he : p.exec t th answer top i = some (q, th', next))
    (hi : ∀ s id, i ≠ .registerPlayer s ∧ i ≠ .erase s id) :
    q.playerManager.mPlayerMap = p.playerManager.mPlayerMap ∧
      q.playerManager.mCurrentIssueId = p.playerManager.mCurrentIssueId := by
  cases i with
  | server j =>
    obtain ⟨r, -, h⟩ := Option.map_eq_some_iff.1 he
    cases h
    exact ⟨rfl, rfl⟩
  | push k | pop k =>
    simp only [exec] at he
    split at he <;> cases he <;> exact ⟨rfl, rfl⟩
  | enterLock x =>
    simp only [exec] at he
    split at he <;> cases he
    exact ⟨rfl, rfl⟩
  | enterManager exclusive =>
    simp only [exec] at he
    split at he
    · cases he
    · split at he <;> cases he <;> exact ⟨rfl, rfl⟩
  | leaveManager exclusive =>
    simp only [exec] at he
    split at he <;> cases he <;> exact ⟨rfl, rfl⟩
  | timerTop =>
    obtain ⟨r, -, h⟩ := Option.map_eq_some_iff.1 he
    cases h
    exact ⟨rfl, rfl⟩
  | registerPlayer x => exact absurd rfl (hi x 0).1
  | erase x id => exact absurd rfl (hi x id).2
  | _ => cases he; exact ⟨rfl, rfl⟩

theorem exec_keys (hk : p.Keys) (hr : p.Ready i) (he : p.exec t th answer top i = some (q, th', next)) : q.Keys := by
  have hsame (hi : ∀ s id, i ≠ .registerPlayer s ∧ i ≠ .erase s id) : q.Keys :=
    (congrFun (exec_manager he hi).1 (-1)).trans hk
  cases i with
  | registerPlayer x =>
    cases he
    simp only [Keys, manager_manager]
    rw [Function.update_of_ne hr.2.ne.symm]
    exact hk
  | erase x k =>
    cases he
    simp only [Keys, manager_manager, Function.update_apply]
    split
    · rfl
    · exact hk
  | _ => exact hsame fun s id => ⟨by simp, by simp⟩

/-- What a step of `Start` or `PlayerReset` makes of its player. -/
theorem exec_subject {l : Place} (hs : i.subject = some s) (hl : l.held.head? = some s) (hu : l.updating = none)
    (hr : p.Ready i) (he : p.exec t th answer top i = some (q, th', next)) :
    q.locked = p.locked ∧ ((prior Place.step l next = some l ∧ q.Settled s) ∨
      ∃ u, prior Place.step l next = some { l with updating := some u } ∧ u.subject = some s ∧ q.Updating u) := by
  obtain ⟨held, updating⟩ := l
  cases hu
  obtain ⟨held, rfl⟩ := List.head?_eq_some_iff.1 hl
  cases i with
  | start x heartbeat =>
    cases hs
    cases he
    obtain ⟨hset, hdead⟩ := hr
    refine ⟨locked_modify fun _ => rfl, .inr ⟨.registerPlayer s, ?_, rfl, ?_, fun id hid => ?_⟩⟩
    · simp [Place.step, Place.inside, Place.clear]
    · simp
    · have halive := ((hset.entry id).1 hid).1
      rw [hdead] at halive
      cases halive
  | registerPlayer x =>
    cases hs
    cases he
    obtain ⟨⟨halive, hnone⟩, -⟩ := hr
    refine ⟨rfl, .inr ⟨.setPlayerId s (p.playerManager.mCurrentIssueId + 1), ?_, rfl, halive, fun k => ?_⟩⟩
    · simp [Place.step, Place.inside]
    · simp only [manager_manager, Function.update_apply]
      split
      next h => simp [h]
      next h => simp [h, hnone k]
  | setPlayerId x id =>
    cases hs
    cases he
    obtain ⟨halive, hentry⟩ := hr
    refine ⟨locked_modify fun _ => rfl, .inl ⟨rfl, fun k => ?_, fun hd => ?_⟩⟩
    · simp only [modify_manager, modify_player, if_true, halive, true_and]
      exact hentry k
    · simp only [modify_player, if_true, halive] at hd
      cases hd
  | unregisterPlayer x =>
    cases hs
    cases he
    refine ⟨rfl, .inr ⟨.erase s (p.player s).mPlayerId, ?_, rfl, hr, rfl⟩⟩
    simp [Place.step, Place.inside]
  | erase x id =>
    cases hs
    cases he
    obtain ⟨hset, hid⟩ := hr
    refine ⟨rfl, .inr ⟨.playerReset s, ?_, rfl, fun k => ?_⟩⟩
    · simp [Place.step, Place.inside]
    · simp only [manager_manager, Function.update_apply]
      split
      · simp
      next h =>
        intro h'
        exact h (((hset.entry k).1 h').2.trans hid.symm)
  | playerReset x =>
    cases hs
    cases he
    refine ⟨locked_modify fun _ => rfl, .inl ⟨rfl, fun k => ?_, fun _ => ?_⟩⟩
    · have hnone : p.playerManager.mPlayerMap k ≠ some s := hr k
      simp [hnone]
    · simp
  | _ => cases hs

/-- Any other step takes or leaves one player at most. -/
theorem exec_other {l l₁ : Place} (hs : i.subject = none) (hi : l.step i = some l₁)
    (he : p.exec t th answer top i = some (q, th', next)) :
    ∃ l₂, prior Place.step l next = some l₂ ∧ l₂.updating = l₁.updating ∧ Lib.Turn p.locked q.locked l₁.held l₂.held := by
  have stay (hl : l₁ = l) (hq : q.locked = p.locked) (hn : prior Place.step l next = some l) :
      ∃ l₂, prior Place.step l next = some l₂ ∧ l₂.updating = l₁.updating ∧ Lib.Turn p.locked q.locked l₁.held l₂.held :=
    ⟨l, hn, hl ▸ rfl, hl ▸ .stay l₁.held hq⟩
  cases i with
  | server j =>
    obtain ⟨hu, rfl⟩ := Place.clear_eq_some.1 hi
    obtain ⟨r, -, h⟩ := Option.map_eq_some_iff.1 he
    cases h
    exact stay rfl rfl (Place.prior_steps hu r.2)
  | push k | pop k =>
    cases hi
    simp only [exec] at he
    split at he <;> cases he <;> exact stay rfl rfl rfl
  | enterLock x =>
    obtain ⟨l', h', rfl⟩ := Option.map_eq_some_iff.1 hi
    obtain ⟨⟨hhead, hu⟩, rfl⟩ := Place.inside_eq_some.1 h'
    simp only [exec] at he
    split at he <;> cases he
    next hlock =>
      obtain ⟨rest, hheld⟩ := List.head?_eq_some_iff.1 hhead
      refine ⟨l, rfl, hu, ?_⟩
      simp only [hheld, List.tail_cons]
      exact .enter x rest (Bool.eq_false_iff.2 hlock) (locked_setLock true)
  | leaveLock x =>
    obtain ⟨l', h', rfl⟩ := Option.map_eq_some_iff.1 hi
    obtain ⟨hu, rfl⟩ := Place.clear_eq_some.1 h'
    cases he
    exact ⟨l, rfl, rfl, .leave x l.held (locked_setLock false)⟩
  | enterManager exclusive =>
    cases hi
    simp only [exec] at he
    split at he
    · cases he
    · split at he <;> cases he <;> exact stay rfl rfl rfl
  | leaveManager exclusive =>
    cases hi
    simp only [exec] at he
    split at he <;> cases he <;> exact stay rfl rfl rfl
  | timerTop =>
    obtain ⟨hu, rfl⟩ := Place.clear_eq_some.1 hi
    obtain ⟨r, hr, h⟩ := Option.map_eq_some_iff.1 he
    cases h
    refine stay rfl rfl ?_
    obtain ⟨held, updating⟩ := l
    cases hu
    unfold Thread.timerTop at hr
    split at hr
    · split at hr <;> cases hr
      rfl
    next e _ =>
      split at hr
      · split at hr <;> cases hr
        · rfl
        · cases e.mTask <;> simp [TimerTask.step, Place.step, Place.inside, Place.clear]
      · cases hr
  | onTick x =>
    obtain ⟨hu, rfl⟩ := Place.clear_eq_some.1 hi
    cases he
    refine stay rfl rfl ?_
    split
    · cases answer <;> simp [Place.step, Place.clear, hu]
    · rfl
  | gce frame =>
    obtain ⟨hu, rfl⟩ := Place.clear_eq_some.1 hi
    cases he
    exact stay rfl rfl (Place.prior_frameSteps hu _)
  | start | registerPlayer | setPlayerId | unregisterPlayer | erase | playerReset => cases hs
  | _ =>
    obtain ⟨hu, rfl⟩ := Place.clear_eq_some.1 hi
    cases he
    exact stay rfl rfl (by simp [Place.step, Place.clear, hu])

/-- From `l₁` to `l₂` a thread stays in the change it is in, or goes on with that of the player it is about. -/
def Moves (q : Process) (l₁ l₂ : Place) : Option SessionId → Prop
  | none => l₂.updating = l₁.updating
  | some s => s ∈ l₁.held ∧ (∀ u, l₁.updating = some u → u.subject = some s) ∧
    ((l₂.updating = none ∧ q.Settled s) ∨ ∃ u, l₂.updating = some u ∧ u.subject = some s ∧ q.Updating u)

/-- What a step does to the place of its thread. -/
theorem exec_place {l l₁ : Place} (hr : p.Ready i) (hi : l.step i = some l₁)
    (he : p.exec t th answer top i = some (q, th', next)) : ∃ l₂, prior Place.step l next = some l₂ ∧
      Lib.Turn p.locked q.locked l₁.held l₂.held ∧ q.Moves l₁ l₂ i.subject := by
  cases hs : i.subject with
  | none =>
    obtain ⟨l₂, hl₂, hu, hturn⟩ := exec_other hs hi he
    exact ⟨l₂, hl₂, hturn, hu⟩
  | some s =>
    obtain ⟨hhead, hnone, hheld, hu⟩ : l.held.head? = some s ∧ l.updating = none ∧ l₁.held = l.held ∧
        ∀ u, l₁.updating = some u → u.subject = some s := by
      cases i with
      | start | registerPlayer | setPlayerId | unregisterPlayer | erase | playerReset =>
        cases hs
        obtain ⟨⟨hhead, hnone⟩, rfl⟩ := Place.inside_eq_some.1 hi
        refine ⟨hhead, hnone, rfl, ?_⟩
        rintro u ⟨⟩
        try rfl
      | _ => cases hs
    have hmem : s ∈ l₁.held := hheld ▸ List.mem_of_head? hhead
    obtain ⟨hlock, ⟨hn, hset⟩ | ⟨u, hn, hsu, hup⟩⟩ := exec_subject hs hhead hnone hr he
    · exact ⟨l, hn, hheld ▸ .stay _ hlock, hmem, hu, .inl ⟨hnone, hset⟩⟩
    · exact ⟨_, hn, hheld ▸ .stay _ hlock, hmem, hu, .inr ⟨u, rfl, hsu, hup⟩⟩

end Process

/-! ## Every thread -/

def Thread.place (th : Thread) : Option Place := prior Place.step ⟨[], none⟩ th.todo

namespace Process

def heldPlayers (p : Process) : List (List SessionId) := p.threads.map fun th => (th.place.map Place.held).getD []

structure Registry (p : Process) : Prop where
  keys : p.Keys
  place : ∀ th ∈ p.threads, th.place.isSome
  locked : ∀ s, tally (· = s) p.heldPlayers = (p.locked s).toNat
  updating : ∀ th ∈ p.threads, ∀ l u, th.place = some l → l.updating = some u → p.Updating u
  settled : ∀ s, (∀ th ∈ p.threads, ∀ l u, th.place = some l → l.updating = some u → u.subject ≠ some s) →
    p.Settled s

theorem heldPlayers_get {l : Place} (ht : p.threads[t]? = some th) (hl : th.place = some l) :
    p.heldPlayers[t]? = some l.held := by
  simp [heldPlayers, ht, hl]

/-- Two threads that hold a player are the same. -/
theorem Registry.unique (hp : p.Registry) {t' : Nat} {u : Thread} {l l' : Place} (ht : p.threads[t]? = some th)
    (ht' : p.threads[t']? = some u) (hl : th.place = some l) (hl' : u.place = some l') (hs : s ∈ l.held)
    (hs' : s ∈ l'.held) : t = t' :=
  holder_unique hp.locked (heldPlayers_get ht hl) (heldPlayers_get ht' hl') hs hs'

theorem getElem?_set_cases {l : List Thread} {t' : Nat} {u : Thread} (ht : (l.set t th')[t']? = some u) :
    t' = t ∧ u = th' ∨ t' ≠ t ∧ l[t']? = some u := by
  rw [List.getElem?_set] at ht
  split at ht
  next h =>
    split at ht
    · exact .inl ⟨h.symm, (Option.some.inj ht).symm⟩
    · cases ht
  next h => exact .inr ⟨fun e => h e.symm, ht⟩

/-- A thread that moves on keeps the registry, if it does nothing to the players it is not about. -/
theorem registry_setThread {l₁ l₂ : Place} (about : Option SessionId) (hp : p.Registry) (ht : p.threads[t]? = some th)
    (h₁ : th.place = some l₁) (h₂ : th'.place = some l₂) (hq : q.threads = p.threads) (hk : q.Keys)
    (hturn : Lib.Turn p.locked q.locked l₁.held l₂.held) (hm : q.Moves l₁ l₂ about)
    (hsame : ∀ x, about ≠ some x → Same p q x) : (q.setThread t th').Registry := by
  have hthreads : (q.setThread t th').threads = p.threads.set t th' := by rw [setThread, hq]
  have hrefl (x : SessionId) : Same q (q.setThread t th') x := ⟨rfl, rfl, fun _ => Iff.rfl⟩
  have hheld : (q.setThread t th').heldPlayers = p.heldPlayers.set t l₂.held := by
    simp [heldPlayers, hthreads, List.map_set, h₂]
  refine ⟨hk, fun u hu => ?_, fun s => ?_, fun v hv l u hl hu => ?_, fun s hs => ?_⟩
  · rw [hthreads] at hu
    rcases List.mem_or_eq_of_mem_set hu with hu | rfl
    · exact hp.place u hu
    · rw [h₂]; rfl
  · rw [hheld]
    exact turn_tally hp.locked (heldPlayers_get ht h₁) hturn s
  · obtain ⟨t', ht'⟩ := List.getElem?_of_mem hv
    rw [hthreads] at ht'
    obtain ⟨-, x, hx, -, hxl⟩ := Place.held_of_updating hl hu
    refine (hrefl x).updating hx ?_
    rcases getElem?_set_cases ht' with ⟨-, rfl⟩ | ⟨hne, ht'⟩
    · obtain rfl := Option.some.inj (h₂.symm.trans hl)
      cases about with
      | none =>
        have hu₁ : l₁.updating = some u := Eq.trans (Eq.symm hm) hu
        exact (hsame x (by simp)).updating hx (hp.updating th (List.mem_of_getElem? ht) l₁ u h₁ hu₁)
      | some s =>
        obtain ⟨-, -, ⟨hn, -⟩ | ⟨u', hu', -, hup⟩⟩ := hm
        · exact absurd (hn.symm.trans hu) (by simp)
        · obtain rfl := Option.some.inj (hu'.symm.trans hu)
          exact hup
    · -- another thread is in a change of another player
      have hother : about ≠ some x := by
        rintro rfl
        exact hne (hp.unique ht' ht hl h₁ hxl hm.1)
      exact (hsame x hother).updating hx (hp.updating v (List.mem_of_getElem? ht') l u hl hu)
  · have hmem : th' ∈ (q.setThread t th').threads :=
      hthreads ▸ List.mem_set (List.getElem?_eq_some_iff.1 ht).1 th'
    have hnew : ∀ u, l₂.updating = some u → u.subject ≠ some s := fun u hu => hs th' hmem l₂ u h₂ hu
    refine (hrefl s).settled ?_
    by_cases hsub : about = some s
    · subst hsub
      obtain ⟨-, -, ⟨-, hset⟩ | ⟨u, hu, hsu, -⟩⟩ := hm
      · exact hset
      · exact absurd hsu (hnew u hu)
    · refine (hsame s hsub).settled (hp.settled s fun v hv l u hl hu => ?_)
      obtain ⟨t', ht'⟩ := List.getElem?_of_mem hv
      by_cases he : t' = t
      · subst he
        obtain rfl := Option.some.inj (ht.symm.trans ht')
        obtain rfl := Option.some.inj (h₁.symm.trans hl)
        cases about with
        | none => exact hnew u (Eq.trans hm hu)
        | some x =>
          rw [hm.2.1 u hu]
          exact hsub
      · have hget : (q.setThread t th').threads[t']? = some v := by
          rw [hthreads, List.getElem?_set_ne (fun e => he e.symm), ht']
        exact hs v (List.mem_of_getElem? hget) l u hl hu

/-- Nobody else is in the middle of a change of a player that is held. -/
theorem Registry.ready {l l₁ : Place} (hp : p.Registry) (ht : p.threads[t]? = some th) (h₁ : th.place = some l₁)
    (hi : l.step i = some l₁) (hs : ∀ s, i.starts = some s → (p.player s).mIsAlive = false)
    (hid : ∀ s, i = .registerPlayer s → p.IdFree) : p.Ready i := by
  have settled (s : SessionId) (h : l.inside s none = some l₁) : p.Settled s := by
    obtain ⟨⟨hhead, -⟩, hl⟩ := Place.inside_eq_some.1 h
    have hnone : l₁.updating = none := by rw [← hl]
    have hmem : s ∈ l₁.held := by
      rw [← hl]
      exact List.mem_of_head? hhead
    refine hp.settled s fun v hv l' u hl' hu hsu => ?_
    obtain ⟨t', ht'⟩ := List.getElem?_of_mem hv
    obtain ⟨-, x, hx, -, hxl⟩ := Place.held_of_updating hl' hu
    obtain rfl := Option.some.inj (hsu.symm.trans hx)
    obtain rfl := hp.unique ht ht' h₁ hl' hmem hxl
    obtain rfl := Option.some.inj (ht.symm.trans ht')
    obtain rfl := Option.some.inj (h₁.symm.trans hl')
    rw [hnone] at hu
    cases hu
  have updating (s : SessionId) (h : l.inside s (some i) = some l₁) : p.Updating i := by
    obtain ⟨-, hl⟩ := Place.inside_eq_some.1 h
    exact hp.updating th (List.mem_of_getElem? ht) l₁ i h₁ (by rw [← hl])
  cases i with
  | start s _ => exact ⟨settled s hi, hs s rfl⟩
  | unregisterPlayer s => exact settled s hi
  | registerPlayer s => exact ⟨updating s hi, hid s rfl⟩
  | setPlayerId s _ | erase s _ | playerReset s => exact updating s hi
  | _ => trivial

/-- `Start` is called for a player that is not alive. -/
def StartsDead (p : Process) (a : Action) : Prop := ∀ s ∈ p.starts a, (p.player s).mIsAlive = false

/-- `RegisterPlayer` gives out an id that is free. -/
def RegistersFree (p : Process) (a : Action) : Prop := p.registers a = true → p.IdFree

theorem step_registry (hp : p.Registry) (ha : p.StartsDead a) (hid : p.RegistersFree a) (hs : p.step a = some p') :
    p'.Registry := by
  cases a with
  | run t answer top =>
    obtain ⟨-, -, th, i, rest, q, th', next, ht, htodo, he, rfl⟩ := step_run hs
    obtain ⟨l₁, h₁⟩ := Option.isSome_iff_exists.1 (hp.place th (List.mem_of_getElem? ht))
    have hplace := h₁
    rw [Thread.place, htodo] at hplace
    obtain ⟨l, hl, hi⟩ := prior_cons_eq_some.1 hplace
    have hready : p.Ready i := hp.ready ht h₁ hi (fun s hstart => ha s (by simp [starts, ht, htodo, hstart]))
      fun s hs => hid (by simp [registers, ht, htodo, hs, Step.registers])
    obtain ⟨l₂, hn, hturn, hm⟩ := exec_place hready hi he
    have h₂ : ({ th' with todo := next ++ rest } : Thread).place = some l₂ := by
      rw [Thread.place, prior_append_of hl, hn]
    exact registry_setThread i.subject hp ht h₁ h₂ (exec_base he).2.1 (exec_keys hp.keys hready he) hturn hm fun x hx =>
      exec_same hp.keys hready he hx
  | dequeue t k c =>
    obtain ⟨-, -, th, v, todo, ht, htodo, -, -, -, -, rfl⟩ := step_dequeue hs
    have h₁ : th.place = some ⟨[], none⟩ := by rw [Thread.place, htodo, prior_nil]
    have h₂ : ({ th with todo := todo.flatMap steps ++ [.doTimerJob] } : Thread).place = some ⟨[], none⟩ := by
      have hlast : prior Place.step ⟨[], none⟩ [.doTimerJob] = some ⟨[], none⟩ := rfl
      rw [Thread.place, prior_append_of hlast]
      exact Place.prior_steps rfl todo
    exact registry_setThread none hp ht h₁ h₂ rfl hp.keys (.stay [] rfl) rfl
      fun _ _ => ⟨rfl, rfl, fun _ => Iff.rfl⟩
  | tick ms =>
    obtain rfl := step_tick hs
    have hrefl (x : SessionId) : Same p { p with tickCount := p.tickCount + ms } x := ⟨rfl, rfl, fun _ => Iff.rfl⟩
    refine ⟨hp.keys, hp.place, hp.locked, fun th hth l u hl hu => ?_, fun s hs => ?_⟩
    · obtain ⟨-, x, hx, -, -⟩ := Place.held_of_updating hl hu
      exact (hrefl x).updating hx (hp.updating th hth l u hl hu)
    · exact (hrefl s).settled (hp.settled s hs)

theorem start_registry (n : Nat) : (start n).Registry := by
  have hplace {th : Thread} (hth : th ∈ (start n).threads) : th.place = some ⟨[], none⟩ := by
    simp only [start, List.mem_cons, List.mem_replicate] at hth
    rcases hth with rfl | ⟨-, rfl⟩ <;> simp [Thread.start, Thread.place, Place.step, Place.clear]
  refine ⟨rfl, fun th hth => by rw [hplace hth]; rfl, fun s => ?_,
    fun th hth l u hl hu => ?_, fun s _ => ⟨fun id => by simp [start], fun _ => rfl⟩⟩
  · have hzero : (start n).locked s = false := rfl
    rw [hzero, Bool.toNat_false, tally_eq_zero]
    intro l hl
    obtain ⟨th, hth, rfl⟩ := List.mem_map.1 hl
    rw [hplace hth]
    simp
  · rw [hplace hth] at hl
    cases hl
    cases hu

end Process

end GameServer.Players
