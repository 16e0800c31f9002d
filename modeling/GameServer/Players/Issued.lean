import GameServer.Players.Registry
/-!
# The players of issued sessions

`Player::Start` is called by a timer that knows of the player, and not of the
session. If it comes while the player is neither alive nor given back, and
registers it under an id that is free, players with an entry are those of issued
sessions (`registry_consistent`). The ids are free for 2^32 - 2 logins
(`meets_registersFree`). To the rest the code does not see: a session that is
given back within 10 ms is free, with its player alive (`registered_free`).
-/

namespace GameServer.Players

open Lib Lifecycle

variable {p p' q : Process} {t : Nat} {th th' : Thread} {answer : Bool} {top : Nat} {a : Action} {i : Step}
  {next rest : List Step} {s : SessionId}

/-! ## Giving a session back -/

/-- The step is one of the player's `PlayerReset`. -/
def Step.resets (s : SessionId) : Step → Bool
  | .unregisterPlayer x | .erase x _ | .playerReset x => x = s
  | _ => false

/-- `mFreeSessionList.push_back`, at the end of `ReturnClientSession`. -/
def Step.frees (s : SessionId) : Step → Bool
  | .server (.returning .push x) => x = s
  | _ => false

/-- What is left of the work pushes the session without a reset of its player. -/
def pastReset (s : SessionId) : List Step → Bool
  | [] => false
  | i :: rest => !i.resets s && (i.frees s || pastReset s rest)

/-- Steps that push no session come before those that are past a reset. -/
theorem pastReset_append (h : ∀ i ∈ next, i.frees s = false) (hp : pastReset s (next ++ rest) = true) :
    pastReset s rest = true := by
  induction next with
  | nil => exact hp
  | cons i next ih =>
    simp only [List.cons_append, pastReset, h i List.mem_cons_self, Bool.false_or, Bool.and_eq_true] at hp
    exact ih (fun j hj => h j (List.mem_cons_of_mem i hj)) hp.2

/-- A session that an instruction pushes has its player reset first. -/
theorem pastReset_steps (is : List Instr) (hp : pastReset s (is.flatMap steps ++ rest) = true) :
    pastReset s rest = true := by
  induction is with
  | nil => exact hp
  | cons j is ih =>
    refine ih ?_
    rw [List.flatMap_cons, List.append_assoc] at hp
    cases j with
    | isConnected c x => cases c <;> exact pastReset_append (by simp [Step.frees]) hp
    | returning r x =>
      cases r with
      | push =>
        by_cases hx : x = s
        · simp [pastReset, Step.resets, Step.frees, hx] at hp
        · exact pastReset_append (by simp [Step.frees, hx]) hp
      | _ => exact pastReset_append (by simp [Step.frees]) hp
    | _ => exact pastReset_append (by simp [Step.frees]) hp

theorem frameSteps_frees (frames : List GrandCentralExecuter.Frame) :
    ∀ i ∈ frames.flatMap frameSteps, i.frees s = false := by
  intro i hi
  obtain ⟨frame, -, hi⟩ := List.mem_flatMap.1 hi
  have hframe : ∀ i ∈ frameSteps frame, i.frees s = false := by cases frame <;> simp [Step.frees]
  exact hframe i hi

namespace Process

/-- A step gets past the reset only by the end of it. -/
theorem exec_pastReset (he : p.exec t th answer top i = some (q, th', next)) (hp : pastReset s (next ++ rest) = true) :
    pastReset s (i :: rest) = true ∨ i = .playerReset s := by
  have behind (hi : i.resets s = false) (hr : pastReset s rest = true) :
      pastReset s (i :: rest) = true ∨ i = .playerReset s := .inl (by simp [pastReset, hi, hr])
  have quiet (hi : i.resets s = false) (hn : ∀ j ∈ next, j.frees s = false) :
      pastReset s (i :: rest) = true ∨ i = .playerReset s := behind hi (pastReset_append hn hp)
  cases i with
  | server j =>
    obtain ⟨r, -, h⟩ := Option.map_eq_some_iff.1 he
    cases h
    exact behind rfl (pastReset_steps r.2 hp)
  | push k | pop k =>
    simp only [exec] at he
    split at he <;> cases he <;> exact behind rfl hp
  | enterLock x =>
    simp only [exec] at he
    split at he <;> cases he
    exact behind rfl hp
  | enterManager exclusive =>
    simp only [exec] at he
    split at he
    · cases he
    · split at he <;> cases he <;> exact behind rfl hp
  | leaveManager exclusive =>
    simp only [exec] at he
    split at he <;> cases he <;> exact behind rfl hp
  | timerTop =>
    obtain ⟨r, hr, h⟩ := Option.map_eq_some_iff.1 he
    cases h
    refine quiet rfl ?_
    unfold Thread.timerTop at hr
    split at hr
    · split at hr <;> cases hr
      simp
    next e _ =>
      split at hr
      · split at hr <;> cases hr
        · simp
        · cases e.mTask <;> simp [TimerTask.step, Step.frees]
      · cases hr
  | onTick x =>
    cases he
    refine quiet rfl ?_
    split
    · cases answer <;> simp [Step.frees]
    · simp
  | unregisterPlayer x =>
    cases he
    by_cases hx : x = s
    · simp [pastReset, Step.resets, Step.frees, hx] at hp
    · exact quiet (by simp [Step.resets, hx]) (by simp [Step.frees])
  | erase x id =>
    cases he
    by_cases hx : x = s
    · simp [pastReset, Step.resets, Step.frees, hx] at hp
    · exact quiet (by simp [Step.resets, hx]) (by simp [Step.frees])
  | playerReset x =>
    cases he
    by_cases hx : x = s
    · exact .inr (hx ▸ rfl)
    · exact behind (by simp [Step.resets, hx]) hp
  | gce frame =>
    cases he
    exact quiet rfl (frameSteps_frees _)
  | _ => cases he; exact quiet rfl (by simp [Step.frees])

theorem alive_of_modify {x : SessionId} {f : Player → Player} (hq : ((p.modify x f).player s).mIsAlive = true)
    (hf : ∀ pl, (f pl).mIsAlive = pl.mIsAlive) : (p.player s).mIsAlive = true := by
  rw [modify_player] at hq
  split at hq
  next h =>
    rw [hf] at hq
    exact h ▸ hq
  · exact hq

/-- Only `Start` makes a player alive, and `PlayerReset` ends with a dead one. -/
theorem exec_alive (he : p.exec t th answer top i = some (q, th', next)) (hq : (q.player s).mIsAlive = true) :
    ((p.player s).mIsAlive = true ∨ i.starts = some s) ∧ i ≠ .playerReset s := by
  have stay (hp : q.player = p.player) (hi : i ≠ .playerReset s) :
      ((p.player s).mIsAlive = true ∨ i.starts = some s) ∧ i ≠ .playerReset s :=
    ⟨.inl (hp ▸ hq), hi⟩
  cases i with
  | server j =>
    obtain ⟨r, -, h⟩ := Option.map_eq_some_iff.1 he
    cases h
    exact stay rfl (by simp)
  | push k | pop k =>
    simp only [exec] at he
    split at he <;> cases he <;> exact stay rfl (by simp)
  | enterLock x =>
    simp only [exec] at he
    split at he <;> cases he
    exact ⟨.inl (alive_of_modify hq fun _ => rfl), by simp⟩
  | leaveLock x | setPlayerId x _ =>
    cases he
    exact ⟨.inl (alive_of_modify hq fun _ => rfl), by simp⟩
  | enterManager exclusive =>
    simp only [exec] at he
    split at he
    · cases he
    · split at he <;> cases he <;> exact stay rfl (by simp)
  | leaveManager exclusive =>
    simp only [exec] at he
    split at he <;> cases he <;> exact stay rfl (by simp)
  | timerTop =>
    obtain ⟨r, -, h⟩ := Option.map_eq_some_iff.1 he
    cases h
    exact stay rfl (by simp)
  | start x _ =>
    cases he
    refine ⟨?_, by simp⟩
    rw [modify_player] at hq
    split at hq
    next hx => exact .inr (hx ▸ rfl)
    · exact .inl hq
  | playerReset x =>
    cases he
    rw [modify_player] at hq
    split at hq
    · cases hq
    next hx =>
      refine ⟨.inl hq, fun h => ?_⟩
      cases h
      exact hx rfl
  | _ => cases he; exact stay rfl (by simp)

/-- Only the end of `ReturnClientSession` puts a session in the free list. -/
theorem exec_free (he : p.exec t th answer top i = some (q, th', next)) (hs : s ∈ q.server.mFreeSessionList) :
    s ∈ p.server.mFreeSessionList ∨ i.frees s = true := by
  obtain ⟨-, -, ⟨j, v, n, rfl, hv, rfl, -, -⟩ | ⟨-, hq, -⟩⟩ := exec_base he
  · cases Server.exec_change hv with
    | pop x free f hi hf =>
      have hmem : s ∈ free := hs
      have hbase : p.server.mFreeSessionList = x :: free := hf
      exact .inl (hbase ▸ List.mem_cons_of_mem x hmem)
    | push x =>
      have hmem : s ∈ x :: p.server.mFreeSessionList := hs
      rcases List.mem_cons.1 hmem with rfl | hmem
      · exact .inr (by simp [Step.frees])
      · exact .inl hmem
    | _ => exact .inl hs
  · exact .inl (hq ▸ hs)

/-- The session is out of the free list, and not on its way there with its player reset. -/
def Issued (p : Process) (s : SessionId) : Prop :=
  s ∉ p.server.mFreeSessionList ∧ ∀ th ∈ p.threads, pastReset s th.todo = false

/-- `Start` comes when the player is not alive and its session is issued. -/
def StartsIssued (p : Process) (a : Action) : Prop :=
  ∀ s ∈ p.starts a, (p.player s).mIsAlive = false ∧ p.Issued s

instance (p : Process) (s : SessionId) : Decidable (p.Issued s) := inferInstanceAs (Decidable (_ ∧ _))

instance (p : Process) (a : Action) : Decidable (p.StartsIssued a) :=
  match ha : p.starts a with
  | some s => decidable_of_iff ((p.player s).mIsAlive = false ∧ p.Issued s) (by simp [StartsIssued, ha])
  | none => isTrue (by simp [StartsIssued, ha])

instance (p : Process) : Decidable p.IdFree :=
  decidable_of_iff (_ ∧ _) ⟨fun h => ⟨h.1, h.2⟩, fun h => ⟨h.ne, h.entry⟩⟩

instance (p : Process) (a : Action) : Decidable (p.RegistersFree a) := inferInstanceAs (Decidable (_ → _))

theorem step_issued (hp : ∀ s, (p.player s).mIsAlive = true → p.Issued s) (ha : p.StartsIssued a)
    (hs : p.step a = some p') (s : SessionId) (halive : (p'.player s).mIsAlive = true) : p'.Issued s := by
  cases a with
  | run t answer top =>
    obtain ⟨-, -, th, i, rest, q, th', next, ht, htodo, he, rfl⟩ := step_run hs
    obtain ⟨hbefore, hreset⟩ := exec_alive he halive
    obtain ⟨hfree, hpast⟩ : p.Issued s := by
      rcases hbefore with h | h
      · exact hp s h
      · exact (ha s (by simp [starts, ht, htodo, h])).2
    have hthread : pastReset s (i :: rest) = false := htodo ▸ hpast th (List.mem_of_getElem? ht)
    refine ⟨fun hmem => ?_, fun u hu => ?_⟩
    · rcases exec_free he hmem with h | h
      · exact hfree h
      · have hi : i.resets s = false := by
          cases i with
          | server => rfl
          | _ => cases h
        simp [pastReset, hi, h] at hthread
    · simp only [setThread, (exec_base he).2.1] at hu
      rcases List.mem_or_eq_of_mem_set hu with hu | rfl
      · exact hpast u hu
      · rw [Bool.eq_false_iff]
        intro h
        rcases exec_pastReset he h with h | h
        · rw [hthread] at h
          cases h
        · exact hreset h
  | dequeue t k c =>
    obtain ⟨-, -, th, v, todo, ht, -, -, -, -, hv, rfl⟩ := step_dequeue hs
    obtain ⟨hfree, hpast⟩ := hp s halive
    refine ⟨fun hmem => hfree (hv ▸ hmem), fun u hu => ?_⟩
    rcases List.mem_or_eq_of_mem_set hu with hu | rfl
    · exact hpast u hu
    · rw [Bool.eq_false_iff]
      intro h
      have hlast : pastReset s [.doTimerJob] = true := pastReset_steps todo h
      cases hlast
  | tick ms =>
    obtain rfl := step_tick hs
    exact hp s halive

/-! ## The ids -/

/-- How many of the actions are an `++mCurrentIssueId`. -/
def registrations (p : Process) : List Action → Nat
  | [] => 0
  | a :: as => (p.registers a).toNat + match p.step a with
    | none => 0
    | some q => registrations q as

/-- The ids from 1 to `k` have been given out. -/
structure Given (p : Process) (k : Nat) : Prop where
  cur : p.playerManager.mCurrentIssueId = Int32.ofNat k
  key : ∀ id s, p.playerManager.mPlayerMap id = some s → ∃ j, 0 < j ∧ j ≤ k ∧ id = Int32.ofNat j

theorem ofNat_inj {j k : Nat} (hj : j < 2 ^ 32) (hk : k < 2 ^ 32) (h : Int32.ofNat j = Int32.ofNat k) : j = k := by
  have h' := congrArg (fun x : Int32 => x.toBitVec.toNat) h
  simp only [Int32.toBitVec_ofNat', BitVec.toNat_ofNat, Nat.mod_eq_of_lt hj, Nat.mod_eq_of_lt hk] at h'
  exact h'

/-- As long as the `int` has not come round to -1, the next id is free. -/
theorem Given.idFree {k : Nat} (hp : p.Given k) (hk : k + 1 < 2 ^ 32 - 1) : p.IdFree := by
  have hcur : p.playerManager.mCurrentIssueId + 1 = Int32.ofNat (k + 1) := by
    rw [hp.cur]
    exact (Int32.ofNat_add k 1).symm
  refine ⟨fun h => ?_, ?_⟩
  · have := ofNat_inj (by omega) (by omega) (hcur.symm.trans h : Int32.ofNat (k + 1) = Int32.ofNat (2 ^ 32 - 1))
    omega
  · rw [hcur, Option.eq_none_iff_forall_not_mem]
    intro s hs
    obtain ⟨j, hj, hjk, he⟩ := hp.key _ s hs
    have := ofNat_inj (by omega) (by omega) he
    omega

theorem exec_given {k : Nat} (hp : p.Given k) (he : p.exec t th answer top i = some (q, th', next)) :
    q.Given (k + i.registers.toNat) := by
  have hsame (hi : ∀ s id, i ≠ .registerPlayer s ∧ i ≠ .erase s id) : q.Given k := by
    obtain ⟨hmap, hcur⟩ := exec_manager he hi
    exact ⟨hcur.trans hp.cur, fun id s h => hp.key id s (hmap ▸ h)⟩
  cases i with
  | registerPlayer x =>
    cases he
    refine ⟨?_, fun id s h => ?_⟩
    · simp only [manager_manager, hp.cur]
      exact (Int32.ofNat_add k 1).symm
    · simp only [manager_manager, Function.update_apply, hp.cur] at h
      split at h
      next hid => exact ⟨k + 1, Nat.succ_pos k, le_rfl, hid.trans (Int32.ofNat_add k 1).symm⟩
      · obtain ⟨j, hj, hjk, he⟩ := hp.key id s h
        exact ⟨j, hj, Nat.le_succ_of_le hjk, he⟩
  | erase x k' =>
    cases he
    refine ⟨hp.cur, fun id s h => ?_⟩
    simp only [manager_manager, Function.update_apply] at h
    split at h
    · cases h
    · exact hp.key id s h
  | _ => exact hsame fun s id => ⟨by simp, by simp⟩

theorem step_given {k : Nat} (hp : p.Given k) (hs : p.step a = some p') : p'.Given (k + (p.registers a).toNat) := by
  cases a with
  | run t answer top =>
    obtain ⟨-, -, th, i, rest, q, th', next, ht, htodo, he, rfl⟩ := step_run hs
    have hq := exec_given hp he
    simp only [registers, ht, htodo, Option.bind_some, List.head?_cons, Option.any_some]
    exact ⟨hq.cur, hq.key⟩
  | dequeue t i c =>
    obtain ⟨-, -, th, v, todo, -, -, -, -, -, -, rfl⟩ := step_dequeue hs
    exact ⟨hp.cur, hp.key⟩
  | tick ms =>
    obtain rfl := step_tick hs
    exact ⟨hp.cur, hp.key⟩

/-- Below 2^32 - 1 logins every id that is given out is free. -/
theorem meets_registersFree (n : Nat) {as : List Action} (h : registrations (start n) as < 2 ^ 32 - 1) :
    Meets step RegistersFree (start n) as := by
  suffices ∀ {p : Process} {k : Nat} (as : List Action), p.Given k → k + registrations p as < 2 ^ 32 - 1 →
      Meets step RegistersFree p as from
    this as ⟨rfl, fun id s h => by cases h⟩ ((Nat.zero_add _).symm ▸ h)
  intro p k as hp hk
  induction as generalizing p k with
  | nil => trivial
  | cons a as ih =>
    rw [registrations] at hk
    refine ⟨fun hr => hp.idFree ?_, fun q hq => ih (step_given hp hq) ?_⟩
    · rw [hr, Bool.toNat_true] at hk
      omega
    · rw [hq] at hk
      simp only at hk
      omega

/-! ## Every run -/

/-- The player is in the middle of `Start` or `PlayerReset`. -/
def changing (p : Process) (s : SessionId) : Bool := p.threads.any fun th => th.todo.any (Step.updates s)

/-- The map has an entry for the player exactly if it is alive, this one is under
its id, and then the session is issued. -/
structure Registered (p : Process) (s : SessionId) : Prop where
  entry : ∀ id, p.playerManager.mPlayerMap id = some s ↔ (p.player s).mIsAlive = true ∧ id = (p.player s).mPlayerId
  issued : (p.player s).mIsAlive = true → s ∉ p.server.mFreeSessionList

/-- Where `Start` comes only for dead players of issued sessions and registers
them under free ids, the map, the players and the free list agree on every player that is not just being changed. -/
theorem registry_consistent (n : Nat) (as : List Action)
    (hm : Meets step (fun p a => p.StartsIssued a ∧ p.RegistersFree a) (start n) as)
    (hr : run step (start n) as = some p) (s : SessionId) (hs : p.changing s = false) : p.Registered s := by
  have hboth : p.Registry ∧ ∀ s, (p.player s).mIsAlive = true → p.Issued s :=
    inv_of_meets (I := fun p => p.Registry ∧ ∀ s, (p.player s).mIsAlive = true → p.Issued s)
      (fun _ _ _ h ha hstep => ⟨step_registry h.1 (fun s hstart => (ha.1 s hstart).1) ha.2 hstep, step_issued h.2 ha.1 hstep⟩)
      ⟨start_registry n, fun s h => by cases h⟩ hm hr
  obtain ⟨hreg, hissued⟩ := hboth
  have hset : p.Settled s := hreg.settled s fun th hth l u hl hu hsub => by
    obtain ⟨hmem, x, hx, hupdates, -⟩ := Place.held_of_updating hl hu
    obtain rfl := Option.some.inj (hsub.symm.trans hx)
    refine List.any_eq_false.1 hs th hth ?_
    exact List.any_eq_true.2 ⟨u, hmem, hupdates⟩
  exact ⟨hset.entry, fun h => (hissued s h).1⟩

/-- The client of the first session is started while its first receive, which
failed, waits to be handled. -/
def startsInTime : List Action :=
  acceptOne ++ runs 1 2 ++ [.dequeue 1 0 (.done true [])] ++ runs 1 9 ++ [.tick 10, .dequeue 1 0 .failed] ++
    runs 1 5 ++ [.run 1 false 0] ++ runs 1 43

theorem registry_consistent_startsInTime : ∃ p, run step (start 1) startsInTime = some p ∧
    (p.player firstClient).mIsAlive = true ∧ p.Registered firstClient := by
  have hmap : (run step (start 1) startsInTime).map (fun p => ((p.player firstClient).mIsAlive, p.changing firstClient)) =
      some (true, false) := by decide +kernel
  obtain ⟨p, hr, hp⟩ := Option.map_eq_some_iff.1 hmap
  simp only [Prod.mk.injEq] at hp
  exact ⟨p, hr, hp.1, registry_consistent 1 startsInTime (by decide +kernel) hr firstClient hp.2⟩

/-- The player of a free session has an entry. -/
theorem registered_free : ∃ p, run step (start 1) startsLate = some p ∧ p.changing firstClient = false ∧
    p.playerManager.mPlayerMap 1 = some firstClient ∧ firstClient ∈ p.server.mFreeSessionList := by
  have hmap : (run step (start 1) startsLate).map
      (fun p => (p.changing firstClient, p.playerManager.mPlayerMap 1, p.server.mFreeSessionList.head?)) =
      some (false, some firstClient, some firstClient) := by decide +kernel
  obtain ⟨p, hr, hp⟩ := Option.map_eq_some_iff.1 hmap
  simp only [Prod.mk.injEq] at hp
  exact ⟨p, hr, hp.1, hp.2.1, List.mem_of_head? hp.2.2⟩

end Process

end GameServer.Players
