import GameServer.Buffs
import GameServer.Lib.Tally
import Mathlib.Algebra.Order.Ring.Int
import Mathlib.Data.List.Nodup
import Mathlib.Tactic.Ring
/-!
# How long a buff lasts

Each player's tick dispatches a `CheckBuffTimeout`, and each of these takes a
heartbeat off every buff of every player. So with `k` players online a buff runs
out `k` times as fast as by its own player's clock (`left_iff`).
-/

namespace GameServer.Buffs

open Lib

namespace Player

variable {p : Player} {id j t : Int}

theorem find?_decayTickBuff : p.decayTickBuff.mBuffList.find? id = (p.mBuffList.find? id).bind p.decayed :=
  SortedMap.find?_filterMap p.decayed

theorem mem_expires : id ∈ p.expires ↔ ∃ t, p.mBuffList.find? id = some t ∧ t - p.mHeartBeat ≤ 0 := by
  have hd (t : Int) : (p.decayed t).isNone = true ↔ t - p.mHeartBeat ≤ 0 := by
    unfold decayed
    dsimp only
    split <;> simp_all
  simp only [expires, List.mem_map, List.mem_filter, hd, SortedMap.find?_eq_some]
  constructor
  · rintro ⟨e, ⟨he, ht⟩, rfl⟩
    exact ⟨e.2, he, ht⟩
  · rintro ⟨t, he, ht⟩
    exact ⟨(id, t), ⟨he, ht⟩, rfl⟩

end Player

namespace World

variable {w w' : World} {h d : Int} {i q : Nat} {id : Int} {l : List Nat} {a : Action}

/-! ## One check -/

theorem modify_player (f : Player → Player) :
    (w.modify i f).player q = if q = i then f (w.player i) else w.player q := Function.update_apply ..

/-- A check goes through the list of each player once. -/
theorem player_foldl_decayTickBuff (hl : l.Nodup) :
    (l.foldl decayTickBuff w).player q = if q ∈ l then (w.player q).decayTickBuff else w.player q := by
  induction l generalizing w with
  | nil => simp
  | cons i l ih =>
    obtain ⟨hi, hl⟩ := List.nodup_cons.1 hl
    rw [List.foldl_cons, ih hl]
    have hp : (w.decayTickBuff i).player q = if q = i then (w.player i).decayTickBuff else w.player q := modify_player _
    rw [hp]
    by_cases hq : q = i
    · subst hq
      simp [hi]
    · simp [hq]

theorem expired_foldl_decayTickBuff (hl : l.Nodup) :
    (q, id) ∈ (l.foldl decayTickBuff w).expired ↔ (q, id) ∈ w.expired ∨ (q ∈ l ∧ id ∈ (w.player q).expires) := by
  induction l generalizing w with
  | nil => simp
  | cons i l ih =>
    obtain ⟨hi, hl⟩ := List.nodup_cons.1 hl
    have hp : (w.decayTickBuff i).player q = if q = i then (w.player i).decayTickBuff else w.player q := modify_player _
    have he : (w.decayTickBuff i).expired = w.expired ++ (w.player i).expires.map fun id => (i, id) := rfl
    rw [List.foldl_cons, ih hl, hp, he, List.mem_append, List.mem_map]
    by_cases hq : q = i
    · subst hq
      simp [hi]
    · simp [hq, Ne.symm hq]

/-! ## What stays the same -/

/-- The same players are online. -/
structure Alike (w w' : World) : Prop where
  map : w'.mPlayerMap = w.mPlayerMap
  alive : ∀ q, (w'.player q).mIsAlive = (w.player q).mIsAlive
  heartBeat : ∀ q, (w'.player q).mHeartBeat = (w.player q).mHeartBeat

theorem Alike.current (ha : Alike w w') : w'.getCurrentPlayers = w.getCurrentPlayers :=
  congrArg SortedMap.values ha.map

theorem Online.of_alike (ho : w.Online h) (ha : Alike w w') : w'.Online h := by
  refine ⟨ha.current ▸ ho.nodup, fun i => ?_, fun i hi => ?_⟩
  · rw [ha.alive, ha.current]
    exact ho.alive i
  · rw [ha.heartBeat]
    exact ho.heartBeat i (ha.current ▸ hi)

/-- What one call keeps, the loop over the players keeps. -/
theorem foldl_keeps {α : Type*} (g : World → α) {f : World → Nat → World} (hf : ∀ w i, g (f w i) = g w) :
    g (l.foldl f w) = g w := by
  induction l generalizing w with
  | nil => rfl
  | cons i l ih => rw [List.foldl_cons, ih, hf]

theorem alike_modify {f : Player → Player} (ha : ∀ p, (f p).mIsAlive = p.mIsAlive)
    (hh : ∀ p, (f p).mHeartBeat = p.mHeartBeat) : Alike w (w.modify i f) := by
  refine ⟨rfl, fun q => ?_, fun q => ?_⟩ <;> rw [modify_player]
  · split
    next hq => rw [ha, hq]
    · rfl
  · split
    next hq => rw [hh, hq]
    · rfl

theorem alike_foldl {f : World → Nat → World} (hf : ∀ w i, Alike w (f w i)) : Alike w (l.foldl f w) :=
  ⟨foldl_keeps mPlayerMap fun w i => (hf w i).map,
    fun q => foldl_keeps (fun w => (w.player q).mIsAlive) fun w i => (hf w i).alive q,
    fun q => foldl_keeps (fun w => (w.player q).mHeartBeat) fun w i => (hf w i).heartBeat q⟩

/-- The loop runs over no players where there are none. -/
theorem doBuffToAllPlayers_eq (w : World) (fromPlayerId buffId duration : Int) :
    w.doBuffToAllPlayers fromPlayerId buffId duration = w.getCurrentPlayers.foldl (addBuff fromPlayerId buffId duration) w := by
  unfold doBuffToAllPlayers
  split
  · rfl
  next hn =>
    rw [List.length_eq_zero_iff.1 (Nat.eq_zero_of_not_pos hn)]
    rfl

theorem checkBuffTimeout_eq (w : World) :
    w.checkBuffTimeout = w.getCurrentPlayers.foldl decayTickBuff { w with checks := w.checks + 1 } := by
  unfold checkBuffTimeout
  dsimp only
  split
  · rfl
  next hn =>
    have hnil : w.getCurrentPlayers = [] := List.length_eq_zero_iff.1 (Nat.eq_zero_of_not_pos hn)
    rw [hnil]
    rfl

/-! ## One step -/

/-- A tick dispatches one check, if the player is alive, and touches no buff. -/
theorem onTick_eq (w : World) (i : Nat) (event : Option Nat) :
    (w.onTick i event).player = w.player ∧ (w.onTick i event).mPlayerMap = w.mPlayerMap ∧
    (w.onTick i event).expired = w.expired ∧ (w.onTick i event).checks = w.checks ∧
    (w.onTick i event).pending = w.pending + if (w.player i).mIsAlive then 1 else 0 := by
  unfold onTick
  dsimp only
  cases (w.player i).mIsAlive with
  | false => exact ⟨rfl, rfl, rfl, rfl, rfl⟩
  | true =>
    cases event <;> simp only [if_true] <;> split <;> simp [dispatch, pending]

/-- What a step comes to. -/
inductive Effect (w : World) : Action → World → Prop
  | tick (i : Nat) (event : Option Nat) (w' : World) (hp : w'.player = w.player) (hm : w'.mPlayerMap = w.mPlayerMap)
      (he : w'.expired = w.expired) (hc : w'.checks = w.checks)
      (hn : w'.pending = w.pending + if (w.player i).mIsAlive then 1 else 0) : Effect w (.tick i event) w'
  | buff (j : Nat) (fromPlayerId buffId duration : Int) (tasks : List Task)
      (hn : tasks.countP (· = .checkBuffTimeout) = w.pending) :
      Effect w (.execute j) (w.getCurrentPlayers.foldl (addBuff fromPlayerId buffId duration) { w with tasks })
  | check (j : Nat) (tasks : List Task) (hn : tasks.countP (· = .checkBuffTimeout) + 1 = w.pending) :
      Effect w (.execute j) (w.getCurrentPlayers.foldl decayTickBuff { w with tasks, checks := w.checks + 1 })

theorem effect_of_step (hs : w.step a = some w') : Effect w a w' := by
  cases a with
  | tick i event =>
    simp only [step] at hs
    split at hs <;> cases hs
    obtain ⟨hp, hm, he, hc, hn⟩ := onTick_eq { w with timers := w.timers.erase i } i event
    exact .tick i event _ hp hm he hc hn
  | execute j =>
    obtain ⟨task, hj, rfl⟩ := Option.map_eq_some_iff.1 hs
    have hn := countP_eraseIdx hj (· = .checkBuffTimeout)
    cases task with
    | doBuffToAllPlayers fromPlayerId buffId duration =>
      rw [runTask, doBuffToAllPlayers_eq]
      exact .buff j fromPlayerId buffId duration _ hn.symm
    | checkBuffTimeout =>
      rw [runTask, checkBuffTimeout_eq]
      exact .check j _ hn.symm

theorem alike_step (hs : w.step a = some w') : Alike w w' := by
  cases effect_of_step hs with
  | tick i event _ hp hm => exact ⟨hm, fun q => by rw [hp], fun q => by rw [hp]⟩
  | buff j fromPlayerId buffId duration tasks hn =>
    have := alike_foldl (w := { w with tasks }) (l := w.getCurrentPlayers)
      fun w i => alike_modify (w := w) (i := i) (f := fun p => p.addBuff fromPlayerId buffId duration)
        (fun _ => rfl) fun _ => rfl
    exact ⟨this.map, this.alive, this.heartBeat⟩
  | check j tasks hn =>
    have := alike_foldl (w := { w with tasks, checks := w.checks + 1 }) (l := w.getCurrentPlayers) (f := decayTickBuff)
      fun w i => by
        have := alike_modify (w := w) (i := i) (f := Player.decayTickBuff) (fun _ => rfl) fun _ => rfl
        exact ⟨this.map, this.alive, this.heartBeat⟩
    exact ⟨this.map, this.alive, this.heartBeat⟩

/-- The checks an action dispatches. -/
def dispatches (w : World) : Action → Nat
  | .tick i _ => if (w.player i).mIsAlive then 1 else 0
  | .execute _ => 0

/-- A check that is dispatched is pending until it is run, once. -/
theorem checks_step (hs : w.step a = some w') : w'.checks + w'.pending = w.checks + w.pending + w.dispatches a := by
  cases effect_of_step hs with
  | tick i event _ hp hm he hc hn =>
    rw [hc, hn, dispatches, Nat.add_assoc]
  | buff j fromPlayerId buffId duration tasks hn =>
    rw [foldl_keeps (f := addBuff fromPlayerId buffId duration) checks fun _ _ => rfl,
      foldl_keeps (f := addBuff fromPlayerId buffId duration) pending fun _ _ => rfl, ← hn]
    rfl
  | check j tasks hn =>
    rw [foldl_keeps (f := decayTickBuff) checks fun _ _ => rfl, foldl_keeps (f := decayTickBuff) pending fun _ _ => rfl,
      ← hn, dispatches, pending]
    dsimp only
    omega

/-! ## One buff -/

/-- Another buff with the same id does not touch one that is there. -/
theorem find?_foldl_addBuff {t fromPlayerId buffId duration : Int} (hf : (w.player q).mBuffList.find? id = some t) :
    ((l.foldl (addBuff fromPlayerId buffId duration) w).player q).mBuffList.find? id = some t := by
  induction l generalizing w with
  | nil => exact hf
  | cons i l ih =>
    apply ih
    rw [addBuff, modify_player]
    split
    next hq =>
      subst hq
      rw [Player.addBuff, SortedMap.find?_insert, if_neg, hf]
      rintro ⟨rfl, hn⟩
      rw [hf] at hn
      cases hn
    · exact hf

theorem left_pos {t : Int} (ht : 0 < t) :
    w.Left q id t ↔ (w.player q).mBuffList.find? id = some t ∧ (q, id) ∉ w.expired := by
  rw [Left, if_pos ht]

theorem left_nonpos {t : Int} (ht : t ≤ 0) : w.Left q id t ↔ (q, id) ∈ w.expired := by
  rw [Left, if_neg (Int.not_lt.2 ht)]

/-- The time left goes down with the checks, whoever dispatched them. -/
theorem left_step (ho : w.Online h) (hh : 0 < h) (hp : q ∈ w.getCurrentPlayers) (hs : w.step a = some w')
    (hl : w.Left q id (d - w.checks * h)) : w'.Left q id (d - w'.checks * h) := by
  cases effect_of_step hs with
  | tick i event _ hp hm he hc hn => rwa [Left, hp, he, hc]
  | buff j fromPlayerId buffId duration tasks hn =>
    have hc := foldl_keeps (w := { w with tasks }) (l := w.getCurrentPlayers)
      (f := addBuff fromPlayerId buffId duration) checks fun _ _ => rfl
    have he := foldl_keeps (w := { w with tasks }) (l := w.getCurrentPlayers)
      (f := addBuff fromPlayerId buffId duration) expired fun _ _ => rfl
    rw [hc]
    rcases lt_or_ge 0 (d - w.checks * h) with hpos | hneg
    · obtain ⟨hf, hnot⟩ := (left_pos hpos).1 hl
      refine (left_pos hpos).2 ⟨find?_foldl_addBuff hf, ?_⟩
      rwa [he]
    · rw [left_nonpos hneg, he]
      exact (left_nonpos hneg).1 hl
  | check j tasks hn =>
    have hc := foldl_keeps (w := { w with tasks, checks := w.checks + 1 }) (l := w.getCurrentPlayers)
      (f := decayTickBuff) checks fun _ _ => rfl
    have hnext : d - ((w.checks + 1 : Nat) : Int) * h = d - w.checks * h - h := by
      push_cast
      ring
    have hbeat := ho.heartBeat q hp
    have hplayer := player_foldl_decayTickBuff (w := { w with tasks, checks := w.checks + 1 }) (q := q) ho.nodup
    have hexpired : (q, id) ∈ (w.getCurrentPlayers.foldl decayTickBuff { w with tasks, checks := w.checks + 1 }).expired ↔ _ :=
      expired_foldl_decayTickBuff ho.nodup
    rw [if_pos hp] at hplayer
    rw [Player.mem_expires, hbeat] at hexpired
    rw [hc, hnext]
    rcases lt_or_ge 0 (d - w.checks * h) with hpos | hneg
    · obtain ⟨hf, hnot⟩ := (left_pos hpos).1 hl
      rcases lt_or_ge 0 (d - w.checks * h - h) with hpos' | hneg'
      · refine (left_pos hpos').2 ⟨?_, fun hm => ?_⟩
        · rw [hplayer, Player.find?_decayTickBuff, hf, Option.bind_some, Player.decayed, hbeat]
          exact if_neg (Int.not_le.2 hpos')
        · rcases hexpired.1 hm with hm | ⟨-, t, ht, hle⟩
          · exact hnot hm
          · rw [hf] at ht
            cases ht
            omega
      · exact (left_nonpos hneg').2 (hexpired.2 (.inr ⟨hp, _, hf, hneg'⟩))
    · exact (left_nonpos (by omega)).2 (hexpired.2 (.inl ((left_nonpos hneg).1 hl)))

/-! ## A run -/

/-- The ticks of some players, if each has `r`. -/
theorem countP_ticks {as : List Action} {r : Nat} (hl : l.Nodup) (hr : ∀ i ∈ l, as.countP (Action.ticks i) = r) :
    (as.countP fun a => l.any fun i => a.ticks i) = l.length * r := by
  induction l with
  | nil => simp
  | cons i l ih =>
    obtain ⟨hi, hl⟩ := List.nodup_cons.1 hl
    have hone (a : Action) : ((i :: l).any fun i => a.ticks i).toNat = (a.ticks i).toNat + (l.any fun i => a.ticks i).toNat := by
      cases a with
      | tick k event =>
        by_cases hk : k = i
        · subst hk
          have hne : ∀ i ∈ l, ¬ k = i := fun i hm he => hi (he ▸ hm)
          simpa [Action.ticks] using hne
        · simp [Action.ticks, hk]
      | execute j => simp [Action.ticks]
    rw [countP_add hone, ih hl fun k hk => hr k (List.mem_cons_of_mem i hk), hr i List.mem_cons_self, List.length_cons]
    ring

theorem run_checks (ho : w.Online h) {as : List Action} (hr : run step w as = some w') :
    w'.checks + w'.pending = w.checks + w.pending + as.countP fun a => w.getCurrentPlayers.any fun i => a.ticks i := by
  induction as generalizing w with
  | nil =>
    cases hr
    rfl
  | cons a as ih =>
    obtain ⟨w₁, hs, hr⟩ := run_cons.1 hr
    have halike := alike_step hs
    have hstep := checks_step hs
    have hdisp : w.dispatches a = if w.getCurrentPlayers.any fun i => a.ticks i then 1 else 0 := by
      cases a with
      | tick i event =>
        have halive := ho.alive i
        simp [dispatches, Action.ticks, halive]
      | execute j => simp [dispatches, Action.ticks]
    rw [ih (ho.of_alike halike) hr, halike.current, List.countP_cons, hstep, hdisp]
    omega

theorem online_give (ho : w.Online h) (fromPlayerId : Int) : (w.give q fromPlayerId id d).Online h := by
  have ha := alike_modify (w := w) (i := q) (f := fun p => p.addBuff fromPlayerId id d) (fun _ => rfl) fun _ => rfl
  exact ho.of_alike ⟨ha.map, ha.alive, ha.heartBeat⟩

theorem left_give (hd : 0 < d) (hf : (w.player q).mBuffList.find? id = none) (fromPlayerId : Int) :
    (w.give q fromPlayerId id d).Left q id d := by
  refine (left_pos hd).2 ⟨?_, List.not_mem_nil⟩
  change ((w.addBuff fromPlayerId id d q).player q).mBuffList.find? id = some d
  rw [addBuff, modify_player, if_pos rfl, Player.addBuff, SortedMap.find?_insert, if_pos ⟨rfl, hf⟩]

/-- The time left is that after `n` heartbeats, and after `r` of them only where
these are as many or the buff has run out. -/
theorem left_iff_of_left {n r : Nat} (hh : 0 < h) (hrn : r ≤ n) (hl : w.Left q id (d - n * h)) :
    w.Left q id (d - r * h) ↔ d ≤ r * h ∨ n = r := by
  have hmul : (r : Int) * h ≤ n * h := mul_le_mul_of_nonneg_right (by exact_mod_cast hrn) (le_of_lt hh)
  rcases lt_or_ge 0 (d - r * h) with hpos | hneg
  · constructor
    · intro hr
      obtain ⟨hf, hnot⟩ := (left_pos hpos).1 hr
      rcases lt_or_ge 0 (d - n * h) with hpos' | hneg'
      · have hf' := ((left_pos hpos').1 hl).1
        rw [hf, Option.some.injEq] at hf'
        have heq : (n : Int) = r := mul_right_cancel₀ (ne_of_gt hh) (by omega)
        exact .inr (by exact_mod_cast heq)
      · exact absurd ((left_nonpos hneg').1 hl) hnot
    · rintro (hle | rfl)
      · omega
      · exact hl
  · have hneg' : d - n * h ≤ 0 := by omega
    rw [left_nonpos hneg]
    exact iff_of_true ((left_nonpos hneg').1 hl) (.inl (by omega))

/-- What is left of a buff after `r` ticks of each player is its duration less
`r` heartbeats if and only if it has run out by then, or no check was pending
when it was given and there is one player or no tick. -/
theorem left_iff {w w' : World} {h d : Int} {q : Nat} {fromPlayerId id : Int} {r : Nat} {as : List Action}
    (ho : w.Online h) (hh : 0 < h) (hd : 0 < d) (hq : q ∈ w.getCurrentPlayers)
    (hf : (w.player q).mBuffList.find? id = none) (hr : run step (w.give q fromPlayerId id d) as = some w')
    (ht : ∀ i ∈ w.getCurrentPlayers, as.countP (Action.ticks i) = r) (hp : w'.pending = 0) :
    w'.Left q id (d - r * h) ↔ d ≤ r * h ∨ (w.pending = 0 ∧ (w.getCurrentPlayers.length = 1 ∨ r = 0)) := by
  have hog : (w.give q fromPlayerId id d).Online h := online_give ho fromPlayerId
  have hstart : (w.give q fromPlayerId id d).Left q id (d - ((w.give q fromPlayerId id d).checks : Nat) * h) := by
    simpa [give] using left_give hd hf fromPlayerId
  obtain ⟨-, -, hl⟩ := inv_of_run (I := fun v => v.Online h ∧ q ∈ v.getCurrentPlayers ∧ v.Left q id (d - v.checks * h))
    (fun v a v' hv hs => ⟨hv.1.of_alike (alike_step hs), (alike_step hs).current.symm ▸ hv.2.1,
      left_step hv.1 hh hv.2.1 hs hv.2.2⟩) ⟨hog, hq, hstart⟩ hr
  have hn : w'.checks = w.pending + w.getCurrentPlayers.length * r := by
    have hc := run_checks hog hr
    have hticks : (as.countP fun a => (w.give q fromPlayerId id d).getCurrentPlayers.any fun i => a.ticks i) =
        w.getCurrentPlayers.length * r := countP_ticks ho.nodup ht
    have h0 : (w.give q fromPlayerId id d).checks + (w.give q fromPlayerId id d).pending = w.pending := Nat.zero_add _
    omega
  have hk : 0 < w.getCurrentPlayers.length := List.length_pos_of_mem hq
  have hge : r ≤ w.getCurrentPlayers.length * r := Nat.le_mul_of_pos_left r hk
  rw [left_iff_of_left hh (by omega) hl]
  have hcount : w'.checks = r ↔ w.pending = 0 ∧ (w.getCurrentPlayers.length = 1 ∨ r = 0) := by
    constructor
    · intro he
      refine ⟨by omega, ?_⟩
      rcases Nat.eq_zero_or_pos r with h0 | hpos
      · exact .inr h0
      · exact .inl (Nat.eq_of_mul_eq_mul_right hpos (by omega))
    · rintro ⟨h0, h1 | h0'⟩
      · rw [hn, h0, h1]
        omega
      · rw [hn, h0, h0']
        omega
  rw [hcount]

/-- Two players with a heartbeat of a second, and no task. -/
def two : World where
  player i := if i < 2 then ⟨i + 1, 1000, true, .empty⟩ else .new
  mPlayerMap := ⟨[(1, 0), (2, 1)], by decide⟩
  tasks := []
  timers := [0, 1]
  expired := []
  checks := 0

/-- Each of them ticks once, and their checks run. -/
def oneTickEach : List Action := [.tick 0 none, .tick 1 none, .execute 0, .execute 0]

theorem online_two : two.Online 1000 where
  nodup := by decide
  alive i := by
    have hcur : two.getCurrentPlayers = [0, 1] := rfl
    rw [hcur]
    by_cases hi : i < 2
    · have hp : two.player i = ⟨i + 1, 1000, true, .empty⟩ := if_pos hi
      have : i = 0 ∨ i = 1 := by omega
      simpa [hp] using this
    · have hp : two.player i = .new := if_neg hi
      have : ¬ (i = 0 ∨ i = 1) := by omega
      simpa [hp, Player.new, Player.playerReset] using this
  heartBeat := by decide

theorem run_two : ∃ w, run step (two.give 0 2 200 4000) oneTickEach = some w ∧ w.pending = 0 ∧
    (w.player 0).mBuffList.find? 200 = some 2000 := by
  have hmap : (run step (two.give 0 2 200 4000) oneTickEach).map
      (fun w => (w.pending, (w.player 0).mBuffList.find? 200)) = some (0, some 2000) := by
    decide +kernel
  obtain ⟨w, hr, hw⟩ := Option.map_eq_some_iff.1 hmap
  simp only [Prod.mk.injEq] at hw
  exact ⟨w, hr, hw.1, hw.2⟩

theorem left_iff_two : ∃ w, run step (two.give 0 2 200 4000) oneTickEach = some w ∧
    (w.Left 0 200 (4000 - (1 : Nat) * 1000) ↔ 4000 ≤ ((1 : Nat) : Int) * 1000 ∨
      (two.pending = 0 ∧ (two.getCurrentPlayers.length = 1 ∨ 1 = 0))) := by
  obtain ⟨w, hr, hp, -⟩ := run_two
  exact ⟨w, hr, left_iff online_two (by decide) (by decide) (by decide) rfl hr (by decide) hp⟩

/-- Of 4000 ms, 2000 are left after one tick of 1000 ms of each of two players. -/
theorem not_left_two : ¬ ∀ (w w' : World) (h d : Int) (q : Nat) (fromPlayerId id : Int) (r : Nat) (as : List Action),
    w.Online h → 0 < h → 0 < d → q ∈ w.getCurrentPlayers → (w.player q).mBuffList.find? id = none →
    run step (w.give q fromPlayerId id d) as = some w' →
    (∀ i ∈ w.getCurrentPlayers, as.countP (Action.ticks i) = r) → w'.pending = 0 → w'.Left q id (d - r * h) := by
  intro hall
  obtain ⟨w, hr, hp, hf⟩ := run_two
  have hl := hall two w 1000 4000 0 2 200 1 oneTickEach online_two (by decide) (by decide) (by decide) rfl hr
    (by decide) hp
  rw [left_pos (by decide), hf] at hl
  exact absurd hl.1 (by decide)

end World

end GameServer.Buffs
