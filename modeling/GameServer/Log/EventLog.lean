import GameServer.Lib.Entries
import GameServer.Log
import Mathlib.Data.Int.Order.Basic
/-!
# The log of all threads

Unless a call is overtaken by `maxLogSize` later ones, the array holds the last
records (`holds_of_unhurried`). `EventLogDumpOut` computes the same index for every
row, so what it shows is the newest record, as often as there are rows.
-/

namespace GameServer.Log

open Lib

variable {frequency start : Int} {s s' : State} {a : Action} {as : List Action} {c c' : Call} {e e' : LogEvent} {k : Nat}

/-- No call is still storing when its slot is given to another one. -/
def Unhurried (s : State) : Action → Prop
  | .increment .. => ∀ c ∈ s.calls.take (s.calls.length + 1 - maxLogSize), c.next = .done
  | .store .. => True

instance (s : State) : ∀ a, Decidable (Unhurried s a)
  | .increment .. => inferInstanceAs (Decidable (∀ c ∈ _, _))
  | .store .. => isTrue trivial

/-! ## Indices -/

theorem int64_succ (n : Nat) : int64 (int64 n + 1) = int64 (n + 1 : Nat) := by
  unfold int64
  rw [Int.bmod_add_bmod]
  rfl

theorem int64_pred (n : Nat) : int64 (int64 (n + 1 : Nat) - 1) = int64 n := by
  unfold int64
  rw [Int.bmod_sub_bmod]
  congr 1
  omega

theorem int64_of_lt {n : Nat} (h : n < 2 ^ 63) : int64 n = n := by
  apply Int.bmod_eq_of_le <;> omega

/-- A slot in the array is the one the call's number leads to. -/
theorem slot_eq {n : Nat} (h : 0 ≤ (int64 n).tmod maxLogSize) : ((int64 n).tmod maxLogSize).toNat = n % maxLogSize := by
  have hmod : int64 n % maxLogSize = (n % maxLogSize : Nat) := by
    unfold int64 maxLogSize
    rw [Int.bmod_def]
    split <;> omega
  rcases Int.le_total 0 (int64 n) with h0 | h0
  · rw [Int.tmod_eq_emod_of_nonneg h0, hmod, Int.toNat_natCast]
  · have hneg : (int64 n).tmod maxLogSize = -((-int64 n) % maxLogSize) := by
      rw [← Int.tmod_eq_emod_of_nonneg (Int.neg_nonneg.2 h0), Int.neg_tmod, Int.neg_neg]
    unfold maxLogSize at *
    omega

/-! ## Steps -/

/-- What the call has stored so far is in its slot. -/
def Call.Stored (frequency start : Int) (c : Call) (e : LogEvent) : Prop :=
  match c.next with
  | .message => True
  | .additionalInfo => e.mMessage = some c.msg
  | .threadId => e.mMessage = some c.msg ∧ e.mAdditionalInfo = c.info
  | .timestamp => e.mMessage = some c.msg ∧ e.mAdditionalInfo = c.info ∧ e.mThreadId = int32 c.threadId
  | .done => e = c.record frequency start

theorem Call.store_index {q : Int} (hs : c.store frequency start e q = some (e', c')) :
    c'.index = c.index ∧ c.next ≠ .done := by
  unfold Call.store at hs
  split at hs
  case h_5 => cases hs
  all_goals
    simp only [Option.some.injEq, Prod.mk.injEq] at hs
    obtain ⟨-, rfl⟩ := hs
    simp [*]

theorem Call.Stored.store {q : Int} (h : c.Stored frequency start e) (hs : c.store frequency start e q = some (e', c')) :
    c'.Stored frequency start e' := by
  unfold Call.store at hs
  unfold Call.Stored at h
  split at hs
  case h_5 => cases hs
  all_goals
    next hn =>
      simp only [Option.some.injEq, Prod.mk.injEq] at hs
      obtain ⟨rfl, rfl⟩ := hs
      simp only [hn] at h
      simp only [Call.Stored, Call.record, h, and_self]

theorem store_ok {q : Int} (hs : s.step frequency start (.store k q) = some s') : ∃ c e' c', s.calls[k]? = some c ∧
    0 ≤ c.index ∧ c.store frequency start (s.gLogEvents c.index.toNat) q = some (e', c') ∧
    s' = { s with gLogEvents := Function.update s.gLogEvents c.index.toNat e', calls := s.calls.set k c' } := by
  obtain ⟨c, hc, hs⟩ := Option.bind_eq_some_iff.1 hs
  split at hs
  · cases hs
  · obtain ⟨⟨e', c'⟩, hst, hs⟩ := Option.bind_eq_some_iff.1 hs
    cases hs
    exact ⟨c, e', c', hc, by omega, hst, rfl⟩

theorem increment_ok {threadId : Nat} {msg : String} {info : Int}
    (hs : s.step frequency start (.increment threadId msg info) = some s') :
    s' = { s with
      gCurrentLogIndex := int64 (s.gCurrentLogIndex + 1)
      calls := s.calls ++
        [⟨threadId, msg, info, (int64 (int64 (s.gCurrentLogIndex + 1) - 1)).tmod maxLogSize, .message, 0⟩] } := by
  simp only [State.step] at hs
  split at hs
  · cases hs
    rfl
  · cases hs

/-- The counter counts the calls, and a call that has stored has a slot. -/
structure Numbered (s : State) : Prop where
  counter : s.gCurrentLogIndex = int64 s.calls.length
  index : ∀ (k : Nat) (c : Call), s.calls[k]? = some c → c.index = (int64 k).tmod maxLogSize
  slot : ∀ c ∈ s.calls, c.next ≠ .message → 0 ≤ c.index

theorem numbered_init : Numbered State.init :=
  ⟨(int64_of_lt (Nat.two_pow_pos 63)).symm, by simp [State.init], by simp [State.init]⟩

theorem numbered_step (hi : Numbered s) (hs : s.step frequency start a = some s') : Numbered s' := by
  cases a with
  | increment threadId msg info =>
    rw [increment_ok hs, hi.counter, int64_succ, int64_pred]
    refine ⟨by simp, fun k c hc => ?_, fun c hc hn => ?_⟩
    · rcases getElem?_concat hc with hc | ⟨rfl, rfl⟩
      · exact hi.index k c hc
      · dsimp only
    · rcases List.mem_append.1 hc with hc | hc
      · exact hi.slot c hc hn
      · cases List.mem_singleton.1 hc
        exact absurd rfl hn
  | store k q =>
    obtain ⟨c, e', c', hc, h0, hst, rfl⟩ := store_ok hs
    obtain ⟨hci, -⟩ := Call.store_index hst
    refine ⟨by simp [hi.counter], fun j d hd => ?_, fun d hd hn => ?_⟩
    · rw [List.getElem?_set] at hd
      split at hd
      next hjk =>
        subst hjk
        split at hd
        · cases hd
          rw [hci, hi.index _ _ hc]
        · cases hd
      · exact hi.index j d hd
    · rcases List.mem_or_eq_of_mem_set hd with hd | rfl
      · exact hi.slot d hd hn
      · rw [hci]
        exact h0

theorem numbered_run (hr : run (State.step frequency start) State.init as = some s) : Numbered s :=
  inv_of_run (fun _ _ _ hi hs => numbered_step hi hs) numbered_init hr

/-! ## The array holds the last records -/

/-- As long as a call's slot is its own, what the call has stored is in it. -/
structure Kept (frequency start : Int) (s : State) : Prop where
  numbered : Numbered s
  flight : ∀ (k : Nat) (c : Call), s.calls[k]? = some c → c.next ≠ .done → s.calls.length ≤ k + maxLogSize
  stored : ∀ (k : Nat) (c : Call), s.calls[k]? = some c → s.calls.length ≤ k + maxLogSize →
    c.Stored frequency start (s.gLogEvents (k % maxLogSize))

theorem kept_step (hi : Kept frequency start s) (hu : Unhurried s a) (hs : s.step frequency start a = some s') :
    Kept frequency start s' := by
  refine ⟨numbered_step hi.numbered hs, ?_, ?_⟩
  · cases a with
    | increment threadId msg info =>
      rw [increment_ok hs]
      intro k c hc hn
      rw [List.length_append, List.length_singleton]
      rcases getElem?_concat hc with hc | ⟨rfl, -⟩
      · obtain ⟨hk, rfl⟩ := List.getElem?_eq_some_iff.1 hc
        by_contra hlt
        refine hn (hu _ (List.mem_take_iff_getElem.2 ⟨k, ?_, rfl⟩))
        omega
      · unfold maxLogSize
        omega
    | store j q =>
      obtain ⟨c, e', c', hc, -, hst, rfl⟩ := store_ok hs
      intro k d hd hn
      rw [List.length_set]
      rw [List.getElem?_set] at hd
      split at hd
      next hjk =>
        subst hjk
        exact hi.flight j c hc (Call.store_index hst).2
      · exact hi.flight k d hd hn
  · cases a with
    | increment threadId msg info =>
      rw [increment_ok hs]
      intro k c hc hle
      rw [List.length_append, List.length_singleton] at hle
      rcases getElem?_concat hc with hc | ⟨rfl, rfl⟩
      · exact hi.stored k c hc (by omega)
      · trivial
    | store j q =>
      obtain ⟨c, e', c', hc, h0, hst, rfl⟩ := store_ok hs
      have hj : s.calls.length ≤ j + maxLogSize := hi.flight j c hc (Call.store_index hst).2
      have hslot : c.index.toNat = j % maxLogSize := by
        rw [hi.numbered.index j c hc] at h0 ⊢
        exact slot_eq h0
      intro k d hd hle
      rw [List.length_set] at hle
      rw [List.getElem?_set] at hd
      split at hd
      next hjk =>
        subst hjk
        split at hd
        · cases hd
          dsimp only
          rw [← hslot, Function.update_self]
          rw [hslot] at hst
          exact (hi.stored j c hc hj).store hst
        · cases hd
      next hjk =>
        have hjl := (List.getElem?_eq_some_iff.1 hc).1
        have hkl := (List.getElem?_eq_some_iff.1 hd).1
        have hne : k % maxLogSize ≠ c.index.toNat := by
          rw [hslot]
          intro he
          exact hjk (Cyclic.cell_inj hjl hkl hj hle he.symm)
        dsimp only
        rw [Function.update_of_ne hne]
        exact hi.stored k d hd hle

theorem kept_run (hm : Meets (State.step frequency start) Unhurried State.init as)
    (hr : run (State.step frequency start) State.init as = some s) : Kept frequency start s :=
  inv_of_meets (fun _ _ _ hi hu hs => kept_step hi hu hs)
    ⟨numbered_init, by simp [State.init], by simp [State.init]⟩ hm hr

/-- The records the calls are to leave, in the order of their numbers. -/
def State.records (frequency start : Int) (s : State) : List LogEvent := s.calls.map (Call.record frequency start)

/-- After calls that were not overtaken, the array is right. -/
theorem holds_of_unhurried (hm : Meets (State.step frequency start) Unhurried State.init as)
    (hr : run (State.step frequency start) State.init as = some s) (hd : ∀ c ∈ s.calls, c.next = .done) :
    Cyclic.Holds maxLogSize s.gLogEvents (s.records frequency start) := by
  intro k e hk hle
  unfold State.records at hk hle
  rw [List.getElem?_map] at hk
  rw [List.length_map] at hle
  obtain ⟨c, hc, rfl⟩ := Option.map_eq_some_iff.1 hk
  have hst := (kept_run hm hr).stored k c hc hle
  unfold Call.Stored at hst
  rw [hd c (List.mem_of_getElem? hc)] at hst
  exact hst

/-! ## The dump -/

/-- How many rows `EventLogDumpOut` has. -/
def State.count (s : State) : Nat := if s.gCurrentLogIndex < maxLogSize then uint64 s.gCurrentLogIndex else maxLogSize

theorem mapM_const {α β : Type} (x : Option β) (l : List α) :
    l.mapM (fun _ => x) = if l = [] then some [] else x.map (List.replicate l.length) := by
  induction l with
  | nil => rfl
  | cons a l ih =>
    rw [List.mapM_cons, ih]
    cases x with
    | none => rfl
    | some y => cases l <;> rfl

/-- The row that is written, whatever `i` is. -/
def State.newest (s : State) : Option LogEvent :=
  let index := uint64 ((int64 (s.gCurrentLogIndex - 1)).tmod maxLogSize)
  if index < maxLogSize then some (s.gLogEvents index) else none

theorem dump_const : s.eventLogDumpOut = if s.count = 0 then some [] else s.newest.map (List.replicate s.count) := by
  have h : s.eventLogDumpOut = (List.range' 1 s.count).mapM fun _ => s.newest := rfl
  rw [h, mapM_const, List.length_range']
  simp only [List.range'_eq_nil_iff]

theorem length_of_dump {rows : List LogEvent} (h : s.eventLogDumpOut = some rows) : rows.length = s.count := by
  rw [dump_const] at h
  split at h
  next hz =>
    cases h
    exact hz.symm
  · obtain ⟨e, -, rfl⟩ := Option.map_eq_some_iff.1 h
    exact List.length_replicate

theorem count_eq {n : Nat} (hc : s.gCurrentLogIndex = int64 n) (hn : n < 2 ^ 63) : s.count = min maxLogSize n := by
  unfold State.count
  rw [hc, int64_of_lt hn]
  unfold uint64
  split <;> omega

/-- Every row is the newest slot. -/
theorem dump_eq {n : Nat} (hc : s.gCurrentLogIndex = int64 n) (hn : n < 2 ^ 63) :
    s.eventLogDumpOut = some (List.replicate (min maxLogSize n) (s.gLogEvents ((n - 1) % maxLogSize))) := by
  rw [dump_const, count_eq hc hn]
  cases n with
  | zero => simp
  | succ n =>
    have hslot : uint64 ((int64 (s.gCurrentLogIndex - 1)).tmod maxLogSize) = n % maxLogSize := by
      rw [hc, int64_pred, int64_of_lt (by omega), Int.tmod_eq_emod_of_nonneg (by omega)]
      unfold uint64 maxLogSize
      omega
    have hpos : min maxLogSize (n + 1) ≠ 0 := by
      unfold maxLogSize
      omega
    have hnew : s.newest = some (s.gLogEvents (n % maxLogSize)) := by
      unfold State.newest
      rw [hslot]
      exact if_pos (Nat.mod_lt n (by decide))
    rw [if_neg hpos, hnew]
    rfl

/-- A call with a number just over 2^63 would store below the array. -/
theorem Numbered.length_lt (hi : Numbered s) (hd : ∀ c ∈ s.calls, c.next = .done) : s.calls.length < 2 ^ 64 := by
  by_contra h
  have hk : 2 ^ 63 + 1 < s.calls.length := by omega
  have hslot := hi.slot _ (List.getElem_mem hk) (by rw [hd _ (List.getElem_mem hk)]; exact Stage.noConfusion)
  rw [hi.index _ _ (List.getElem?_eq_getElem hk)] at hslot
  exact absurd hslot (by decide)

/-- The dump is right if all the rows it ought to have are like the newest slot. -/
theorem dump_iff (hi : Numbered s) (hd : ∀ c ∈ s.calls, c.next = .done) :
    s.eventLogDumpOut = some (Cyclic.latest maxLogSize (s.records frequency start)) ↔
      s.calls.length < 2 ^ 63 ∧ ∀ e ∈ Cyclic.latest maxLogSize (s.records frequency start),
        e = s.gLogEvents ((s.calls.length - 1) % maxLogSize) := by
  have hlen : (Cyclic.latest maxLogSize (s.records frequency start)).length = min maxLogSize s.calls.length := by
    rw [Cyclic.length_latest, State.records, List.length_map]
  constructor
  · intro h
    have hlt : s.calls.length < 2 ^ 63 := by
      by_contra hge
      have hcount := length_of_dump h
      have hlt := hi.length_lt hd
      have hneg : int64 s.calls.length = s.calls.length - 2 ^ 64 := by
        unfold int64
        rw [Int.bmod_def]
        split <;> omega
      rw [hlen, State.count, hi.counter, hneg] at hcount
      unfold uint64 maxLogSize at hcount
      split at hcount <;> omega
    refine ⟨hlt, ?_⟩
    rw [dump_eq hi.counter hlt] at h
    intro e he
    rw [← Option.some.inj h] at he
    exact List.eq_of_mem_replicate he
  · rintro ⟨hlt, hall⟩
    rw [dump_eq hi.counter hlt, ← hlen, ← List.eq_replicate_of_mem hall]

/-- After any completed calls the dump is right only if the rows it ought to have
are all alike, as they are when there is one. -/
theorem eventLog_dump_iff (frequency start : Int) {as : List Action} {s : State}
    (hr : run (State.step frequency start) State.init as = some s) (hd : ∀ c ∈ s.calls, c.next = .done) :
    (s.eventLogDumpOut = some (Cyclic.latest maxLogSize (s.records frequency start)) ↔
      s.calls.length < 2 ^ 63 ∧ ∀ e ∈ Cyclic.latest maxLogSize (s.records frequency start),
        e = s.gLogEvents ((s.calls.length - 1) % maxLogSize)) ∧
    (Meets (State.step frequency start) Unhurried State.init as →
      (s.eventLogDumpOut = some (Cyclic.latest maxLogSize (s.records frequency start)) ↔
        s.calls.length < 2 ^ 63 ∧ ∀ e ∈ Cyclic.latest maxLogSize (s.records frequency start),
          ∀ e' ∈ Cyclic.latest maxLogSize (s.records frequency start), e = e')) := by
  refine ⟨dump_iff (numbered_run hr) hd, fun hm => ?_⟩
  rw [dump_iff (numbered_run hr) hd]
  refine and_congr_right fun _ => ?_
  have hholds := holds_of_unhurried hm hr hd
  constructor
  · intro h e he e' he'
    rw [h e he, h e' he']
  · intro h e he
    -- the newest record is in the newest slot, and is one of the rows
    have hlen : (s.records frequency start).length = s.calls.length := List.length_map ..
    have hmem : e ∈ s.records frequency start := List.mem_reverse.1 (List.mem_of_mem_take he)
    have hpos := List.length_pos_of_mem hmem
    have hlast : (s.records frequency start)[s.calls.length - 1]? =
        some ((s.records frequency start)[s.calls.length - 1]) := List.getElem?_eq_getElem (by omega)
    rw [hholds _ _ hlast (by unfold maxLogSize; omega)]
    refine h e he _ ?_
    unfold Cyclic.latest
    rw [List.mem_take_iff_getElem]
    refine ⟨0, ?_, ?_⟩
    · unfold maxLogSize
      simp only [List.length_reverse]
      omega
    · rw [List.getElem_reverse]
      congr 1
      omega

/-- Two calls of one thread. -/
def twoCalls : List Action :=
  [.increment 1 "login" 10, .store 0 0, .store 0 0, .store 0 0, .store 0 5,
    .increment 1 "logout" 20, .store 1 0, .store 1 0, .store 1 0, .store 1 8]

theorem dump_twoCalls : ∃ s, run (State.step 1000000 0) State.init twoCalls = some s ∧ (∀ c ∈ s.calls, c.next = .done) ∧
    s.records 1000000 0 = [⟨1, 10, some "login", 5⟩, ⟨1, 20, some "logout", 8⟩] ∧
    s.eventLogDumpOut = some [⟨1, 20, some "logout", 8⟩, ⟨1, 20, some "logout", 8⟩] ∧
    s.eventLogDumpOut ≠ some (Cyclic.latest maxLogSize (s.records 1000000 0)) := by
  have hmap : (run (State.step 1000000 0) State.init twoCalls).map (fun s => (s.calls.map Call.next,
      s.records 1000000 0, s.eventLogDumpOut)) = some ([.done, .done],
      [⟨1, 10, some "login", 5⟩, ⟨1, 20, some "logout", 8⟩],
      some [⟨1, 20, some "logout", 8⟩, ⟨1, 20, some "logout", 8⟩]) := by decide +kernel
  obtain ⟨s, hr, hs⟩ := Option.map_eq_some_iff.1 hmap
  simp only [Prod.mk.injEq] at hs
  obtain ⟨hd, hrec, hdump⟩ := hs
  refine ⟨s, hr, fun c hc => ?_, hrec, hdump, ?_⟩
  · have := List.mem_map_of_mem (f := Call.next) hc
    rw [hd] at this
    simpa using this
  · rw [hdump, hrec]
    decide

theorem eventLog_dump_iff_twoCalls : ∃ s, run (State.step 1000000 0) State.init twoCalls = some s ∧
    (s.eventLogDumpOut = some (Cyclic.latest maxLogSize (s.records 1000000 0)) ↔
      s.calls.length < 2 ^ 63 ∧ ∀ e ∈ Cyclic.latest maxLogSize (s.records 1000000 0),
        ∀ e' ∈ Cyclic.latest maxLogSize (s.records 1000000 0), e = e') := by
  have hmap : (run (State.step 1000000 0) State.init twoCalls).map (fun s => s.calls.all fun c => c.next = .done) = some true := by
    decide +kernel
  have hm : Meets (State.step 1000000 0) Unhurried State.init twoCalls := by decide +kernel
  obtain ⟨s, hr, hd⟩ := Option.map_eq_some_iff.1 hmap
  exact ⟨s, hr, (eventLog_dump_iff 1000000 0 hr fun c hc => by simpa using List.all_eq_true.1 hd c hc).2 hm⟩

end GameServer.Log
