import Mathlib.Algebra.BigOperators.Group.List.Basic
import Mathlib.Algebra.GroupWithZero.Nat
import GameServer.FlushPath.Lemmas
/-!
# Committed data is not stranded

The session of a DummyClients connection: any thread appends to it, which puts
an entry in that thread's list, and flushes it while it stands there. A flush
may spend its entry on bytes another entry was made for; counting entries
against the regions with bytes still to be posted shows that it never spends one
too many.
-/

namespace GameServer

open Lib

namespace Flusher

inductive Action where
  | postSend (i : Nat) (connected : Bool) (data : List Byte)
  | sendRequest (i : Nat) (connected : Bool) (packetType : Int16) (payload : Payload)
  /-- Thread `i` flushes the session at the front of its list. -/
  | doSendJob (i : Nat) (connected accepted : Bool)
  /-- The `k`-th outstanding `WSASend` completes in full. -/
  | sendCompletion (k : Nat)
  | disconnectRequest

def step (s : Flusher) : Action → Option Flusher
  | .postSend i connected data =>
    if i < s.LSendRequestSessionList.length ∧ s.Saw connected then some (s.postSend i connected data).2 else none
  | .sendRequest i connected packetType payload =>
    if i < s.LSendRequestSessionList.length ∧ s.Saw connected then
      some (s.sendRequest i connected packetType payload).2
    else none
  | .doSendJob i connected accepted =>
    if 0 < s.LSendRequestSessionList.getD i 0 ∧ s.Saw connected then some (s.doSendJob i connected accepted) else none
  | .sendCompletion k =>
    s.inFlight[k]?.map fun c => { s with inFlight := s.inFlight.eraseIdx k }.sendCompletion c c.len
  | .disconnectRequest => some s.disconnectRequest

/-- The entries of the session in all threads' lists. -/
def entries (s : Flusher) : Nat := s.LSendRequestSessionList.sum

/-- The bytes of region A that are in an outstanding `WSASend`. -/
def handedOver (s : Flusher) : Nat := (s.inFlight.map (·.len)).sum

/-- The regions with bytes to be posted, for A and B of these sizes and a span
of `handed` bytes at the front of A. -/
def regions (handed a b : Nat) : Nat := (if handed < a then 1 else 0) + (if 0 < b then 1 else 0)

/-- The regions that hold bytes not handed to `WSASend`. -/
def unposted (s : Flusher) : Nat :=
  regions s.handedOver s.mSendBuffer.mARegionSize s.mSendBuffer.mBRegionSize

/-! ## Entries -/

variable {s s' : Flusher} {i : Nat} {connected accepted : Bool} {bytes : List Byte} {c : PostedSend}

theorem sum_modify {l : List Nat} (f : Nat → Nat) (hi : i < l.length) : (l.modify i f).sum + l[i] = l.sum + f l[i] := by
  induction l generalizing i with
  | nil => simp at hi
  | cons a l ih =>
    cases i with
    | zero =>
      simp only [List.modify_zero_cons, List.sum_cons, List.getElem_cons_zero]
      omega
    | succ i =>
      have := ih (Nat.lt_of_succ_lt_succ hi)
      simp only [List.modify_succ_cons, List.sum_cons, List.getElem_cons_succ]
      omega

theorem entries_pushBack (hi : i < s.LSendRequestSessionList.length) : (s.pushBack i).entries = s.entries + 1 := by
  have := sum_modify (· + 1) hi
  simp only [entries, pushBack]
  omega

theorem entries_popFront (hi : 0 < s.LSendRequestSessionList.getD i 0) : (s.popFront i).entries + 1 = s.entries := by
  have hlt : i < s.LSendRequestSessionList.length := by
    by_contra hge
    simp [List.getElem?_eq_none (Nat.le_of_not_lt hge)] at hi
  simp only [List.getD_eq_getElem?_getD, List.getElem?_eq_getElem hlt, Option.getD_some] at hi
  have := sum_modify (· - 1) hlt
  simp only [entries, popFront]
  omega

/-! ## The invariant -/

/-- While connected, every region with bytes to be posted has an entry. -/
structure Covered (s : Flusher) : Prop extends Inv s where
  capacity : s.mSendBuffer.mCapacity = clientBufSize
  posted : ∀ c ∈ s.inFlight, c.len < 2 ^ 32
  covered : s.mConnected = true → s.unposted ≤ s.entries

theorem covered_start (n : Nat) : (start clientBufSize n).Covered where
  toInv := inv_start (by decide)
  capacity := rfl
  posted := by simp [start]
  covered _ := Nat.zero_le _

/-- A call that stores bytes adds them to one region. -/
theorem unposted_append (i : Nat) (connected : Bool) (bytes : List Byte) :
    ((s.append i connected bytes bytes.length).1 = true ∧
      (s.append i connected bytes bytes.length).2.LSendRequestSessionList = (s.pushBack i).LSendRequestSessionList ∧
      (s.append i connected bytes bytes.length).2.unposted ≤ s.unposted + 1) ∨
    ((s.append i connected bytes bytes.length).2.LSendRequestSessionList = s.LSendRequestSessionList ∧
      (s.append i connected bytes bytes.length).2.unposted = s.unposted) := by
  have hA := (CircularBuffer.regionA_getFreeSpaceSize s.mSendBuffer).2.1
  have hB : s.mSendBuffer.getFreeSpaceSize.2.mBRegionSize = s.mSendBuffer.mBRegionSize := by
    unfold CircularBuffer.getFreeSpaceSize
    split
    · rfl
    · split <;> rfl
  rcases append_cases s i connected bytes with ⟨-, e⟩ | e | e <;> rw [e]
  · refine .inl ⟨rfl, rfl, ?_⟩
    generalize hb : (s.mSendBuffer.getFreeSpaceSize.2.write bytes).commit bytes.length = b
    have hone : b.mARegionSize = s.mSendBuffer.mARegionSize ∨ b.mBRegionSize = s.mSendBuffer.mBRegionSize := by
      subst hb
      unfold CircularBuffer.commit
      split
      · exact .inl hA
      · exact .inr hB
    change regions s.handedOver b.mARegionSize b.mBRegionSize ≤ s.unposted + 1
    unfold unposted regions
    rcases hone with hone | hone <;> rw [hone] <;> split <;> split <;> split <;> omega
  · exact .inr ⟨rfl, rfl⟩
  · refine .inr ⟨rfl, ?_⟩
    simp only [unposted, hA, hB]
    rfl

theorem connected_append (s : Flusher) (i : Nat) (connected : Bool) (bytes : List Byte) (len : Nat) :
    (s.append i connected bytes len).2.mConnected = s.mConnected ∧
      (s.append i connected bytes len).2.inFlight = s.inFlight := by
  unfold append
  split
  · exact ⟨rfl, rfl⟩
  · simp only
    split <;> exact ⟨rfl, rfl⟩

theorem capacity_append (h : s.mSendBuffer.Inv) :
    (s.append i connected bytes bytes.length).2.mSendBuffer.mCapacity = s.mSendBuffer.mCapacity := by
  rcases append_cases s i connected bytes with ⟨-, e⟩ | e | e <;> rw [e]
  · simp only [CircularBuffer.mCapacity_commit]
    exact CircularBuffer.mCapacity_getFreeSpaceSize h
  · exact CircularBuffer.mCapacity_getFreeSpaceSize h

theorem covered_append (h : s.Covered) (hi : i < s.LSendRequestSessionList.length) :
    (s.append i connected bytes bytes.length).2.Covered := by
  obtain ⟨hconn, hflight⟩ := connected_append s i connected bytes bytes.length
  refine ⟨inv_append h.toInv i connected bytes, (capacity_append h.buffer).trans h.capacity, by rw [hflight]; exact h.posted, ?_⟩
  intro hc
  have hold := h.covered (hconn ▸ hc)
  rcases unposted_append (s := s) i connected bytes with ⟨-, hl, hle⟩ | ⟨hl, heq⟩
  · have := entries_pushBack hi
    simp only [entries] at this hold ⊢
    rw [hl]
    omega
  · simp only [entries] at hold ⊢
    rw [hl, heq]
    exact hold

/-- A flush that spends its entry has posted A, or found nothing to post, or the
session is not connected. -/
theorem covered_doSendJob (h : s.Covered) (hi : 0 < s.LSendRequestSessionList.getD i 0) :
    (s.doSendJob i connected accepted).Covered := by
  have hcap := h.capacity
  have hc : clientBufSize = 65536 := rfl
  have hinside := h.buffer.inside
  have hB := h.buffer.bLe
  have hinv := inv_flushSend h.toInv connected accepted
  unfold doSendJob
  rcases flushSend_cases h.toInv connected accepted with e | ⟨h0, e⟩ | e | ⟨-, hpos, hnil, e⟩ <;> rw [e] at hinv ⊢
  · exact ⟨inv_popFront hinv, h.capacity, h.posted, nofun⟩
  · by_cases hnil : s.inFlight = []
    · -- an empty A means an empty B: there is nothing to have an entry for
      have hB0 := (h.buffer.aEmpty h0).2
      simp only [hnil, decide_true, if_true]
      refine ⟨inv_popFront h.toInv, h.capacity, h.posted, fun _ => ?_⟩
      simp [unposted, regions, popFront, h0, hB0]
    · simp only [hnil, decide_false, Bool.false_eq_true, if_false]
      exact h
  · exact h
  · simp only [if_true]
    have hmod : s.mSendBuffer.mARegionSize % 2 ^ 32 = s.mSendBuffer.mARegionSize := Nat.mod_eq_of_lt (by omega)
    refine ⟨inv_popFront hinv, h.capacity, fun c hc => ?_, fun hconn => ?_⟩
    · rw [List.mem_singleton.1 hc]
      exact Nat.mod_lt _ (by decide)
    · have hpop := entries_popFront (s := s) hi
      have hold := h.covered hconn
      simp only [unposted, handedOver, hnil, List.map_nil, List.sum_nil, regions, if_pos hpos] at hold
      simp only [entries, popFront] at hpop hold ⊢
      simp only [unposted, handedOver, List.map_cons, List.map_nil, List.sum_cons, List.sum_nil, hmod,
        Nat.add_zero, regions, lt_irrefl, if_false]
      omega

/-- A completion takes off A exactly what was handed over; B may become A. -/
theorem covered_sendCompletion (h : s.Covered) (hc : c ∈ s.inFlight) :
    (sendCompletion { s with inFlight := [] } c c.len).Covered := by
  obtain ⟨hinv, -⟩ := sendCompletion_spec h.toInv hc (Nat.le_refl _)
  obtain ⟨-, hpos, hlen, -⟩ := h.span c hc
  have hcap := h.buffer.cap
  have hin := h.buffer.inside
  have hlt : c.len < sizeMod := by omega
  have hone : s.inFlight = [c] := by
    obtain ⟨d, hd⟩ := List.length_eq_one_iff.1 (Nat.le_antisymm h.single (List.length_pos_of_mem hc))
    rw [hd] at hc ⊢
    rw [List.mem_singleton.1 hc]
  refine ⟨hinv, (CircularBuffer.mCapacity_remove h.buffer hlt).trans h.capacity, by simp [sendCompletion],
    fun hconn => ?_⟩
  have hold := h.covered hconn
  have hsame : (sendCompletion { s with inFlight := [] } c c.len).unposted = s.unposted := by
    simp only [unposted, handedOver, sendCompletion, hone, List.map_nil, List.map_cons, List.sum_nil, List.sum_cons,
      Nat.add_zero]
    rcases Nat.lt_or_ge c.len s.mSendBuffer.mARegionSize with hlt' | hge
    · rw [CircularBuffer.remove_inside h.buffer hlt']
      simp only [regions, hlt', if_true, if_pos (show 0 < s.mSendBuffer.mARegionSize - c.len by omega)]
    · obtain ⟨m, -, -, e⟩ := CircularBuffer.remove_beyond h.buffer hge hlt
      have hk : c.len - s.mSendBuffer.mARegionSize = 0 := by omega
      rw [e]
      simp only [regions, hk, Nat.sub_zero, Nat.add_zero, if_neg (Nat.not_lt.2 hge), lt_irrefl, if_false, Nat.zero_add]
  rw [hsame]
  exact hold

theorem covered_step {a : Action} (h : s.Covered) (hs : step s a = some s') : s'.Covered := by
  cases a with
  | postSend i connected data =>
    obtain ⟨hi, e⟩ := Option.ite_none_right_eq_some.1 hs
    exact Option.some.inj e ▸ covered_append h hi.1
  | sendRequest i connected packetType payload =>
    obtain ⟨hi, e⟩ := Option.ite_none_right_eq_some.1 hs
    rw [sendRequest_eq h.buffer h.capacity] at e
    exact Option.some.inj e ▸ covered_append h hi.1
  | doSendJob i connected accepted =>
    obtain ⟨hi, e⟩ := Option.ite_none_right_eq_some.1 hs
    exact Option.some.inj e ▸ covered_doSendJob h hi.1
  | sendCompletion k =>
    obtain ⟨c, hc, rfl⟩ := Option.map_eq_some_iff.1 hs
    have hk : k < s.inFlight.length := (List.getElem?_eq_some_iff.1 hc).1
    have hnil : s.inFlight.eraseIdx k = [] := by
      have hone := h.single
      exact List.eq_nil_of_length_eq_zero (by rw [List.length_eraseIdx, if_pos hk]; omega)
    rw [hnil]
    exact covered_sendCompletion h (List.mem_of_getElem? hc)
  | disconnectRequest =>
    cases hs
    exact ⟨⟨h.buffer, h.pending, h.single, h.span⟩, h.capacity, h.posted, nofun⟩

/-- While the session is connected, the threads' lists have at least as many
entries of it as there are regions with bytes not handed to `WSASend`; with no
entry and no send outstanding the send buffer is empty. -/
theorem not_stranded {n : Nat} {as : List Action} (hr : run step (start clientBufSize n) as = some s)
    (hc : s.mConnected = true) :
    s.unposted ≤ s.entries ∧
    ((∀ k ∈ s.LSendRequestSessionList, k = 0) → s.inFlight = [] → s.mSendBuffer.contents = []) := by
  have h := inv_of_run (fun _ _ _ => covered_step) (covered_start n) hr
  refine ⟨h.covered hc, fun hzero hnil => (CircularBuffer.contents_nil h.buffer).2 ?_⟩
  have hle := h.covered hc
  have hent : s.entries = 0 := List.sum_eq_zero hzero
  simp only [unposted, handedOver, hnil, List.map_nil, List.sum_nil, hent, regions] at hle
  by_contra hne
  rw [if_pos (Nat.pos_of_ne_zero hne)] at hle
  omega

/-- Thread 0 appends twice around a flush of thread 1's own entry, and spends its
first entry after the completion. -/
def sharedEntries : List Action :=
  [.postSend 0 true [1, 2], .postSend 1 true [3], .doSendJob 1 true true, .postSend 0 true [4],
    .doSendJob 0 true true, .sendCompletion 0, .doSendJob 0 true true]

theorem not_stranded_sharedEntries :
    ∃ s, run step (start clientBufSize 2) sharedEntries = some s ∧ s.LSendRequestSessionList = [1, 0] ∧
      s.unposted ≤ s.entries ∧
      ((∀ k ∈ s.LSendRequestSessionList, k = 0) → s.inFlight = [] → s.mSendBuffer.contents = []) := by
  have hmap : (run step (start clientBufSize 2) sharedEntries).map
      (fun s => (s.mConnected, s.LSendRequestSessionList)) = some (true, [1, 0]) := by decide +kernel
  obtain ⟨s, hr, hs⟩ := Option.map_eq_some_iff.1 hmap
  obtain ⟨hc, hl⟩ := Prod.mk.inj hs
  exact ⟨s, hr, hl, not_stranded hr hc⟩

end Flusher

end GameServer
