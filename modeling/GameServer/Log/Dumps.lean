import GameServer.Log
import Mathlib.Data.List.Induction
/-!
# What the dumps show

Both arrays hold the thread's last calls. The history of calls is dumped as it is,
the elapsed times only as far as their folded counter counts.
-/

namespace GameServer.Log

open Lib

/-! ## The history of calls -/

namespace ThreadCallHistory

structure Stored (r : ThreadCallHistory) (tid : Int) (calls : List String) : Prop where
  counter : r.mCounter = calls.length % 2 ^ 64
  thread : r.mThreadId = tid
  holds : Cyclic.Holds maxHistory r.mHistory (calls.map some)

theorem stored_new (tid : Int) : Stored (new tid) tid [] := ⟨rfl, rfl, Cyclic.holds_nil⟩

theorem Stored.append {r : ThreadCallHistory} {tid : Int} {calls : List String} (h : Stored r tid calls) (funsig : String) :
    Stored (r.append funsig) tid (calls ++ [funsig]) where
  counter := by simp [ThreadCallHistory.append, h.counter]
  thread := h.thread
  holds := by
    have hcell : r.mCounter % maxHistory = (calls.map some).length % maxHistory := by
      rw [h.counter, List.length_map]
      unfold maxHistory
      omega
    have hh := h.holds.concat (some funsig)
    rw [← hcell] at hh
    rw [List.map_append]
    exact hh

theorem stored_calls (tid : Int) (calls : List String) : Stored (calls.foldl append (new tid)) tid calls := by
  induction calls using List.reverseRecOn with
  | nil => exact stored_new tid
  | append_singleton calls funsig ih =>
    rw [List.foldl_append]
    exact ih.append funsig

/-- The counter runs on, and the dump has the last calls. -/
theorem dumpOut_eq (tid : Int) {calls : List String} (hn : calls.length < 2 ^ 64) :
    (calls.foldl append (new tid)).dumpOut = (Cyclic.latest maxHistory calls).map fun f => (tid, some f) := by
  have h := stored_calls tid calls
  have hc := h.counter
  rw [Nat.mod_eq_of_lt hn] at hc
  have hcount : (if calls.length < maxHistory then calls.length else maxHistory) = min maxHistory (calls.map some).length := by
    rw [List.length_map]
    split <;> omega
  unfold dumpOut
  rw [hc, hcount, h.thread]
  have hb := h.holds.backwards_all
  rw [Cyclic.latest_map, List.length_map] at hb
  rw [← Function.comp_def (fun x : Option String => (tid, x)) some, ← List.map_map, ← hb, List.length_map]
  unfold Cyclic.backwards
  rw [List.map_map]
  rfl

theorem dumpOut_eq_two : (["a", "b"].foldl append (new 1)).dumpOut = [(1, some "b"), (1, some "a")] :=
  dumpOut_eq 1 (by decide)

end ThreadCallHistory

/-! ## The elapsed times -/

namespace ThreadCallElapsedRecord

/-- The record after the calls. -/
def ofCalls (tid : Int) (calls : List (String × Int)) : ThreadCallElapsedRecord :=
  calls.foldl (fun r c => r.append c.1 c.2) (new tid)

/-- A row of the dump. -/
def row (tid : Int) (c : String × Int) : Int × Option String × Int := (tid, some c.1, c.2)

def cells (r : ThreadCallElapsedRecord) (k : Nat) : Option String × Int := (r.mElapsedFuncSig k, r.mElapsedTime k)

/-- The arrays hold the last calls. The counter only says where the next one goes. -/
structure Stored (r : ThreadCallElapsedRecord) (tid : Int) (calls : List (String × Int)) : Prop where
  counter : r.mCounter = calls.length % maxElapsedRecord
  thread : r.mThreadId = tid
  holds : Cyclic.Holds maxElapsedRecord r.cells (calls.map fun c => (some c.1, c.2))

theorem cells_append (r : ThreadCallElapsedRecord) (c : String × Int) :
    (r.append c.1 c.2).cells = Function.update r.cells r.mCounter (some c.1, c.2) := by
  funext k
  unfold cells append
  by_cases hk : k = r.mCounter
  · subst hk
    simp
  · simp [hk]

theorem Stored.append {r : ThreadCallElapsedRecord} {tid : Int} {calls : List (String × Int)} (h : Stored r tid calls)
    (c : String × Int) : Stored (r.append c.1 c.2) tid (calls ++ [c]) where
  counter := by simp [ThreadCallElapsedRecord.append, h.counter]
  thread := h.thread
  holds := by
    have hh := h.holds.concat (some c.1, c.2)
    rw [List.length_map, ← h.counter] at hh
    rw [cells_append, List.map_append]
    exact hh

theorem stored_ofCalls (tid : Int) (calls : List (String × Int)) : Stored (ofCalls tid calls) tid calls := by
  induction calls using List.reverseRecOn with
  | nil => exact ⟨rfl, rfl, Cyclic.holds_nil⟩
  | append_singleton calls c ih =>
    unfold ofCalls
    rw [List.foldl_append]
    exact ih.append c

/-- The dump stops where the array was last begun anew. -/
theorem dumpOut_ofCalls (tid : Int) (calls : List (String × Int)) :
    (ofCalls tid calls).dumpOut = (calls.reverse.take (calls.length % maxElapsedRecord)).map (row tid) := by
  have h := stored_ofCalls tid calls
  have hlt : calls.length % maxElapsedRecord < maxElapsedRecord := Nat.mod_lt _ (by decide)
  have hle : calls.length % maxElapsedRecord ≤ calls.length := Nat.mod_le ..
  have hb := h.holds.backwards_eq (Nat.le_of_lt hlt) (by simpa using hle)
  rw [← Cyclic.backwards_mod (by simp), ← List.map_reverse, ← List.map_take, List.length_map] at hb
  unfold dumpOut
  rw [h.counter, h.thread, if_pos hlt]
  have hrow : row tid = (fun x => (tid, x.1, x.2)) ∘ fun c : String × Int => (some c.1, c.2) := rfl
  rw [hrow, ← List.map_map, ← hb]
  unfold Cyclic.backwards cells
  rw [List.map_map]
  rfl

/-- The dump has the last calls as long as the counter was never folded. -/
theorem dumpOut_iff (tid : Int) (calls : List (String × Int)) :
    (ofCalls tid calls).dumpOut = (Cyclic.latest maxElapsedRecord calls).map (row tid) ↔
      calls.length < maxElapsedRecord := by
  rw [dumpOut_ofCalls]
  constructor
  · intro h
    have hlen := congrArg List.length h
    have hlt : calls.length % maxElapsedRecord < maxElapsedRecord := Nat.mod_lt _ (by decide)
    simp only [List.length_map, List.length_take, List.length_reverse, Cyclic.length_latest] at hlen
    omega
  · intro h
    rw [Nat.mod_eq_of_lt h, Cyclic.latest, List.take_of_length_le (by simp), List.take_of_length_le (by simp; omega)]

/-- The call that fills the array empties the dump. -/
theorem dumpOut_of_full : (ofCalls 1 (List.replicate maxElapsedRecord ("f", 7))).dumpOut = [] ∧
    (ofCalls 1 (List.replicate maxElapsedRecord ("f", 7))).dumpOut ≠
      (Cyclic.latest maxElapsedRecord (List.replicate maxElapsedRecord ("f", 7))).map (row 1) := by
  have hd : (ofCalls 1 (List.replicate maxElapsedRecord ("f", 7))).dumpOut = [] := by
    rw [dumpOut_ofCalls, List.length_replicate, Nat.mod_self, List.take_zero, List.map_nil]
  refine ⟨hd, fun h => ?_⟩
  have hlen := congrArg List.length (hd.symm.trans h)
  rw [List.length_map, Cyclic.length_latest, List.length_replicate, Nat.min_self] at hlen
  cases hlen

end ThreadCallElapsedRecord

end GameServer.Log
