import GameServer.Log
import Mathlib.Data.Int.Order.Basic
/-!
# Times in microseconds

The product with 1000000 is taken in 64 bits before the division, so a time is
right only while the product is below 2^63: at 10 MHz, for less than 11 days.
-/

namespace GameServer.Log

variable {frequency startTick endTick : Int}

/-- The time in whole microseconds. -/
def exactMicros (frequency startTick endTick : Int) : Int := (endTick - startTick) * 1000000 / frequency

/-- Both functions are exact where the time fits in 63 bits, and the product does
not overflow. -/
structure Exact (frequency startTick endTick : Int) : Prop where
  elapsed : exactMicros frequency startTick endTick < 2 ^ 63 →
    ScopeElapsedCheck.elapsedMicroseconds frequency startTick endTick = exactMicros frequency startTick endTick
  timestamp : exactMicros frequency startTick endTick < 2 ^ 63 →
    EventLog.mMicrosecTimestamp frequency startTick endTick = exactMicros frequency startTick endTick
  product : scaled startTick endTick = (endTick - startTick) * 1000000

theorem int64_eq {x : Int} (h : -2 ^ 63 ≤ x) (h' : x < 2 ^ 63) : int64 x = x := by
  apply Int.bmod_eq_of_le <;> omega

theorem scaled_eq (hs : 0 ≤ startTick) (he : startTick ≤ endTick) (hlt : endTick < 2 ^ 63) :
    scaled startTick endTick = int64 ((endTick - startTick) * 1000000) := by
  have hd : int64 (endTick - startTick) = endTick - startTick := int64_eq (by omega) (by omega)
  rw [scaled, hd]

/-- Below 2^63 the time is the exact one. -/
theorem micros_of_lt (hf : 1 ≤ frequency) (hs : 0 ≤ startTick) (he : startTick ≤ endTick) (hlt : endTick < 2 ^ 63)
    (hp : (endTick - startTick) * 1000000 < 2 ^ 63) :
    micros frequency startTick endTick = exactMicros frequency startTick endTick ∧
      0 ≤ exactMicros frequency startTick endTick ∧ exactMicros frequency startTick endTick < 2 ^ 63 := by
  have h0 : 0 ≤ (endTick - startTick) * 1000000 := by omega
  have hnonneg : 0 ≤ exactMicros frequency startTick endTick := Int.ediv_nonneg h0 (by omega)
  have hle : exactMicros frequency startTick endTick ≤ (endTick - startTick) * 1000000 := Int.ediv_le_self _ h0
  refine ⟨?_, hnonneg, by omega⟩
  unfold micros
  rw [scaled_eq hs he hlt, int64_eq (by omega) hp, Int.tdiv_eq_ediv_of_nonneg h0]
  exact int64_eq (by unfold exactMicros at hnonneg; omega) (by unfold exactMicros at hle; omega)

/-- From 2^63 on the time is too small, as the product has lost a multiple of 2^64,
which is more than the frequency. -/
theorem micros_of_ge (hf : 1 ≤ frequency) (hf' : frequency < 2 ^ 63) (hs : 0 ≤ startTick) (he : startTick ≤ endTick)
    (hlt : endTick < 2 ^ 63) (hp : 2 ^ 63 ≤ (endTick - startTick) * 1000000) :
    micros frequency startTick endTick < exactMicros frequency startTick endTick := by
  have hwrap : int64 ((endTick - startTick) * 1000000) + 2 ^ 64 ≤ (endTick - startTick) * 1000000 ∧
      -2 ^ 63 ≤ int64 ((endTick - startTick) * 1000000) ∧ int64 ((endTick - startTick) * 1000000) < 2 ^ 63 := by
    unfold int64
    rw [Int.bmod_def]
    split <;> omega
  unfold micros exactMicros
  rw [scaled_eq hs he hlt]
  generalize (endTick - startTick) * 1000000 = product at hwrap hp ⊢
  obtain ⟨hw, hlo, hhi⟩ := hwrap
  generalize int64 product = wrapped at hw hlo hhi ⊢
  have hone : 1 ≤ product / frequency := (Int.le_ediv_iff_mul_le (by omega)).2 (by omega)
  rcases Int.le_total 0 wrapped with h0 | h0
  · have hle : wrapped / frequency ≤ wrapped := Int.ediv_le_self _ h0
    have hge : 0 ≤ wrapped / frequency := Int.ediv_nonneg h0 (by omega)
    have hstep : wrapped / frequency + 1 ≤ product / frequency := by
      rw [← Int.add_mul_ediv_right wrapped 1 (by omega : frequency ≠ 0)]
      exact Int.ediv_le_ediv (by omega) (by omega)
    rw [Int.tdiv_eq_ediv_of_nonneg h0, int64_eq (by omega) (by omega)]
    omega
  · have hneg : (-wrapped).tdiv frequency = -wrapped / frequency := Int.tdiv_eq_ediv_of_nonneg (by omega)
    have hle : -wrapped / frequency ≤ -wrapped := Int.ediv_le_self _ (by omega)
    have hge : 0 ≤ -wrapped / frequency := Int.ediv_nonneg (by omega) (by omega)
    rw [Int.neg_tdiv] at hneg
    rw [int64_eq (by omega) (by omega)]
    omega

/-- A time is right while the product is below 2^63, and not from there on. -/
theorem exact_iff_product_lt (hf : 1 ≤ frequency) (hs : 0 ≤ startTick) (he : startTick ≤ endTick)
    (hlt : endTick < 2 ^ 63) : Exact frequency startTick endTick ↔ (endTick - startTick) * 1000000 < 2 ^ 63 := by
  constructor
  · intro h
    have hp := h.product
    rw [scaled_eq hs he hlt] at hp
    have hb : int64 ((endTick - startTick) * 1000000) < 2 ^ 63 := by
      unfold int64
      rw [Int.bmod_def]
      split <;> omega
    omega
  · intro hp
    obtain ⟨heq, h0, hlt63⟩ := micros_of_lt hf hs he hlt hp
    refine ⟨fun _ => heq, fun _ => ?_, ?_⟩
    · unfold EventLog.mMicrosecTimestamp uint64
      rw [heq]
      omega
    · rw [scaled_eq hs he hlt]
      exact int64_eq (by omega) hp

theorem exactMicros_mono {end₁ end₂ : Int} (hf : 1 ≤ frequency) (h : end₁ ≤ end₂) :
    exactMicros frequency startTick end₁ ≤ exactMicros frequency startTick end₂ :=
  Int.ediv_le_ediv (by omega) (by omega)

/-- Both times are right and in order while the later product is below 2^63. A time
whose product is not below it is wrong in both functions. -/
theorem micros_exact_iff {end₁ end₂ : Int} (hf : 1 ≤ frequency) (hf' : frequency < 2 ^ 63) (hs : 0 ≤ startTick)
    (h1 : startTick ≤ end₁) (h2 : end₁ ≤ end₂) (hlt : end₂ < 2 ^ 63) :
    ((Exact frequency startTick end₁ ∧ Exact frequency startTick end₂ ∧
      ScopeElapsedCheck.elapsedMicroseconds frequency startTick end₁ ≤
        ScopeElapsedCheck.elapsedMicroseconds frequency startTick end₂ ∧
      EventLog.mMicrosecTimestamp frequency startTick end₁ ≤ EventLog.mMicrosecTimestamp frequency startTick end₂) ↔
        (end₂ - startTick) * 1000000 < 2 ^ 63) ∧
    (2 ^ 63 ≤ (end₂ - startTick) * 1000000 →
      ScopeElapsedCheck.elapsedMicroseconds frequency startTick end₂ ≠ exactMicros frequency startTick end₂ ∧
      (exactMicros frequency startTick end₂ < 2 ^ 63 →
        (EventLog.mMicrosecTimestamp frequency startTick end₂ : Int) ≠ exactMicros frequency startTick end₂)) := by
  refine ⟨⟨fun h => (exact_iff_product_lt hf hs (by omega) hlt).1 h.2.1, fun hp => ?_⟩, fun hp => ?_⟩
  · have hp₁ : (end₁ - startTick) * 1000000 < 2 ^ 63 := by omega
    obtain ⟨heq₁, h0₁, hlt₁⟩ := micros_of_lt hf hs h1 (by omega) hp₁
    obtain ⟨heq₂, h0₂, hlt₂⟩ := micros_of_lt hf hs (by omega) hlt hp
    have hmono : exactMicros frequency startTick end₁ ≤ exactMicros frequency startTick end₂ := exactMicros_mono hf h2
    refine ⟨(exact_iff_product_lt hf hs h1 (by omega)).2 hp₁, (exact_iff_product_lt hf hs (by omega) hlt).2 hp, ?_, ?_⟩
    · unfold ScopeElapsedCheck.elapsedMicroseconds
      omega
    · unfold EventLog.mMicrosecTimestamp uint64
      omega
  · have hsmall := micros_of_ge hf hf' hs (by omega) hlt hp
    refine ⟨Int.ne_of_lt hsmall, fun hfit he => ?_⟩
    have hlo : -2 ^ 63 ≤ micros frequency startTick end₂ := by
      unfold micros int64
      rw [Int.bmod_def]
      split <;> omega
    unfold EventLog.mMicrosecTimestamp uint64 at he
    omega

/-- At 10 MHz the product overflows in the eleventh day. -/
theorem micros_eleventh_day :
    exactMicros 10000000 0 9223372036855 = 922337203685 ∧
    ScopeElapsedCheck.elapsedMicroseconds 10000000 0 9223372036854 = 922337203685 ∧
    ScopeElapsedCheck.elapsedMicroseconds 10000000 0 9223372036855 = -922337203685 ∧
    ¬ Exact 10000000 0 9223372036855 := by
  refine ⟨by decide, by decide, by decide, fun h => ?_⟩
  exact absurd h.product (by decide)

theorem micros_exact_iff_one_second :
    (Exact 10000000 5 10000005 ∧ Exact 10000000 5 20000005 ∧
      ScopeElapsedCheck.elapsedMicroseconds 10000000 5 10000005 ≤ ScopeElapsedCheck.elapsedMicroseconds 10000000 5 20000005 ∧
      EventLog.mMicrosecTimestamp 10000000 5 10000005 ≤ EventLog.mMicrosecTimestamp 10000000 5 20000005) ↔
        (20000005 - 5 : Int) * 1000000 < 2 ^ 63 :=
  (micros_exact_iff (by decide) (by decide) (by decide) (by decide) (by decide) (by decide)).1

end GameServer.Log
