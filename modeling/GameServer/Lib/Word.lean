import Mathlib.Logic.Function.Basic
import Mathlib.Tactic.Ring
/-!
# Words in byte memory

A memory is a byte for every address. `readWord` and `writeWord` go through the
`w` bytes from `p`, the lowest first.
-/

namespace Lib

variable {m m' : Nat → UInt8} {w p q v a : Nat}

def readWord (m : Nat → UInt8) : (w p : Nat) → Nat
  | 0, _ => 0
  | w + 1, p => (m p).toNat + 256 * readWord m w (p + 1)

def writeWord (m : Nat → UInt8) : (w p v : Nat) → Nat → UInt8
  | 0, _, _ => m
  | w + 1, p, v => writeWord (Function.update m p (UInt8.ofNat v)) w (p + 1) (v / 256)

/-- A word is its bytes. -/
theorem readWord_congr (h : ∀ a, p ≤ a → a < p + w → m' a = m a) : readWord m' w p = readWord m w p := by
  induction w generalizing p with
  | zero => rfl
  | succ w ih =>
    rw [readWord, readWord, h p (Nat.le_refl p) (by omega), ih fun a ha hw => h a (by omega) (by omega)]

/-- Other bytes are unchanged. -/
theorem writeWord_other (h : a < p ∨ p + w ≤ a) : writeWord m w p v a = m a := by
  induction w generalizing m p v with
  | zero => rfl
  | succ w ih => rw [writeWord, ih (by omega), Function.update_of_ne (by omega)]

/-- What was written is read back. -/
theorem readWord_writeWord (h : v < 256 ^ w) : readWord (writeWord m w p v) w p = v := by
  induction w generalizing m p v with
  | zero =>
    rw [Nat.pow_zero] at h
    rw [readWord]
    omega
  | succ w ih =>
    have hv : v / 256 < 256 ^ w := by
      rw [Nat.pow_succ] at h
      omega
    rw [readWord, writeWord, ih hv, writeWord_other (by omega), Function.update_self, UInt8.toNat_ofNat']
    omega

end Lib
