import Mathlib.Data.Int.Notation
/-!
# Pooled objects with a reference count

The books of one object of a pool. The pool lists it while it is free. Issuing
takes it off the list and gives it a reference of its own, the issue reference;
every other reference is a token. Some party always owes the release of the
issue reference: one that is opening the object, the open object itself, or one
that is closing it. Who drops the last reference gives the object back: it
wipes the counter and lists the object again.

`Op` is what a step can do to the books of an object. `Balanced` says that the
counter counts the references and that the object is in one place; every `Op`
keeps it if it is `Sound`. `Tracked` says that the object cannot be forgotten;
every `Op` that is not a loss keeps it, sound or not.
-/

namespace Lib

/-- Where the references of an object are, and how often it was issued and
given back. -/
@[ext] structure Books where
  /-- The counter, as stored. -/
  count : Int
  issue : Nat
  tokens : Nat
  listed : Nat
  /-- Taken off the list, not issued yet. -/
  popped : Nat
  /-- Being given back, the counter not wiped yet. -/
  wiping : Nat
  /-- Being given back, the counter wiped. -/
  wiped : Nat
  opening : Nat
  closing : Nat
  connected : Nat
  /-- Parties that saw the object open and are to take a token without having one. -/
  peeking : Nat
  issued : Nat
  returned : Nat

namespace Books

variable {b : Books}

inductive Op where
  | stay
  | pop
  | issue
  | acquire
  | acquirePeeked
  | drop
  /-- Whoever is closing the object drops the issue reference. -/
  | retire
  | connect
  | disconnect
  | loseOpening
  | loseClosing
  | wipeConnected
  | wipeCount
  | push
  | peek
  | unpeek

/-- One reference less. The last one starts a return. -/
def release (b : Books) : Books :=
  if b.count = 1 then { b with count := 0, wiping := b.wiping + 1, returned := b.returned + 1 }
  else { b with count := b.count - 1 }

def after (b : Books) : Op → Books
  | .stay => b
  | .pop => { b with listed := b.listed - 1, popped := b.popped + 1, issued := b.issued + 1 }
  | .issue =>
    { b with popped := b.popped - 1, count := b.count + 1, issue := b.issue + 1, opening := b.opening + 1 }
  | .acquire => { b with count := b.count + 1, tokens := b.tokens + 1 }
  | .acquirePeeked => { b with count := b.count + 1, tokens := b.tokens + 1, peeking := b.peeking - 1 }
  | .drop => { b.release with tokens := b.tokens - 1 }
  | .retire => { b.release with closing := b.closing - 1, issue := b.issue - 1 }
  | .connect => { b with opening := b.opening - 1, connected := b.connected + 1 }
  | .disconnect => { b with connected := b.connected - 1, closing := b.closing + 1 }
  | .loseOpening => { b with opening := b.opening - 1 }
  | .loseClosing => { b with closing := b.closing - 1 }
  | .wipeConnected => { b with connected := 0 }
  | .wipeCount => { b with count := 0, wiping := b.wiping - 1, wiped := b.wiped + 1 }
  | .push => { b with wiped := b.wiped - 1, listed := b.listed + 1 }
  | .peek => { b with peeking := b.peeking + 1 }
  | .unpeek => { b with peeking := b.peeking - 1 }

/-- The books show what the operation moves. -/
def Enabled (b : Books) : Op → Prop
  | .pop => 0 < b.listed
  | .issue => 0 < b.popped
  | .acquirePeeked | .unpeek => 0 < b.peeking
  | .drop => 0 < b.tokens ∧ 0 < b.count
  | .retire => 0 < b.closing ∧ 0 < b.count
  | .connect | .loseOpening => 0 < b.opening
  | .disconnect | .peek => 0 < b.connected
  | .loseClosing => 0 < b.closing
  | .wipeConnected | .wipeCount => 0 < b.wiping
  | .push => 0 < b.wiped
  | .stay | .acquire => True

/-- A token is taken only while there is a reference, and the last reference
is dropped only when nobody is peeking. -/
def Sound (b : Books) : Op → Prop
  | .acquire => 0 < b.issue + b.tokens
  | .drop | .retire => b.count = 1 → b.peeking = 0
  | _ => True

structure Balanced (b : Books) : Prop where
  count_eq : b.count = b.issue + b.tokens
  /-- Free, being issued, being given back or in use, and only one of these. -/
  place : b.listed + b.popped + b.wiping + b.wiped + min 1 (b.issue + b.tokens) = 1
  /-- Who owes the release of the issue reference. -/
  owed : b.opening + b.closing + b.connected ≤ b.issue
  issue_le : b.issue ≤ 1
  once : b.issued = b.returned + b.popped + min 1 (b.issue + b.tokens)
  peek : 0 < b.peeking → 0 < b.issue + b.tokens

theorem Balanced.after {o : Op} (h : b.Balanced) (he : b.Enabled o) (hs : b.Sound o) : (b.after o).Balanced := by
  obtain ⟨h₁, h₂, h₃, h₄, h₅, h₆⟩ := h
  cases o <;> simp only [Books.after, release, Enabled, Sound] at he hs ⊢
  case stay => exact ⟨h₁, h₂, h₃, h₄, h₅, h₆⟩
  -- only these two can drop the last reference
  case drop => split <;> constructor <;> simp only <;> omega
  case retire => split <;> constructor <;> simp only <;> omega
  all_goals constructor <;> simp only <;> omega

/-- A return starts exactly when the last reference is dropped. -/
theorem Balanced.returned_after {o : Op} (h : b.Balanced) (he : b.Enabled o) :
    (b.after o).returned = b.returned + 1 ∧ 0 < b.count ∧ (b.after o).count = 0 ∨
      (b.after o).returned = b.returned ∧ ¬ (0 < b.count ∧ (b.after o).count = 0) := by
  obtain ⟨h₁, h₂, h₃, h₄, h₅, h₆⟩ := h
  cases o <;> simp only [Enabled] at he
  case drop | retire =>
    by_cases h1 : b.count = 1
    · simp [Books.after, release, h1]
    · refine .inr ⟨by simp [Books.after, release, h1], fun hc => ?_⟩
      simp only [Books.after, release, if_neg h1] at hc
      omega
  -- a counter that is wiped was 0 already
  all_goals
    refine .inr ⟨rfl, fun hc => ?_⟩
    simp only [Books.after] at hc
    omega

/-- Being given back, the object has no reference left and is in no other place. -/
theorem Balanced.of_returning (h : b.Balanced) (hr : 0 < b.wiping + b.wiped) :
    b.wiping + b.wiped = 1 ∧ b.tokens = 0 ∧ b.issue = 0 ∧ b.connected = 0 ∧ b.listed = 0 ∧ b.count = 0 := by
  obtain ⟨h₁, h₂, h₃, h₄, h₅, h₆⟩ := h
  omega

/-- Only `connect` opens an object. -/
theorem connected_after (b : Books) (o : Op) : (b.after o).connected ≤ b.connected ∨ o = .connect := by
  cases o <;> simp only [Books.after, release]
  case connect => exact .inr trivial
  case drop | retire => split <;> exact .inl (Nat.le_refl _)
  all_goals exact .inl (by omega)

/-- The operation leaves somebody who owes the release of the issue reference. -/
def Keeps : Op → Prop
  | .loseOpening | .loseClosing => False
  | _ => True

/-- The counter is covered by parties that will release it, and the object is
free, on its way there, or held by one of them. -/
structure Tracked (b : Books) : Prop where
  covered : 0 < b.wiping ∨ b.count ≤ b.opening + b.closing + b.connected + b.tokens
  held : 0 < b.listed + b.popped + b.wiping + b.wiped + b.opening + b.closing + b.connected + b.tokens

theorem Tracked.after {o : Op} (h : b.Tracked) (he : b.Enabled o) (hk : Keeps o) : (b.after o).Tracked := by
  obtain ⟨h₁, h₂⟩ := h
  cases o <;> simp only [Books.after, release, Enabled, Keeps] at he hk ⊢
  case stay => exact ⟨h₁, h₂⟩
  case drop => split <;> constructor <;> simp only <;> omega
  case retire => split <;> constructor <;> simp only <;> omega
  all_goals constructor <;> simp only <;> omega

/-- Nobody is left who owes the release of the issue reference. -/
structure Orphan (b : Books) : Prop where
  issue : 0 < b.issue
  forgotten : b.opening + b.closing + b.connected = 0

/-- An orphan is never given back. -/
theorem Orphan.after {o : Op} (ho : b.Orphan) (h : b.Balanced) (he : b.Enabled o) : (b.after o).Orphan := by
  obtain ⟨hi, hf⟩ := ho
  have hplace := h.place
  cases o <;> simp only [Books.after, release, Enabled] at he ⊢
  case stay => exact ⟨hi, hf⟩
  case drop => split <;> exact ⟨hi, hf⟩
  all_goals constructor <;> simp only <;> omega

end Books

end Lib
