import Mathlib.Data.List.Basic
/-!
# Streams of self-delimiting frames

A prefix code writes each frame as a non-empty string that is no proper prefix
of another frame's. A stream of frames can then be cut anywhere and read again
frame by frame: what has arrived is some whole frames and the beginning of the
next one.
-/

namespace Lib

/-- An encoding of frames by strings, none of which begins another. -/
structure PrefixCode (φ β : Type*) where
  encode : φ → List β
  encode_ne_nil : ∀ f, encode f ≠ []
  prefix_free : ∀ f g, encode f <+: encode g → f = g

namespace PrefixCode

variable {φ β : Type*} (C : PrefixCode φ β)

/-- The frames one after another. -/
def stream (fs : List φ) : List β := fs.flatMap C.encode

/-- No whole frame lies at the front. -/
def NoFrame (xs : List β) : Prop := ∀ f, ¬ C.encode f <+: xs

/-- `p` is the beginning, short of the whole, of the first of the frames. -/
def Begins : List φ → List β → Prop
  | [], p => p = []
  | f :: _, p => p <+: C.encode f ∧ p ≠ C.encode f

/-- How many bytes of an unfinished frame lie among the first `n` of the stream. -/
def leftover : List φ → Nat → Nat
  | [], n => n
  | f :: fs, n => if n < (C.encode f).length then n else leftover fs (n - (C.encode f).length)

/-- The frames that lie whole among them. -/
def whole : List φ → Nat → List φ
  | [], _ => []
  | f :: fs, n => if n < (C.encode f).length then [] else f :: whole fs (n - (C.encode f).length)

@[simp] theorem stream_nil : C.stream [] = [] := rfl

@[simp] theorem stream_cons (f : φ) (fs : List φ) : C.stream (f :: fs) = C.encode f ++ C.stream fs := rfl

theorem stream_append (fs gs : List φ) : C.stream (fs ++ gs) = C.stream fs ++ C.stream gs := by
  simp [stream]

theorem encode_length_pos (f : φ) : 0 < (C.encode f).length := List.length_pos_iff.2 (C.encode_ne_nil f)

theorem begins_nil (fs : List φ) : C.Begins fs [] := by
  cases fs with
  | nil => rfl
  | cons f fs => exact ⟨List.nil_prefix, (C.encode_ne_nil f).symm⟩

theorem noFrame_nil : C.NoFrame [] := fun f h => C.encode_ne_nil f (List.prefix_nil.1 h)

variable {C}

theorem Begins.noFrame {fs : List φ} {p : List β} (h : C.Begins fs p) : C.NoFrame p := by
  cases fs with
  | nil => cases h; exact C.noFrame_nil
  | cons f fs =>
    intro g hg
    cases C.prefix_free g f (hg.trans h.1)
    exact h.2 (h.1.eq_of_length_le hg.length_le)

/-- The beginning of frames is all their bytes only if there are none. -/
theorem Begins.eq_nil {fs : List φ} {p : List β} (h : C.Begins fs p) (hp : C.stream fs = p) : fs = [] ∧ p = [] := by
  cases fs with
  | nil => exact ⟨rfl, h⟩
  | cons f fs =>
    have hle := h.1.length_le
    rw [← hp, stream_cons, List.length_append] at hle
    have hfs : (C.stream fs).length = 0 := by omega
    rw [List.length_eq_zero_iff] at hfs
    rw [stream_cons, hfs, List.append_nil] at hp
    exact absurd hp.symm h.2

/-- A stream cut anywhere: whole frames and the beginning of the next. -/
theorem split_stream {fs : List φ} {xs ys : List β} (h : C.stream fs = xs ++ ys) :
    ∃ gs hs p, fs = gs ++ hs ∧ xs = C.stream gs ++ p ∧ C.Begins hs p ∧ C.stream hs = p ++ ys := by
  induction fs generalizing xs with
  | nil =>
    obtain ⟨rfl, rfl⟩ := List.append_eq_nil_iff.1 h.symm
    exact ⟨[], [], [], rfl, rfl, rfl, rfl⟩
  | cons f fs ih =>
    rw [stream_cons] at h
    rcases List.append_eq_append_iff.1 h with ⟨z, rfl, hz⟩ | ⟨z, hf, rfl⟩
    · -- the cut lies beyond the first frame
      obtain ⟨gs, hs, p, rfl, rfl, hb, hys⟩ := ih hz
      exact ⟨f :: gs, hs, p, rfl, by simp, hb, hys⟩
    · by_cases hz : z = []
      · subst hz
        refine ⟨[f], fs, [], rfl, by simp [hf], C.begins_nil fs, rfl⟩
      · refine ⟨[], f :: fs, xs, rfl, rfl, ⟨⟨z, hf.symm⟩, fun e => hz ?_⟩, by rw [stream_cons, hf, List.append_assoc]⟩
        rw [← e] at hf
        exact List.self_eq_append_right.1 hf

/-- Every string starts with whole frames until none is left at the front. -/
theorem exists_parse (xs : List β) : ∃ fs rest, xs = C.stream fs ++ rest ∧ C.NoFrame rest := by
  induction hn : xs.length using Nat.strongRecOn generalizing xs with
  | _ n ih =>
    by_cases h : C.NoFrame xs
    · exact ⟨[], xs, rfl, h⟩
    · simp only [NoFrame, not_forall, not_not] at h
      obtain ⟨f, ys, rfl⟩ := h
      have hpos := C.encode_length_pos f
      rw [List.length_append] at hn
      obtain ⟨fs, rest, rfl, hr⟩ := ih ys.length (by omega) ys rfl
      exact ⟨f :: fs, rest, by simp, hr⟩

theorem leftover_stream (gs hs : List φ) (n : Nat) :
    C.leftover (gs ++ hs) ((C.stream gs).length + n) = C.leftover hs n := by
  induction gs with
  | nil => simp
  | cons g gs ih =>
    simp only [List.cons_append, leftover, stream_cons, List.length_append]
    rw [if_neg (by omega), ← ih]
    congr 1
    omega

theorem leftover_begins {hs : List φ} {p : List β} (h : C.Begins hs p) : C.leftover hs p.length = p.length := by
  cases hs with
  | nil => rfl
  | cons f fs =>
    have hlt : p.length < (C.encode f).length :=
      Nat.lt_of_not_le fun hle => h.2 (h.1.eq_of_length_le hle)
    simp [leftover, hlt]

theorem whole_stream (gs hs : List φ) (n : Nat) :
    C.whole (gs ++ hs) ((C.stream gs).length + n) = gs ++ C.whole hs n := by
  induction gs with
  | nil => simp
  | cons g gs ih =>
    simp only [List.cons_append, whole, stream_cons, List.length_append]
    rw [if_neg (by omega), ← ih]
    congr 2
    omega

theorem whole_begins {hs : List φ} {p : List β} (h : C.Begins hs p) : C.whole hs p.length = [] := by
  cases hs with
  | nil => rfl
  | cons f fs =>
    have hlt : p.length < (C.encode f).length :=
      Nat.lt_of_not_le fun hle => h.2 (h.1.eq_of_length_le hle)
    simp [whole, hlt]

end PrefixCode

end Lib
