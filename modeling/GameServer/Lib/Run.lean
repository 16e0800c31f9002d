import Mathlib.Data.List.Basic
/-!
# Runs of a step function

A system is a partial step function: `step s a` is the state after action `a`,
or `none` where `a` cannot happen in `s`. `run` folds it over a list of actions,
so a theorem about every list of actions is one about every interleaving.
`Meets P` restricts a run to actions taken in states that satisfy `P`.
-/

namespace Lib

variable {σ α : Type*}

/-- The state after the actions, if every one of them was enabled. -/
def run (step : σ → α → Option σ) : σ → List α → Option σ
  | s, [] => some s
  | s, a :: as => (step s a).bind fun s' => run step s' as

/-- Each action of the run is taken in a state with `P`. -/
def Meets (step : σ → α → Option σ) (P : σ → α → Prop) : σ → List α → Prop
  | _, [] => True
  | s, a :: as => P s a ∧ ∀ s', step s a = some s' → Meets step P s' as

variable {step : σ → α → Option σ} {P : σ → α → Prop}

instance Meets.decidable [∀ s a, Decidable (P s a)] : ∀ s as, Decidable (Meets step P s as)
  | _, [] => isTrue trivial
  | s, a :: as =>
    match hs : step s a with
    | none => decidable_of_iff (P s a) ⟨fun h => ⟨h, fun _ h' => by simp [hs] at h'⟩, And.left⟩
    | some s' =>
      have := Meets.decidable s' as
      decidable_of_iff (P s a ∧ Meets step P s' as)
        ⟨fun h => ⟨h.1, fun _ h' => Option.some.inj (hs.symm.trans h') ▸ h.2⟩, fun h => ⟨h.1, h.2 s' hs⟩⟩

@[simp] theorem run_nil (s : σ) : run step s [] = some s := rfl

theorem run_cons {s t : σ} {a : α} {as : List α} :
    run step s (a :: as) = some t ↔ ∃ s', step s a = some s' ∧ run step s' as = some t := by
  simp [run, Option.bind_eq_some_iff]

theorem run_append {s t : σ} {as bs : List α} :
    run step s (as ++ bs) = some t ↔ ∃ s', run step s as = some s' ∧ run step s' bs = some t := by
  induction as generalizing s with
  | nil => simp
  | cons a as ih =>
    simp only [List.cons_append, run_cons, ih]
    constructor
    · rintro ⟨s₁, h₁, s₂, h₂, h₃⟩
      exact ⟨s₂, ⟨s₁, h₁, h₂⟩, h₃⟩
    · rintro ⟨s₂, ⟨s₁, h₁, h₂⟩, h₃⟩
      exact ⟨s₁, h₁, s₂, h₂, h₃⟩

/-- What each step of a system is in another one, a run is there too. -/
theorem run_map {τ β : Type*} {step' : τ → β → Option τ} (f : σ → τ) (g : α → β)
    (hs : ∀ s a s', step s a = some s' → step' (f s) (g a) = some (f s')) {s t : σ} {as : List α}
    (hr : run step s as = some t) : run step' (f s) (as.map g) = some (f t) := by
  induction as generalizing s with
  | nil =>
    cases hr
    rfl
  | cons a as ih =>
    obtain ⟨s', h, hr⟩ := run_cons.1 hr
    exact run_cons.2 ⟨f s', hs s a s' h, ih hr⟩

/-- A condition on the actions alone. -/
theorem meets_of_forall {Q : α → Prop} {s : σ} {as : List α} (h : ∀ a ∈ as, Q a) :
    Meets step (fun _ a => Q a) s as := by
  induction as generalizing s with
  | nil => trivial
  | cons a as ih =>
    exact ⟨h a List.mem_cons_self, fun _ _ => ih fun b hb => h b (List.mem_cons_of_mem a hb)⟩

/-- A condition that holds at each action of the run. -/
theorem meets_of_split {s : σ} {as : List α}
    (h : ∀ as₁ a as₂ s₁, as = as₁ ++ a :: as₂ → run step s as₁ = some s₁ → P s₁ a) : Meets step P s as := by
  induction as generalizing s with
  | nil => trivial
  | cons a as ih =>
    refine ⟨h [] a as s rfl rfl, fun s' hs' => ih fun as₁ b as₂ s₁ he hr => ?_⟩
    exact h (a :: as₁) b as₂ s₁ (by rw [he]; rfl) (run_cons.2 ⟨s', hs', hr⟩)

theorem meets_append {s t : σ} {as bs : List α} (h : Meets step P s (as ++ bs))
    (hr : run step s as = some t) : Meets step P s as ∧ Meets step P t bs := by
  induction as generalizing s with
  | nil => cases hr; exact ⟨trivial, h⟩
  | cons a as ih =>
    obtain ⟨s', hs, hr⟩ := run_cons.1 hr
    refine ⟨⟨h.1, fun s₁ h₁ => ?_⟩, (ih (h.2 s' hs) hr).2⟩
    rw [hs] at h₁
    cases h₁
    exact (ih (h.2 s' hs) hr).1

/-- What every step meeting `P` keeps holds after every run that meets `P`. -/
theorem inv_of_meets {I : σ → Prop} (hs : ∀ s a s', I s → P s a → step s a = some s' → I s')
    {s t : σ} {as : List α} (h0 : I s) (hm : Meets step P s as) (hr : run step s as = some t) : I t := by
  induction as generalizing s with
  | nil => cases hr; exact h0
  | cons a as ih =>
    obtain ⟨s', hs', hr⟩ := run_cons.1 hr
    exact ih (hs s a s' h0 hm.1 hs') (hm.2 s' hs') hr

theorem meets_of_inv {I : σ → Prop} (hs : ∀ s a s', I s → step s a = some s' → I s')
    (hP : ∀ s a, I s → P s a) {s : σ} {as : List α} (h0 : I s) : Meets step P s as := by
  induction as generalizing s with
  | nil => trivial
  | cons a as ih => exact ⟨hP s a h0, fun s' hs' => ih (hs s a s' h0 hs')⟩

/-- Steps that meet `P` keep `I`, so `I` may be used to show what else they meet. -/
theorem meets_of_meets {I : σ → Prop} {Q : σ → α → Prop}
    (hs : ∀ s a s', I s → P s a → step s a = some s' → I s') (hQ : ∀ s a, I s → P s a → Q s a)
    {s : σ} {as : List α} (h0 : I s) (hm : Meets step P s as) : Meets step Q s as := by
  induction as generalizing s with
  | nil => trivial
  | cons a as ih => exact ⟨hQ s a h0 hm.1, fun s' hs' => ih (hs s a s' h0 hm.1 hs') (hm.2 s' hs')⟩

/-- What every step keeps holds after every run. -/
theorem inv_of_run {I : σ → Prop} (hs : ∀ s a s', I s → step s a = some s' → I s')
    {s t : σ} {as : List α} (h0 : I s) (hr : run step s as = some t) : I t :=
  inv_of_meets (P := fun _ _ => True) (fun s a s' h _ => hs s a s' h) h0
    (meets_of_inv hs (fun _ _ _ => trivial) h0) hr

/-- Steps that meet `P` lead on along `I`, any other to `J`, which no step
leaves: a run ends in `I` if it meets `P` throughout, and in `J` if not. -/
theorem run_or_lost {I : List α → σ → Prop} {J : σ → Prop}
    (hI : ∀ s a as s', I (a :: as) s → P s a → step s a = some s' → I as s')
    (hJ : ∀ s a as s', I (a :: as) s → ¬ P s a → step s a = some s' → J s')
    (hJJ : ∀ s a s', J s → step s a = some s' → J s')
    {s t : σ} {as : List α} (h : I as s) (hr : run step s as = some t) :
    (Meets step P s as ∧ I [] t) ∨ (¬ Meets step P s as ∧ J t) := by
  induction as generalizing s with
  | nil => cases hr; exact .inl ⟨trivial, h⟩
  | cons a as ih =>
    obtain ⟨s', hs, hr'⟩ := run_cons.1 hr
    by_cases hP : P s a
    · rcases ih (hI s a as s' h hP hs) hr' with ⟨hm, ht⟩ | ⟨hm, ht⟩
      · exact .inl ⟨⟨hP, fun s₁ h₁ => Option.some.inj (hs.symm.trans h₁) ▸ hm⟩, ht⟩
      · exact .inr ⟨fun hm' => hm (hm'.2 s' hs), ht⟩
    · exact .inr ⟨fun hm => hP hm.1, inv_of_run hJJ (hJ s a as s' h hP hs) hr'⟩

end Lib
