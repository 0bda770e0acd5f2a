import Mathlib.Tactic.Common

/-! # Runs of a step function

Threads that share a state take steps one after the other, in any order. A step is an action that
one of them takes; where it cannot be taken there is none. What holds at the start and is kept by
every step holds wherever a run leads, and a run may be restricted to steps that are allowed. -/

namespace Liters

universe u v

variable {σ : Type u} {α : Type v}

/-- The states to which allowed steps lead from a start. -/
inductive Reaches (step : σ → α → Option σ) (allowed : σ → α → Prop) (start : σ) : σ → Prop where
  | refl : Reaches step allowed start start
  | next {s s' : σ} (h : Reaches step allowed start s) (a : α) (hallowed : allowed s a)
      (hstep : step s a = some s') :
      Reaches step allowed start s'

/-- Every step is allowed. -/
def anyStep (_ : σ) (_ : α) : Prop := True

variable {step : σ → α → Option σ} {allowed : σ → α → Prop} {start : σ}

/-- **The invariant rule.** -/
theorem Reaches.invariant {P : σ → Prop} (hstart : P start)
    (hkeeps : ∀ s a s', P s → allowed s a → step s a = some s' → P s') {s : σ}
    (h : Reaches step allowed start s) :
    P s := by
  induction h with
  | refl => exact hstart
  | next _ a hallowed hstep ih => exact hkeeps _ a _ ih hallowed hstep

/-- Take steps one after the other. -/
def takeSteps (step : σ → α → Option σ) : σ → List α → Option σ
  | s, [] => some s
  | s, a :: acts => (step s a).bind fun s' => takeSteps step s' acts

/-- Each action of a list is allowed where it is taken. -/
def AllowedSteps (step : σ → α → Option σ) (allowed : σ → α → Prop) : σ → List α → Prop
  | _, [] => True
  | s, a :: acts => allowed s a ∧ ∀ s', step s a = some s' → AllowedSteps step allowed s' acts

/-- A step that is not possible leads nowhere. -/
theorem forall_mem_none {P : σ → Prop} : ∀ s' ∈ (none : Option σ), P s' := by
  intro s' h
  cases h

/-- A step that is possible leads to one state. -/
theorem forall_mem_some_iff {t : σ} {P : σ → Prop} : (∀ s' ∈ some t, P s') ↔ P t := by
  constructor
  · intro h
    exact h t rfl
  · intro h s' hs'
    cases hs'
    exact h

/-- Whether steps are allowed can be computed. -/
instance decidableAllowedSteps [∀ s a, Decidable (allowed s a)] :
    (s : σ) → (acts : List α) → Decidable (AllowedSteps step allowed s acts)
  | _, [] => inferInstanceAs (Decidable True)
  | s, a :: acts =>
      have : Decidable (∀ s' ∈ step s a, AllowedSteps step allowed s' acts) :=
        match step s a with
        | none => isTrue forall_mem_none
        | some t =>
            have := decidableAllowedSteps t acts
            decidable_of_iff _ forall_mem_some_iff.symm
      inferInstanceAs (Decidable (allowed s a ∧ ∀ s' ∈ step s a, AllowedSteps step allowed s' acts))

/-- Steps that are all allowed make a run. -/
theorem reaches_of_takeSteps {acts : List α} {s s' : σ} (hs : Reaches step allowed start s)
    (hallowed : AllowedSteps step allowed s acts) (h : takeSteps step s acts = some s') :
    Reaches step allowed start s' := by
  induction acts generalizing s with
  | nil =>
      cases h
      exact hs
  | cons a acts ih =>
      obtain ⟨t, hstep, hrest⟩ := Option.bind_eq_some_iff.mp h
      exact ih (hs.next a hallowed.1 hstep) (hallowed.2 t hstep) hrest

/-- Any steps are allowed if all are. -/
theorem allowedSteps_any {acts : List α} {s : σ} : AllowedSteps step anyStep s acts := by
  induction acts generalizing s with
  | nil => exact trivial
  | cons a acts ih => exact ⟨trivial, fun _ _ => ih⟩

end Liters
