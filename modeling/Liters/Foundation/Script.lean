import Mathlib.Data.List.Basic
import Mathlib.Tactic.Common

/-! # Scripts that may be cut short

A script reads a store and produces the mutations it makes, in order, and how it ends. A crash
leaves the store with some of the mutations made, from the first on. To show that an invariant
survives every crash, say which mutations are allowed in which store, show that an allowed mutation
keeps the invariant, and show of every script that it only makes allowed ones (`Safe`). -/

namespace Liters

universe u v w

/-- From a store, the mutations made and the outcome. -/
def Script (σ : Type u) (μ : Type v) (ε α : Type w) : Type (max u v w) := σ → List μ × Except ε α

namespace Script

variable {σ : Type u} {μ : Type v} {ε α β : Type w}

/-- Change nothing. -/
def done (a : α) : Script σ μ ε α := fun _ => ([], .ok a)

section
variable (act : σ → μ → σ)

/-- Make mutations one after the other. -/
def applyAll (s : σ) (ms : List μ) : σ := ms.foldl act s

/-- Run `p` and, unless it failed, `q` on what it left. -/
def andThen (p : Script σ μ ε α) (q : α → Script σ μ ε β) : Script σ μ ε β := fun s =>
  match p s with
  | (ms, .ok a) => (ms ++ (q a (applyAll act s ms)).1, (q a (applyAll act s ms)).2)
  | (ms, .error e) => (ms, .error e)

/-- Each mutation is allowed in the store it is made in. -/
def AllowedAll (allowed : σ → μ → Prop) : σ → List μ → Prop
  | _, [] => True
  | s, m :: ms => allowed s m ∧ AllowedAll allowed (act s m) ms

/-- From a store with the invariant a script makes only allowed mutations. -/
def Safe (P : σ → Prop) (allowed : σ → μ → Prop) (p : Script σ μ ε α) : Prop :=
  ∀ s, P s → AllowedAll act allowed s (p s).1

end

variable {act : σ → μ → σ} {P : σ → Prop} {allowed : σ → μ → Prop}

/-- Mutations may be made in two groups. -/
theorem applyAll_append (s : σ) (ms ns : List μ) :
    applyAll act s (ms ++ ns) = applyAll act (applyAll act s ms) ns := by
  simp [applyAll]

/-- They are allowed if those of both groups are, where they are made. -/
theorem allowedAll_append {s : σ} {ms ns : List μ} :
    AllowedAll act allowed s (ms ++ ns) ↔
      AllowedAll act allowed s ms ∧ AllowedAll act allowed (applyAll act s ms) ns := by
  induction ms generalizing s with
  | nil => simp [AllowedAll, applyAll]
  | cons m ms ih => simp [AllowedAll, applyAll, ih, and_assoc]

/-- Whether mutations are allowed can be computed. -/
instance decidableAllowedAll [∀ s m, Decidable (allowed s m)] :
    ∀ (s : σ) (ms : List μ), Decidable (AllowedAll act allowed s ms)
  | _, [] => isTrue trivial
  | s, m :: ms =>
      have := decidableAllowedAll (act s m) ms
      inferInstanceAs (Decidable (allowed s m ∧ AllowedAll act allowed (act s m) ms))

/-- A run that is cut makes allowed mutations as long as the whole run does. -/
theorem AllowedAll.take {s : σ} {ms : List μ} (h : AllowedAll act allowed s ms) (k : Nat) :
    AllowedAll act allowed s (ms.take k) := by
  rw [← List.take_append_drop k ms, allowedAll_append] at h
  exact h.1

/-- Mutations that are allowed in two ways. -/
theorem AllowedAll.and {allowed' : σ → μ → Prop} {s : σ} {ms : List μ}
    (h : AllowedAll act allowed s ms) (h' : AllowedAll act allowed' s ms) :
    AllowedAll act (fun s m => allowed s m ∧ allowed' s m) s ms := by
  induction ms generalizing s with
  | nil => exact trivial
  | cons m ms ih => exact ⟨⟨h.1, h'.1⟩, ih h.2 h'.2⟩

/-! ## What a script leads to -/

/-- From a store a script makes only allowed mutations, and if it returns, then in `Q`. -/
def Yields (act : σ → μ → σ) (s : σ) (p : Script σ μ ε α) (allowed : σ → μ → Prop)
    (Q : α → σ → Prop) : Prop :=
  AllowedAll act allowed s (p s).1 ∧ ∀ a, (p s).2 = .ok a → Q a (applyAll act s (p s).1)

section
variable {s : σ} {p : Script σ μ ε α} {Q Q' : α → σ → Prop}

/-- A script that does nothing leads where it starts. -/
theorem yields_done {a : α} (h : Q a s) : Yields act s (done a : Script σ μ ε α) allowed Q :=
  ⟨trivial, fun b hb => by cases hb; exact h⟩

/-- A script may be said to lead to more. -/
theorem Yields.mono (h : Yields act s p allowed Q) (hQ : ∀ a s', Q a s' → Q' a s') :
    Yields act s p allowed Q' :=
  ⟨h.1, fun a ha => hQ a _ (h.2 a ha)⟩

/-- To go on after a script, know what it leaves. -/
theorem Yields.andThen {q : α → Script σ μ ε β} {R : β → σ → Prop} (h : Yields act s p allowed Q)
    (hq : ∀ a s', Q a s' → Yields act s' (q a) allowed R) :
    Yields act s (p.andThen act q) allowed R := by
  obtain ⟨hp, hpost⟩ := h
  unfold Yields Script.andThen
  rcases hrun : p s with ⟨ms, _ | a⟩
  all_goals
    rw [hrun] at hp hpost
    dsimp only at hp hpost ⊢
  · exact ⟨hp, fun b hb => by cases hb⟩
  · obtain ⟨hallowed, hend⟩ := hq a _ (hpost a rfl)
    refine ⟨allowedAll_append.mpr ⟨hp, hallowed⟩, fun b hb => ?_⟩
    rw [applyAll_append]
    exact hend b hb

end

section
variable (hstep : ∀ s m, P s → allowed s m → P (act s m))
include hstep

/-- Allowed mutations keep the invariant. -/
theorem AllowedAll.keeps {s : σ} {ms : List μ} (h : AllowedAll act allowed s ms) (hs : P s) :
    P (applyAll act s ms) := by
  induction ms generalizing s with
  | nil => exact hs
  | cons m ms ih => exact ih h.2 (hstep s m hs h.1)

/-- A run of allowed mutations keeps the invariant wherever it is cut. -/
theorem AllowedAll.keeps_take {s : σ} {ms : List μ} (h : AllowedAll act allowed s ms) (hs : P s)
    (k : Nat) : P (applyAll act s (ms.take k)) := (h.take k).keeps hstep hs

/-- Mutations that are allowed for another reason while the invariant holds. -/
theorem AllowedAll.imp_of_keeps {allowed' : σ → μ → Prop} {s : σ} {ms : List μ}
    (h : AllowedAll act allowed s ms) (hs : P s) (himp : ∀ s m, P s → allowed s m → allowed' s m) :
    AllowedAll act allowed' s ms := by
  induction ms generalizing s with
  | nil => exact trivial
  | cons m ms ih => exact ⟨himp s m hs h.1, ih h.2 (hstep s m hs h.1)⟩

/-- A script after a safe one that establishes what it relies on. -/
theorem Safe.andThen_post {p : Script σ μ ε α} {q : α → Script σ μ ε β} {Q : α → σ → Prop}
    (hp : p.Safe act P allowed)
    (hpost : ∀ s, P s → ∀ a, (p s).2 = .ok a → Q a (applyAll act s (p s).1))
    (hq : ∀ a, (q a).Safe act (fun s => P s ∧ Q a s) allowed) :
    (p.andThen act q).Safe act P allowed := fun s hs =>
  (Yields.andThen ⟨hp s hs, fun a ha => ⟨(hp s hs).keeps hstep hs, hpost s hs a ha⟩⟩
    fun a s' hs' => ⟨hq a s' hs', fun _ _ => trivial⟩ : Yields act s _ allowed fun _ _ => True).1

/-- Safe scripts one after the other are safe. -/
theorem Safe.andThen {p : Script σ μ ε α} {q : α → Script σ μ ε β} (hp : p.Safe act P allowed)
    (hq : ∀ a, (q a).Safe act P allowed) : (p.andThen act q).Safe act P allowed :=
  hp.andThen_post hstep (Q := fun _ _ => True) (fun _ _ _ _ => trivial) fun a s hs => hq a s hs.1

end

/-- What a safe script returns in. -/
theorem Safe.yields {p : Script σ μ ε α} (hp : p.Safe act P allowed)
    (hstep : ∀ s m, P s → allowed s m → P (act s m)) {s : σ} (hs : P s) :
    Yields act s p allowed fun _ s' => P s' := ⟨hp s hs, fun _ _ => (hp s hs).keeps hstep hs⟩

/-- A script that does nothing is safe. -/
theorem safe_done (a : α) : (done a : Script σ μ ε α).Safe act P allowed := fun _ _ => trivial

/-- Between two neighbouring cuts of a run lies at most one mutation, an allowed one. -/
theorem AllowedAll.take_succ {s : σ} {ms : List μ} (h : AllowedAll act allowed s ms) (k : Nat) :
    applyAll act s (ms.take (k + 1)) = applyAll act s (ms.take k) ∨
      ∃ m, allowed (applyAll act s (ms.take k)) m ∧
        applyAll act s (ms.take (k + 1)) = act (applyAll act s (ms.take k)) m := by
  rw [← List.take_append_drop k ms, allowedAll_append] at h
  cases hrest : ms.drop k with
  | nil =>
      have hlen : ms.length ≤ k := List.drop_eq_nil_iff.mp hrest
      rw [List.take_of_length_le (by omega), List.take_of_length_le hlen]
      exact Or.inl rfl
  | cons m ns =>
      rw [hrest] at h
      have hm : ms[k]? = some m := by
        rw [← List.head?_drop, hrest, List.head?_cons]
      have htake : ms.take (k + 1) = ms.take k ++ [m] := by
        rw [List.take_add_one, hm, Option.toList_some]
      refine Or.inr ⟨m, h.2.1, ?_⟩
      rw [htake, applyAll_append]
      rfl

/-! ## Scripts that do the same -/

/-- Two outcomes that are the same, up to the errors that `R` relates. -/
inductive SameEnd {ε' : Type w} (R : ε → ε' → Prop) : Except ε α → Except ε' α → Prop where
  | ok (a : α) : SameEnd R (.ok a) (.ok a)
  | error {e : ε} {e' : ε'} (h : R e e') : SameEnd R (.error e) (.error e')

section
variable {ε' : Type w} (act) (P) (abs : σ → σ) (absMut : μ → μ) (R : ε → ε' → Prop)

/-- From a store with the property, `q` does on the abstract store what `p` does, and `p` keeps the
property with every mutation. -/
structure Simulates (p : Script σ μ ε α) (q : Script σ μ ε' α) : Prop where
  mutations : ∀ s, P s → (q (abs s)).1 = (p s).1.map absMut
  ends : ∀ s, P s → SameEnd R (p s).2 (q (abs s)).2
  keeps : ∀ s, P s → AllowedAll act (fun s m => P (act s m)) s (p s).1

end

section
variable {ε' : Type w} {abs : σ → σ} {absMut : μ → μ} {R : ε → ε' → Prop}

/-- Two scripts that do nothing do the same. -/
theorem simulates_done (a : α) : Simulates act P abs absMut R (done a) (done a) where
  mutations _ _ := rfl
  ends _ _ := .ok a
  keeps _ _ := trivial

variable (hact : ∀ s m, abs (act s m) = act (abs s) (absMut m))
include hact

/-- Abstract mutations lead to the abstract store. -/
theorem abs_applyAll (s : σ) (ms : List μ) :
    abs (applyAll act s ms) = applyAll act (abs s) (ms.map absMut) := by
  induction ms generalizing s with
  | nil => rfl
  | cons m ms ih =>
      rw [List.map_cons]
      exact (ih (act s m)).trans (congrArg (fun t => applyAll act t (ms.map absMut)) (hact s m))

/-- Scripts one after the other do the same if both do. -/
theorem Simulates.andThen {p : Script σ μ ε α} {q : Script σ μ ε' α} {p' : α → Script σ μ ε β}
    {q' : α → Script σ μ ε' β} (h : Simulates act P abs absMut R p q)
    (h' : ∀ a, Simulates act P abs absMut R (p' a) (q' a)) :
    Simulates act P abs absMut R (p.andThen act p') (q.andThen act q') := by
  have hrun : ∀ s, P s →
      ((q.andThen act q') (abs s)).1 = ((p.andThen act p') s).1.map absMut ∧
        SameEnd R ((p.andThen act p') s).2 ((q.andThen act q') (abs s)).2 ∧
        AllowedAll act (fun s m => P (act s m)) s ((p.andThen act p') s).1 := by
    intro s hs
    have hm := h.mutations s hs
    -- the first scripts run alike, and where both go on their states agree
    have hend := h.ends s hs
    have hk := h.keeps s hs
    unfold Script.andThen
    cases hp : p s with
    | mk ms r =>
        cases hq : q (abs s) with
        | mk ns r' =>
            rw [hp, hq] at hm hend
            rw [hp] at hk
            dsimp only at hm hend hk ⊢
            cases hend with
            -- both stop with an error
            | error he => exact ⟨hm, .error he, hk⟩
            -- both go on with one value, from states that stand for each other
            | ok a =>
                have hstate : applyAll act (abs s) ns = abs (applyAll act s ms) := by
                  rw [hm, abs_applyAll hact]
                have hP : P (applyAll act s ms) :=
                  AllowedAll.keeps (fun s m (_ : P s) (hm : P (act s m)) => hm) hk hs
                dsimp only
                rw [hstate]
                refine ⟨?_, (h' a).ends _ hP, allowedAll_append.mpr ⟨hk, (h' a).keeps _ hP⟩⟩
                rw [hm, (h' a).mutations _ hP, List.map_append]
  exact ⟨fun s hs => (hrun s hs).1, fun s hs => (hrun s hs).2.1, fun s hs => (hrun s hs).2.2⟩

end

end Script

end Liters
