import Mathlib.Tactic.Common

/-! # Computations that may stop

Stateful code that returns a value or stops early is a computation in `EStateM`, where the state
reached is kept in both cases. `Spec x s Q E` says that `x`, run from `s`, ends in `Q` if it returns
and in `E` if it stops; the rules below take a computation apart. -/

namespace Liters

universe u

variable {ε σ α β : Type u}

/-- What a computation does from a state: `Q` if it returns, `E` if it stops. -/
def Spec (x : EStateM ε σ α) (s : σ) (Q : α → σ → Prop) (E : ε → σ → Prop) : Prop :=
  match x s with
  | .ok a s' => Q a s'
  | .error e s' => E e s'

section
variable {x : EStateM ε σ α} {s : σ} {Q Q' : α → σ → Prop} {E E' : ε → σ → Prop}

/-- A specification may promise less. -/
theorem Spec.mono (h : Spec x s Q E) (hQ : ∀ a s', Q a s' → Q' a s')
    (hE : ∀ e s', E e s' → E' e s') : Spec x s Q' E' := by
  unfold Spec at *
  cases hx : x s with
  | ok a s' =>
      rw [hx] at h
      exact hQ a s' h
  | error e s' =>
      rw [hx] at h
      exact hE e s' h

/-- What always holds. -/
theorem spec_of_forall (hQ : ∀ a s', Q a s') (hE : ∀ e s', E e s') : Spec x s Q E := by
  unfold Spec
  cases x s with
  | ok a s' => exact hQ a s'
  | error e s' => exact hE e s'

/-- Two specifications hold together. -/
theorem Spec.and (h : Spec x s Q E) (h' : Spec x s Q' E') :
    Spec x s (fun a s' => Q a s' ∧ Q' a s') fun e s' => E e s' ∧ E' e s' := by
  unfold Spec at *
  cases hx : x s with
  | ok a s' =>
      rw [hx] at h h'
      exact ⟨h, h'⟩
  | error e s' =>
      rw [hx] at h h'
      exact ⟨h, h'⟩

/-- A value changes nothing. -/
@[simp] theorem spec_pure {a : α} : Spec (pure a) s Q E ↔ Q a s := Iff.rfl

/-- An error changes nothing. -/
@[simp] theorem spec_throw {e : ε} : Spec (throw e : EStateM ε σ α) s Q E ↔ E e s := Iff.rfl

/-- Reading the state returns it. -/
@[simp] theorem spec_get {Q : σ → σ → Prop} : Spec get s Q E ↔ Q s s := Iff.rfl

/-- An update leaves the updated state. -/
@[simp] theorem spec_modify {f : σ → σ} {Q : PUnit → σ → Prop} :
    Spec (modify f) s Q E ↔ Q PUnit.unit (f s) := Iff.rfl

/-- A sequence: the second part runs from what the first one leaves. -/
theorem spec_bind {f : α → EStateM ε σ β} {R : β → σ → Prop} :
    Spec (x >>= f) s R E ↔ Spec x s (fun a s' => Spec (f a) s' R E) E := by
  have hrun : (x >>= f) s = match x s with
      | .ok a s' => f a s'
      | .error e s' => .error e s' := rfl
  unfold Spec
  rw [hrun]
  cases x s with
  | ok a s' => exact Iff.rfl
  | error e s' => exact Iff.rfl

/-- To go on after a first part, know what it leaves. -/
theorem Spec.bind {f : α → EStateM ε σ β} {R : β → σ → Prop} (h : Spec x s Q E)
    (hf : ∀ a s', Q a s' → Spec (f a) s' R E) : Spec (x >>= f) s R E :=
  spec_bind.mpr (h.mono hf fun _ _ he => he)

/-- A handler runs from what the computation left when it stopped. -/
theorem Spec.tryCatch {handler : ε → EStateM ε σ α} (h : Spec x s Q E')
    (hcatch : ∀ e s', E' e s' → Spec (handler e) s' Q E) : Spec (tryCatch x handler) s Q E := by
  cases hx : x s with
  | ok a s' =>
      have hrun : MonadExcept.tryCatch x handler s = .ok a s' := by
        show EStateM.tryCatch x handler s = _
        rw [EStateM.tryCatch, hx]
      unfold Spec at h ⊢
      rw [hx] at h
      rw [hrun]
      exact h
  | error e s' =>
      have hrun : MonadExcept.tryCatch x handler s = handler e s' := by
        show EStateM.tryCatch x handler s = _
        rw [EStateM.tryCatch, hx]
        rfl
      have hnext := hcatch e s'
      unfold Spec at h hnext ⊢
      rw [hx] at h
      rw [hrun]
      exact hnext h

end

end Liters
