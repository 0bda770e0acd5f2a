import Mathlib.Tactic.Common

/-! # Fallible computations

The few rules with which a computation in `Except` is taken apart: a guard `require`, the value of a
`bind` whose first part succeeded, and the inversion of a `bind` that succeeded. -/

namespace Liters

universe u v

variable {ε : Type u} {α β : Type v}

/-- A guard: go on if `p` holds, else fail with `e`. -/
def require (p : Prop) [Decidable p] (e : ε) : Except ε Unit := if p then .ok () else .error e

/-- A guard that holds lets through. -/
theorem require_pos {p : Prop} [Decidable p] (h : p) (e : ε) : require p e = .ok () := if_pos h

/-- A guard that does not hold fails. -/
theorem require_neg {p : Prop} [Decidable p] (h : ¬ p) (e : ε) : require p e = .error e := if_neg h

/-- A guard lets through exactly if it holds. -/
@[simp] theorem require_eq_ok_iff {p : Prop} [Decidable p] {e : ε} {u : Unit} :
    require p e = .ok u ↔ p := by
  by_cases h : p
  · rw [require_pos h]
    exact iff_of_true rfl h
  · rw [require_neg h]
    exact iff_of_false (fun he => nomatch he) h

/-- After a success, a sequence is its continuation. -/
@[simp] theorem ok_bind (a : α) (f : α → Except ε β) : (Except.ok a >>= f) = f a := rfl

/-- After a failure, a sequence fails. -/
@[simp] theorem error_bind (e : ε) (f : α → Except ε β) : (Except.error e >>= f) = .error e := rfl

/-- A sequence succeeds exactly if both its parts do. -/
theorem bind_eq_ok_iff {x : Except ε α} {f : α → Except ε β} {b : β} :
    (x >>= f) = .ok b ↔ ∃ a, x = .ok a ∧ f a = .ok b := by
  cases x with
  | error e => simp
  | ok a => simp

/-- A failing branch in front of a computation is a guard. -/
theorem ite_error_eq_ok_iff {p : Prop} [Decidable p] {e : ε} {x : Except ε α} {a : α} :
    (if p then .error e else x) = .ok a ↔ ¬ p ∧ x = .ok a := by
  by_cases h : p
  · simp [h]
  · simp [h]

/-- A value is a success. -/
@[simp] theorem pure_eq_ok (a : α) : (pure a : Except ε α) = .ok a := rfl

end Liters
