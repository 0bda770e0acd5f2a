import Mathlib.Tactic.Ring
import Liters.Foundation.Result

/-! # Machine arithmetic that reports its faults

Additions, subtractions, products and casts of 64-bit integers on mathematical numbers: where the
machine would leave the range, the computation stops with a fault, apart from the errors it returns
by itself. A loop that is given as many rounds as it can need and needs more is a fault too. Where
nothing leaves its range a checked computation is the plain one. -/

namespace Liters

/-- One more failure in a row. -/
def saturatingSucc (attempt : Nat) : Nat := min (attempt + 1) (2 ^ 32 - 1)

namespace Checked

universe u v

/-- What goes wrong on a machine and not in the program's own errors. -/
inductive Fault where
  /-- A sum, difference or product outside its type. -/
  | overflow
  /-- A cast that changes the value. -/
  | wrapped
  /-- A loop that does not end. -/
  | endless
deriving DecidableEq

/-- How a computation stops. -/
inductive Stop (ε : Type u) where
  | fault (f : Fault)
  | typed (e : ε)
deriving DecidableEq

variable {ε : Type u} {α β : Type v}

/-- A computation without arithmetic of its own. -/
def plain : Except ε α → Except (Stop ε) α
  | .ok a => .ok a
  | .error e => .error (.typed e)

/-- Errors become errors of the caller; faults stay faults. -/
def mapTyped {ε' : Type u} (g : ε → ε') : Except (Stop ε) α → Except (Stop ε') α
  | .ok a => .ok a
  | .error (.fault f) => .error (.fault f)
  | .error (.typed e) => .error (.typed (g e))

/-- Addition in `u64`. -/
def addU64 (a b : Nat) : Except (Stop ε) Nat :=
  if a + b < 2 ^ 64 then .ok (a + b) else .error (.fault .overflow)

/-- Subtraction in `u64`. -/
def subU64 (a b : Nat) : Except (Stop ε) Nat :=
  if b ≤ a then .ok (a - b) else .error (.fault .overflow)

/-- Multiplication in `u64`. -/
def mulU64 (a b : Nat) : Except (Stop ε) Nat :=
  if a * b < 2 ^ 64 then .ok (a * b) else .error (.fault .overflow)

/-- What an `i64` can hold. -/
def IsI64 (a : Int) : Prop := -2 ^ 63 ≤ a ∧ a < 2 ^ 63

instance (a : Int) : Decidable (IsI64 a) := inferInstanceAs (Decidable (_ ∧ _))

/-- Addition in `i64`. -/
def addI64 (a b : Int) : Except (Stop ε) Int :=
  if IsI64 (a + b) then .ok (a + b) else .error (.fault .overflow)

/-- Subtraction in `i64`. -/
def subI64 (a b : Int) : Except (Stop ε) Int :=
  if IsI64 (a - b) then .ok (a - b) else .error (.fault .overflow)

/-- The cast from `i64` to `u64`. -/
def asU64 (a : Int) : Except (Stop ε) Nat := if 0 ≤ a then .ok a.toNat else .error (.fault .wrapped)

/-- The cast from `u64` to `i64`. -/
def asI64 (n : Nat) : Except (Stop ε) Int := if n < 2 ^ 63 then .ok n else .error (.fault .wrapped)

/-- A computation that meets no fault. -/
def Sound (x : Except (Stop ε) α) : Prop := ∀ f, x ≠ .error (.fault f)

/-- A value stays a value. -/
@[simp] theorem plain_ok (a : α) : plain (.ok a : Except ε α) = .ok a := rfl

/-- Steps without arithmetic of their own. -/
theorem plain_bind (x : Except ε α) (f : α → Except ε β) :
    plain (x >>= f) = plain x >>= fun a => plain (f a) := by
  cases x with
  | ok a => rfl
  | error e => rfl

/-- Renaming typed errors adds no panic. -/
theorem Sound.mapTyped {ε' : Type u} {x : Except (Stop ε) α} (h : Sound x) (g : ε → ε') :
    Sound (mapTyped g x) := by
  intro f hf
  rcases x with (f' | e) | a
  · exact h f' rfl
  · cases hf
  · cases hf

/-- What succeeds with renamed errors succeeded before. -/
theorem mapTyped_eq_ok {ε' : Type u} {g : ε → ε'} {x : Except (Stop ε) α} {a : α}
    (h : mapTyped g x = .ok a) :
    x = .ok a := by
  rcases x with (f | e) | a'
  · cases h
  · cases h
  · cases h
    rfl

/-- A sequence of computations without panics has none. -/
theorem Sound.bind {x : Except (Stop ε) α} {f : α → Except (Stop ε) β} (h : Sound x)
    (hf : ∀ a, x = .ok a → Sound (f a)) : Sound (x >>= f) := by
  rcases x with (f' | e) | a
  · exact absurd rfl (h f')
  · intro f' heq
    cases heq
  · exact hf a rfl

/-- A value is no panic. -/
theorem Sound.ok (a : α) : Sound (.ok a : Except (Stop ε) α) := by
  intro f h
  cases h

/-- A typed error is no panic. -/
theorem Sound.typed (e : ε) : Sound (.error (.typed e) : Except (Stop ε) α) := by
  intro f h
  cases h

/-- Code without arithmetic of its own does not panic. -/
theorem plain_sound (x : Except ε α) : Sound (plain x) := by
  intro f h
  cases x with
  | ok a => cases h
  | error e => cases h

/-- It succeeds exactly if the code does. -/
theorem plain_eq_ok_iff {x : Except ε α} {a : α} : plain x = .ok a ↔ x = .ok a := by
  cases x with
  | ok a' => rw [plain_ok, Except.ok.injEq, Except.ok.injEq]
  | error e =>
      constructor
      · intro h
        cases h
      · intro h
        cases h

/-- Addition within 64 bits does not overflow. -/
theorem addU64_eq {a b : Nat} (h : a + b < 2 ^ 64) :
    (addU64 a b : Except (Stop ε) Nat) = .ok (a + b) := if_pos h

/-- Subtraction of what is no greater does not overflow. -/
theorem subU64_eq {a b : Nat} (h : b ≤ a) : (subU64 a b : Except (Stop ε) Nat) = .ok (a - b) :=
  if_pos h

/-- Multiplication within 64 bits does not overflow. -/
theorem mulU64_eq {a b : Nat} (h : a * b < 2 ^ 64) :
    (mulU64 a b : Except (Stop ε) Nat) = .ok (a * b) := if_pos h

/-- Signed addition within range does not overflow. -/
theorem addI64_eq {a b : Int} (h : IsI64 (a + b)) :
    (addI64 a b : Except (Stop ε) Int) = .ok (a + b) := if_pos h

/-- Signed subtraction within range does not overflow. -/
theorem subI64_eq {a b : Int} (h : IsI64 (a - b)) :
    (subI64 a b : Except (Stop ε) Int) = .ok (a - b) := if_pos h

/-- A signed number that is not negative converts to itself. -/
theorem asU64_eq {a : Int} (h : 0 ≤ a) : (asU64 a : Except (Stop ε) Nat) = .ok a.toNat := if_pos h

/-- An unsigned number below 2^63 converts to itself. -/
theorem asI64_eq {n : Nat} (h : n < 2 ^ 63) : (asI64 n : Except (Stop ε) Int) = .ok n := if_pos h

end Checked

end Liters
