import Liters.Foundation.Effects

/-! # Computations side by side

Two computations that may stop, each on a state of its own. `Both x y s t Q E` says that they do the
same: they return the same value and leave states that `Q` relates, or they stop in the same way and
leave states that `E` relates. The rules take the two apart together. -/

namespace Liters

universe u

variable {ε σ τ α β : Type u}

/-- What two computations do from two states. -/
def Both (x : EStateM ε σ α) (y : EStateM ε τ α) (s : σ) (t : τ) (Q : α → σ → τ → Prop)
    (E : ε → σ → τ → Prop) :
    Prop :=
  match x s, y t with
  | .ok a s', .ok b t' => a = b ∧ Q a s' t'
  | .error e s', .error e' t' => e = e' ∧ E e s' t'
  | _, _ => False

section
variable {x : EStateM ε σ α} {y : EStateM ε τ α} {s : σ} {t : τ} {Q Q' : α → σ → τ → Prop}
  {E E' : ε → σ → τ → Prop}

/-- How two computations do the same. -/
theorem both_cases (h : Both x y s t Q E) :
    (∃ a s' t', x s = .ok a s' ∧ y t = .ok a t' ∧ Q a s' t') ∨
      ∃ e s' t', x s = .error e s' ∧ y t = .error e t' ∧ E e s' t' := by
  unfold Both at h
  cases hx : x s with
  | ok a s' =>
      cases hy : y t with
      | ok b t' =>
          rw [hx, hy] at h
          obtain ⟨rfl, hQ⟩ := h
          exact .inl ⟨a, s', t', rfl, rfl, hQ⟩
      | error e t' =>
          rw [hx, hy] at h
          cases h
  | error e s' =>
      cases hy : y t with
      | ok b t' =>
          rw [hx, hy] at h
          cases h
      | error e' t' =>
          rw [hx, hy] at h
          obtain ⟨rfl, hE⟩ := h
          exact .inr ⟨e, s', t', rfl, rfl, hE⟩

/-- Both computations return. -/
theorem both_of_ok {a : α} {s' : σ} {t' : τ} (hx : x s = .ok a s') (hy : y t = .ok a t')
    (hQ : Q a s' t') :
    Both x y s t Q E := by
  unfold Both
  rw [hx, hy]
  exact ⟨rfl, hQ⟩

/-- Both computations stop. -/
theorem both_of_error {e : ε} {s' : σ} {t' : τ} (hx : x s = .error e s') (hy : y t = .error e t')
    (hE : E e s' t') :
    Both x y s t Q E := by
  unfold Both
  rw [hx, hy]
  exact ⟨rfl, hE⟩

/-- Less may be said of what they leave. -/
theorem Both.mono (h : Both x y s t Q E) (hQ : ∀ a s' t', Q a s' t' → Q' a s' t')
    (hE : ∀ e s' t', E e s' t' → E' e s' t') : Both x y s t Q' E' := by
  rcases both_cases h with ⟨a, s', t', hx, hy, h⟩ | ⟨e, s', t', hx, hy, h⟩
  · exact both_of_ok hx hy (hQ a s' t' h)
  · exact both_of_error hx hy (hE e s' t' h)

/-- What is known of the second computation alone. -/
theorem Both.and_spec {R : α → τ → Prop} {F : ε → τ → Prop} (h : Both x y s t Q E)
    (hy : Spec y t R F) :
    Both x y s t (fun a s' t' => Q a s' t' ∧ R a t') fun e s' t' => E e s' t' ∧ F e t' := by
  unfold Spec at hy
  rcases both_cases h with ⟨a, s', t', hx, heq, h⟩ | ⟨e, s', t', hx, heq, h⟩
  · rw [heq] at hy
    exact both_of_ok hx heq ⟨h, hy⟩
  · rw [heq] at hy
    exact both_of_error hx heq ⟨h, hy⟩

/-- A value on both sides. -/
theorem both_pure {a : α} (h : Q a s t) : Both (pure a) (pure a) s t Q E := ⟨rfl, h⟩

/-- An error on both sides. -/
theorem both_throw {e : ε} (h : E e s t) :
    Both (throw e : EStateM ε σ α) (throw e : EStateM ε τ α) s t Q E :=
  ⟨rfl, h⟩

/-- An update on both sides. -/
theorem both_modify {f : σ → σ} {g : τ → τ} {Q : PUnit → σ → τ → Prop}
    (h : Q PUnit.unit (f s) (g t)) :
    Both (modify f) (modify g) s t Q E := ⟨rfl, h⟩

/-- The second parts run from what the first ones leave. -/
theorem Both.bind {f : α → EStateM ε σ β} {g : α → EStateM ε τ β} {R : β → σ → τ → Prop}
    (h : Both x y s t Q E) (hf : ∀ a s' t', Q a s' t' → Both (f a) (g a) s' t' R E) :
    Both (x >>= f) (y >>= g) s t R E := by
  rcases both_cases h with ⟨a, s', t', hx, hy, hQ⟩ | ⟨e, s', t', hx, hy, hE⟩
  · have hnext := hf a s' t' hQ
    have hrunx : (x >>= f) s = f a s' := by simp only [Bind.bind, EStateM.bind, hx]
    have hruny : (y >>= g) t = g a t' := by simp only [Bind.bind, EStateM.bind, hy]
    unfold Both at hnext ⊢
    rw [hrunx, hruny]
    exact hnext
  · have hstopx : (x >>= f) s = .error e s' := by simp only [Bind.bind, EStateM.bind, hx]
    have hstopy : (y >>= g) t = .error e t' := by simp only [Bind.bind, EStateM.bind, hy]
    exact both_of_error hstopx hstopy hE

/-- Each reads its own state. -/
theorem both_get_bind {f : σ → EStateM ε σ β} {g : τ → EStateM ε τ β} {R : β → σ → τ → Prop}
    (h : Both (f s) (g t) s t R E) : Both (get >>= f) (get >>= g) s t R E := h

end

end Liters
