import Liters.Foundation.Text

/-! # Numbers in a fixed number of digits

With leading zeros the digits of the numbers below a power of the base are as many for each of them,
so that digits and numbers correspond one to one and the order of the digits is the order of the
numbers. -/

namespace Liters

/-! ## Lexicographic order -/

section
variable {α β : Type*} [LT α] [LT β]

/-- Behind parts of one length, the first difference decides. -/
theorem append_lt_append_iff {x x' y y' : List α} (hlen : x.length = x'.length) :
    x ++ y < x' ++ y' ↔ x < x' ∨ x = x' ∧ y < y' := by
  induction x generalizing x' with
  | nil =>
      have hnil : x' = [] := List.length_eq_zero_iff.mp hlen.symm
      rw [hnil]
      simp
  | cons a x ih =>
      cases x' with
      | nil => cases hlen
      | cons b x' =>
          have hrest := @ih x' (Nat.succ.inj hlen)
          rw [List.cons_append, List.cons_append, List.cons_lt_cons_iff, List.cons_lt_cons_iff,
            hrest, List.cons.injEq]
          tauto

/-- A map that keeps the order of the elements keeps the order of the lists. -/
theorem map_lt_map_iff {f : α → β} {x x' : List α}
    (hf : ∀ a ∈ x, ∀ b ∈ x', (f a < f b ↔ a < b) ∧ (f a = f b ↔ a = b)) :
    x.map f < x'.map f ↔ x < x' := by
  induction x generalizing x' with
  | nil =>
      cases x' with
      | nil => simp
      | cons b x' => simp
  | cons a x ih =>
      cases x' with
      | nil => simp
      | cons b x' =>
          obtain ⟨hlt, heq⟩ := hf a (List.mem_cons_self ..) b (List.mem_cons_self ..)
          have hrest := ih fun a' ha b' hb =>
            hf a' (List.mem_cons_of_mem _ ha) b' (List.mem_cons_of_mem _ hb)
          rw [List.map_cons, List.map_cons, List.cons_lt_cons_iff, List.cons_lt_cons_iff, hlt, heq,
            hrest]

end

/-! ## Digits -/

/-- The last `k` digits of a number, the highest first. -/
def digitsOf (base : Nat) : Nat → Nat → List Nat
  | 0, _ => []
  | k + 1, n => n / base ^ k :: digitsOf base k (n % base ^ k)

section
variable {base : Nat}

/-- Each digit is below the base. -/
theorem mem_digitsOf_lt (hbase : 0 < base) {k n d : Nat} (hn : n < base ^ k)
    (h : d ∈ digitsOf base k n) :
    d < base := by
  induction k generalizing n with
  | zero => cases h
  | succ k ih =>
      have hpos : 0 < base ^ k := Nat.pow_pos hbase
      rcases List.mem_cons.mp h with rfl | h
      · rw [Nat.div_lt_iff_lt_mul hpos, ← Nat.pow_succ']
        exact hn
      · exact ih (Nat.mod_lt _ hpos) h

/-- Quotients decide, and remainders where these are equal. -/
theorem lt_iff_div_mod {m n b : Nat} (hb : 0 < b) :
    m / b < n / b ∨ m / b = n / b ∧ m % b < n % b ↔ m < n := by
  have hm := Nat.div_add_mod m b
  have hn := Nat.div_add_mod n b
  constructor
  · rintro (hlt | ⟨heq, hlt⟩)
    · calc m = b * (m / b) + m % b := hm.symm
        _ < b * (m / b) + b := Nat.add_lt_add_left (Nat.mod_lt m hb) _
        _ = b * (m / b + 1) := (Nat.mul_succ b (m / b)).symm
        _ ≤ b * (n / b) := Nat.mul_le_mul_left b hlt
        _ ≤ n := Nat.mul_div_le n b
    · rw [heq] at hm
      omega
  · intro hlt
    rcases Nat.lt_or_eq_of_le (Nat.div_le_div_right (c := b) hlt.le) with hdiv | hdiv
    · exact .inl hdiv
    · rw [hdiv] at hm
      exact .inr ⟨hdiv, by omega⟩

/-- The order of the digits is the order of the numbers. -/
theorem digitsOf_lt_iff (hbase : 0 < base) {k m n : Nat} (hm : m < base ^ k) (hn : n < base ^ k) :
    digitsOf base k m < digitsOf base k n ↔ m < n := by
  induction k generalizing m n with
  | zero =>
      rw [Nat.pow_zero] at hm hn
      simp only [digitsOf, List.not_lt_nil, false_iff]
      omega
  | succ k ih =>
      have hpos : 0 < base ^ k := Nat.pow_pos hbase
      rw [digitsOf, digitsOf, List.cons_lt_cons_iff, ih (Nat.mod_lt _ hpos) (Nat.mod_lt _ hpos)]
      exact lt_iff_div_mod hpos

/-- Text of digits only is the digits of some number, which it spells behind any other digits. -/
theorem exists_digitsOf (hbase : base ≤ 16) {text : List Char}
    (h : ∀ ch ∈ text, ∃ d < base, ch = Nat.digitChar d) :
    ∃ v < base ^ text.length, text = (digitsOf base text.length v).map Nat.digitChar ∧
      ∀ a, text.foldlM (appendDigit base) a = some (a * base ^ text.length + v) := by
  induction text with
  | nil => exact ⟨0, Nat.one_pos, rfl, fun a => by simp⟩
  | cons ch text ih =>
      obtain ⟨d, hd, rfl⟩ := h ch (List.mem_cons_self ..)
      obtain ⟨v, hv, htext, hfold⟩ := ih fun x hx => h x (List.mem_cons_of_mem _ hx)
      have hpos : 0 < base ^ text.length := Nat.zero_lt_of_lt hv
      have hdiv : (d * base ^ text.length + v) / base ^ text.length = d := by
        rw [Nat.mul_comm, Nat.mul_add_div hpos, Nat.div_eq_of_lt hv, Nat.add_zero]
      have hmod : (d * base ^ text.length + v) % base ^ text.length = v := by
        rw [Nat.mul_comm, Nat.mul_add_mod, Nat.mod_eq_of_lt hv]
      refine ⟨d * base ^ text.length + v, ?_, ?_, fun a => ?_⟩
      · calc d * base ^ text.length + v < d * base ^ text.length + base ^ text.length := by omega
          _ = (d + 1) * base ^ text.length := (Nat.succ_mul _ _).symm
          _ ≤ base * base ^ text.length := Nat.mul_le_mul_right _ hd
          _ = base ^ (text.length + 1) := (Nat.pow_succ').symm
      · rw [List.length_cons, digitsOf, hdiv, hmod, List.map_cons, ← htext]
      · rw [List.foldlM_cons, appendDigit_digitChar a hd hbase, List.length_cons]
        show text.foldlM (appendDigit base) (a * base + d) = _
        rw [hfold, Nat.pow_succ']
        congr 1
        ring

end

end Liters
