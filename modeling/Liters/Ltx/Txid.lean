import Liters.Foundation.Text
import Liters.Ltx.Types

/-! # Transaction numbers in text

File names, frame lines and position files carry a transaction number in sixteen hexadecimal
digits. -/

namespace Liters

/-- A transaction number in sixteen hexadecimal digits. -/
def txidText (txid : Nat) : List Char := (hexPad 16 txid).toList

/-- `Txid::parse`: sixteen hexadecimal digits. -/
def parseTxid (text : List Char) : Option Nat :=
  if text.length = 16 ∧ text.all fun ch =>
    (digitValue ch).isSome then fromStrRadix 16 64 text else none

/-- A TXID's text is its hex digits behind zeros. -/
theorem txidText_eq (n : Nat) :
    txidText n = List.replicate (16 - (Nat.toDigits 16 n).length) '0' ++ Nat.toDigits 16 n := by
  rw [txidText, hexPad, String.toList_ofList]

/-- The digits of a transaction number spell it. -/
theorem ofDigits_txidText (n : Nat) : ofDigits 16 (txidText n) = some n := by
  rw [txidText_eq, ofDigits_replicate_append (by decide) le_rfl,
    ofDigits_toDigits (by decide) le_rfl]

/-- Different TXIDs have different texts. -/
theorem txidText_injective : Function.Injective txidText := by
  intro m n h
  have heq := ofDigits_txidText m
  rw [h, ofDigits_txidText n] at heq
  exact (Option.some.inj heq).symm

/-- A 64-bit TXID has 16 digits. -/
theorem length_txidText {n : Nat} (hn : n < 2 ^ 64) : (txidText n).length = 16 := by
  have hdigits : (Nat.toDigits 16 n).length ≤ 16 :=
    (Nat.length_toDigits_le_iff (by decide) (by decide)).mpr (hn.trans_eq (by norm_num))
  rw [txidText_eq, List.length_append, List.length_replicate]
  omega

/-- Every character of a TXID's text is a hex digit. -/
theorem mem_txidText {n : Nat} {ch : Char} (h : ch ∈ txidText n) :
    ∃ d < 16, ch = Nat.digitChar d := by
  rw [txidText_eq] at h
  rcases List.mem_append.mp h with h | h
  · exact ⟨0, by decide, List.eq_of_mem_replicate h⟩
  · exact mem_toDigits (by decide) h

/-- A TXID's text is one word. -/
theorem word_txidText {n : Nat} (hn : n < 2 ^ 64) : Word (txidText n) where
  ne_nil := by
    intro h
    have := length_txidText hn
    rw [h] at this
    cases this
  visible := by
    intro ch hch
    obtain ⟨d, hd, rfl⟩ := mem_txidText hch
    exact visible_digitChar hd

/-- A transaction number is read back. -/
theorem parseTxid_txidText {n : Nat} (hn : n < 2 ^ 64) : parseTxid (txidText n) = some n := by
  have hall : (txidText n).all (fun ch => (digitValue ch).isSome) = true := by
    rw [List.all_eq_true]
    intro ch hch
    obtain ⟨d, hd, rfl⟩ := mem_txidText hch
    rw [digitValue_digitChar hd]
    rfl
  have hplus : (txidText n).head? ≠ some '+' := by
    intro h
    obtain ⟨d, hd, hch⟩ := mem_txidText (List.mem_of_head? h)
    have hnone : ∀ d < 16, '+' ≠ Nat.digitChar d := by decide
    exact hnone d hd hch
  rw [parseTxid, if_pos ⟨length_txidText hn, hall⟩, fromStrRadix, if_neg hplus,
    if_neg (word_txidText hn).ne_nil, txidText_eq,
    ofDigits_replicate_append (by decide) (by decide), ofDigits_toDigits (by decide) (by decide),
    Option.filter_some, if_pos (by simpa using hn)]

end Liters
