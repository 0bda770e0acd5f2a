import Liters.Foundation.Bytes

/-! # Text

Numbers in text, and text in bytes. Numbers are written with the digits of `Nat.toDigits` and read
by `fromStrRadix`; text is written and read as UTF-8. Texts of printable ASCII are the ones that
survive being cut into lines. -/

namespace Liters

/-! ## Numbers -/

/-- The value of a digit, in either case. -/
def digitValue (ch : Char) : Option Nat :=
  if '0' ≤ ch ∧ ch ≤ '9' then some (ch.toNat - '0'.toNat)
  else if 'a' ≤ ch ∧ ch ≤ 'f' then some (ch.toNat - 'a'.toNat + 10)
  else if 'A' ≤ ch ∧ ch ≤ 'F' then some (ch.toNat - 'A'.toNat + 10)
  else none

/-- Append a digit to a number. -/
def appendDigit (base n : Nat) (ch : Char) : Option Nat :=
  ((digitValue ch).filter (· < base)).map fun d => n * base + d

/-- The number that digits spell in a base. -/
def ofDigits (base : Nat) (digits : List Char) : Option Nat := digits.foldlM (appendDigit base) 0

/-- An unsigned number of so many bits, with at least one digit and perhaps a plus sign. -/
def fromStrRadix (base bits : Nat) (text : List Char) : Option Nat :=
  let digits := if text.head? = some '+' then text.tail else text
  if digits = [] then none else (ofDigits base digits).filter (· < 2 ^ bits)

/-- A digit is read back from its character. -/
theorem digitValue_digitChar {d : Nat} (h : d < 16) : digitValue d.digitChar = some d := by
  have : ∀ d < 16, digitValue (Nat.digitChar d) = some d := by decide
  exact this d h

/-- One more character is one more digit. -/
theorem appendDigit_digitChar {base d : Nat} (n : Nat) (hd : d < base) (hbase : base ≤ 16) :
    appendDigit base n d.digitChar = some (n * base + d) := by
  rw [appendDigit, digitValue_digitChar (by omega), Option.filter_some, if_pos (by simpa using hd),
    Option.map_some]

/-- Digits are read from the left. -/
theorem ofDigits_append_singleton (base : Nat) (digits : List Char) (ch : Char) :
    ofDigits base (digits ++ [ch]) =
      (ofDigits base digits).bind fun n => appendDigit base n ch := by
  unfold ofDigits
  rw [List.foldlM_append]
  simp only [List.foldlM_cons, List.foldlM_nil, bind_pure, Option.bind_eq_bind]

/-- The digits of a number spell it. -/
theorem ofDigits_toDigits {base : Nat} (hlow : 1 < base) (hbase : base ≤ 16) (n : Nat) :
    ofDigits base (Nat.toDigits base n) = some n := by
  induction n using Nat.strong_induction_on with
  | _ n ih =>
      by_cases hn : n < base
      · rw [Nat.toDigits_of_lt_base hn]
        have := appendDigit_digitChar 0 hn hbase
        rw [Nat.zero_mul, Nat.zero_add] at this
        simp [ofDigits, this]
      · have hle : base ≤ n := Nat.not_lt.mp hn
        rw [Nat.toDigits_of_base_le hlow hle, ofDigits_append_singleton,
          ih (n / base) (Nat.div_lt_self (by omega) hlow), Option.bind_some,
          appendDigit_digitChar _ (Nat.mod_lt n (by omega)) hbase, Nat.div_add_mod']

/-- Zeros in front change nothing. -/
theorem ofDigits_replicate_append {base : Nat} (hlow : 1 < base) (hbase : base ≤ 16) (k : Nat)
    (digits : List Char) : ofDigits base (List.replicate k '0' ++ digits) =
      ofDigits base digits := by
  have hzero : appendDigit base 0 '0' = some 0 := by
    have := appendDigit_digitChar 0 (show 0 < base by omega) hbase
    rwa [Nat.zero_mul] at this
  induction k with
  | zero => rfl
  | succ k ih =>
      rw [List.replicate_succ, List.cons_append, ofDigits, List.foldlM_cons, hzero]
      exact ih

/-- The characters of a number are its digits. -/
theorem mem_toDigits {base n : Nat} (hlow : 1 < base) {ch : Char} (h : ch ∈ Nat.toDigits base n) :
    ∃ d < base, ch = d.digitChar := by
  induction n using Nat.strong_induction_on with
  | _ n ih =>
      by_cases hn : n < base
      · rw [Nat.toDigits_of_lt_base hn, List.mem_singleton] at h
        exact ⟨n, hn, h⟩
      · have hle : base ≤ n := Nat.not_lt.mp hn
        rw [Nat.toDigits_of_base_le hlow hle, List.mem_append, List.mem_singleton] at h
        rcases h with h | h
        · exact ih (n / base) (Nat.div_lt_self (by omega) hlow) h
        · exact ⟨n % base, Nat.mod_lt n (by omega), h⟩

/-- A number of the right size is read back from its digits. -/
theorem fromStrRadix_toDigits {base bits n : Nat} (hlow : 1 < base) (hbase : base ≤ 16)
    (hn : n < 2 ^ bits) : fromStrRadix base bits (Nat.toDigits base n) = some n := by
  have hplus : (Nat.toDigits base n).head? ≠ some '+' := by
    intro h
    obtain ⟨d, hd, hch⟩ := mem_toDigits hlow (List.mem_of_head? h)
    have hnone : ∀ d < 16, '+' ≠ Nat.digitChar d := by decide
    exact hnone d (by omega) hch
  rw [fromStrRadix, if_neg hplus]
  rw [if_neg Nat.toDigits_ne_nil, ofDigits_toDigits hlow hbase, Option.filter_some,
    if_pos (by simpa using hn)]

/-! ## Printable text -/

/-- Printable ASCII without the space. -/
def Char.Visible (ch : Char) : Prop := 33 ≤ ch.toNat ∧ ch.toNat < 127

instance (ch : Char) : Decidable (Char.Visible ch) := inferInstanceAs (Decidable (_ ∧ _))

/-- Printable ASCII. -/
def Printable (text : List Char) : Prop := ∀ ch ∈ text, 32 ≤ ch.toNat ∧ ch.toNat < 127

-- by walking the text: characters are finitely many, and trying all of them would not end
instance (text : List Char) : Decidable (Printable text) := List.decidableBAll _ _

/-- A word: visible characters, and at least one. -/
structure Word (text : List Char) : Prop where
  ne_nil : text ≠ []
  visible : ∀ ch ∈ text, Char.Visible ch

instance (text : List Char) : Decidable (Word text) :=
  have : Decidable (∀ ch ∈ text, Char.Visible ch) := List.decidableBAll _ _
  decidable_of_iff (text ≠ [] ∧ ∀ ch ∈ text, Char.Visible ch)
    ⟨fun h => ⟨h.1, h.2⟩, fun h => ⟨h.ne_nil, h.visible⟩⟩

/-- A word can be printed. -/
theorem Word.printable {text : List Char} (h : Word text) : Printable text := by
  intro ch hch
  have := h.visible ch hch
  unfold Char.Visible at this
  omega

/-- Texts that can be printed can be joined. -/
theorem printable_append {text text' : List Char} (h : Printable text) (h' : Printable text') :
    Printable (text ++ text') := by
  intro ch hch
  rcases List.mem_append.mp hch with hch | hch
  · exact h ch hch
  · exact h' ch hch

/-- Digits are visible. -/
theorem visible_digitChar {d : Nat} (h : d < 16) : Char.Visible d.digitChar := by
  have : ∀ d < 16, Char.Visible (Nat.digitChar d) := by decide
  exact this d h

/-- The digits of a number are a word. -/
theorem word_toDigits {base : Nat} (hlow : 1 < base) (hbase : base ≤ 16) (n : Nat) :
    Word (Nat.toDigits base n) where
  ne_nil := Nat.toDigits_ne_nil
  visible := by
    intro ch hch
    obtain ⟨d, hd, rfl⟩ := mem_toDigits hlow hch
    exact visible_digitChar (by omega)

/-! ## White space -/

/-- Unicode white space. -/
def isSpace (ch : Char) : Bool :=
  let n := ch.toNat
  (9 ≤ n && n ≤ 13) || n = 32 || n = 133 || n = 160 || n = 5760 || (8192 ≤ n && n ≤ 8202) ||
    n = 8232
    || n = 8233 || n = 8239 || n = 8287 || n = 12288

/-- A text without the white space around it. -/
def trim (text : List Char) : List Char :=
  ((text.dropWhile isSpace).reverse.dropWhile isSpace).reverse

/-- Visible characters are no white space. -/
theorem isSpace_of_visible {ch : Char} (h : Char.Visible ch) : isSpace ch = false := by
  unfold Char.Visible at h
  unfold isSpace
  simp only [Bool.or_eq_false_iff, Bool.and_eq_false_iff, decide_eq_false_iff_not]
  omega

/-- A word has no white space around it. -/
theorem trim_word {text : List Char} (h : Word text) : trim text = text := by
  have hkeep : ∀ l : List Char, (∀ ch ∈ l, Char.Visible ch) → l.dropWhile isSpace = l := by
    intro l hl
    cases l with
    | nil => rfl
    | cons ch l =>
        rw [List.dropWhile_cons_of_neg]
        rw [isSpace_of_visible (hl ch (List.mem_cons_self ..))]
        exact Bool.false_ne_true
  unfold trim
  rw [hkeep text h.visible, hkeep _ fun ch hch => h.visible ch (List.mem_reverse.mp hch),
    List.reverse_reverse]

/-- A word holds no space. -/
theorem isSpace_of_word {text : List Char} (h : Word text) : ∀ ch ∈ text, isSpace ch = false :=
  fun ch hch => isSpace_of_visible (h.visible ch hch)

/-- White space behind a text is trimmed. -/
theorem trim_append_singleton {text : List Char} {ch : Char} (h : isSpace ch = true)
    (hne : text ≠ []) (hhead : ∀ x ∈ text.head?, isSpace x = false) :
    trim (text ++ [ch]) = trim text := by
  cases text with
  | nil => exact absurd rfl hne
  | cons x text =>
      have hx : ¬ isSpace x = true := by
        rw [hhead x rfl]
        exact Bool.false_ne_true
      unfold trim
      rw [List.cons_append, List.dropWhile_cons_of_neg hx, List.dropWhile_cons_of_neg hx,
        ← List.cons_append, List.reverse_append, List.reverse_singleton, List.singleton_append,
        List.dropWhile_cons_of_pos h]

/-! ## Words -/

/-- Cut a text at the characters that meet `p`. -/
def splitWhen (p : Char → Bool) : List Char → List (List Char)
  | [] => [[]]
  | ch :: chars =>
      if p ch then [] :: splitWhen p chars
      else
        match splitWhen p chars with
        | [] => [[ch]]
        | word :: words => (ch :: word) :: words

/-- A text without separators is one piece. -/
theorem splitWhen_eq_singleton {p : Char → Bool} {text : List Char}
    (h : ∀ ch ∈ text, p ch = false) :
    splitWhen p text = [text] := by
  induction text with
  | nil => rfl
  | cons ch text ih =>
      rw [splitWhen, h ch (List.mem_cons_self ..), ih fun x hx => h x (List.mem_cons_of_mem _ hx)]
      rfl

/-- A text is cut at its first separator. -/
theorem splitWhen_append_cons {p : Char → Bool} {text : List Char} (h : ∀ ch ∈ text, p ch = false)
    {sep : Char} (hsep : p sep = true) (rest : List Char) :
    splitWhen p (text ++ sep :: rest) = text :: splitWhen p rest := by
  induction text with
  | nil => rw [List.nil_append, splitWhen, if_pos hsep]
  | cons ch text ih =>
      rw [List.cons_append, splitWhen, h ch (List.mem_cons_self ..),
        ih fun x hx => h x (List.mem_cons_of_mem _ hx)]
      rfl

/-! ## UTF-8 -/

/-- The bytes of a text. -/
def utf8 (text : List Char) : Bytes := text.flatMap String.utf8EncodeChar

/-- The text of some bytes, unless they are no UTF-8. -/
def fromUtf8 (b : Bytes) : Option (List Char) := b.toByteArray.utf8Decode?.map Array.toList

/-- Text survives being written and read. -/
theorem fromUtf8_utf8 (text : List Char) : fromUtf8 (utf8 text) = some text := by
  have h : text.utf8Encode.utf8Decode? = some text.toArray := List.utf8Decode?_utf8Encode
  show (text.utf8Encode.utf8Decode?).map Array.toList = some text
  rw [h]
  rfl

/-- The encoding of joined texts is joined. -/
theorem utf8_append (text text' : List Char) : utf8 (text ++ text') = utf8 text ++ utf8 text' :=
  List.flatMap_append

/-- Printable text has one byte for each character. -/
theorem utf8_of_printable {text : List Char} (h : Printable text) :
    utf8 text = text.map fun ch => ch.val.toUInt8 := by
  unfold utf8
  induction text with
  | nil => rfl
  | cons ch text ih =>
      have hch := h ch (List.mem_cons_self ..)
      have hsize : ch.utf8Size = 1 := by
        rw [Char.utf8Size_eq_one_iff, UInt32.le_iff_toNat_le]
        have : ch.val.toNat = ch.toNat := rfl
        simp
        omega
      rw [List.flatMap_cons, String.utf8EncodeChar_eq_singleton hsize,
        ih fun x hx => h x (List.mem_cons_of_mem _ hx), List.map_cons, List.singleton_append]

/-- The bytes of printable text are printable. -/
theorem mem_utf8_of_printable {text : List Char} (h : Printable text) {x : UInt8}
    (hx : x ∈ utf8 text) :
    32 ≤ x.toNat ∧ x.toNat < 127 := by
  rw [utf8_of_printable h] at hx
  obtain ⟨ch, hch, rfl⟩ := List.mem_map.mp hx
  have hval : ch.val.toUInt8.toNat = ch.toNat % 256 := UInt32.toNat_toUInt8 ch.val
  have := h ch hch
  omega

/-- A text that can be printed has a byte for each character. -/
theorem length_utf8_of_printable {text : List Char} (h : Printable text) :
    (utf8 text).length = text.length := by
  rw [utf8_of_printable h, List.length_map]

end Liters
