import Liters.Foundation.Digits
import Liters.Foundation.Result
import Liters.Ltx.Txid

/-! # File names

`format_filename` and `parse_filename` (`types.rs`), on the bytes of a name. Everywhere else a file
is known by the range that is parsed from its name, so names and ranges have to correspond one to
one, and in order. -/

namespace Liters

namespace Ltx

/-- What stops a program. -/
inductive Panic where
  | notCharBoundary
deriving DecidableEq

/-- `format_filename`. -/
def formatFilename (minTxid maxTxid : UInt64) : String :=
  String.ofList (txidText minTxid.toNat ++ '-' :: (txidText maxTxid.toNat ++ ".ltx".toList))

/-- `str::strip_suffix`. -/
def stripSuffix (suffix text : List Char) : Option (List Char) :=
  if suffix <:+ text then some (text.take (text.length - suffix.length)) else none

/-- The parts of a text before and behind a byte offset, which has to lie between two characters. -/
def splitAtByte : Nat → List Char → Except Panic (List Char × List Char)
  | 0, text => .ok ([], text)
  | _ + 1, [] => .error .notCharBoundary
  | n + 1, ch :: text =>
      if ch.utf8Size ≤ n + 1 then
        (splitAtByte (n + 1 - ch.utf8Size) text).map fun parts => (ch :: parts.1, parts.2)
      else .error .notCharBoundary

/-- The bytes that are let through: decimal digits and `a` to `f`. -/
def isNameDigit (b : UInt8) : Bool := (48 ≤ b && b ≤ 57) || (97 ≤ b && b ≤ 102)

/-- `parse_filename`. The two ranges of bytes are cut out as texts, which stops the program unless
the cuts lie between characters. -/
def parseFilename (name : String) : Except Panic (Option (UInt64 × UInt64)) :=
  match stripSuffix ".ltx".toList name.toList with
  | none => .ok none
  | some rest =>
      let bytes := utf8 rest
      if bytes.length ≠ 33 ∨ bytes[16]? ≠ some 45 then .ok none
      else if ¬ (bytes.take 16 ++ bytes.drop 17).all isNameDigit then .ok none
      else do
        let (text, _) ← splitAtByte 16 rest
        match parseTxid text with
        | none => return none
        | some minTxid =>
            let (_, text) ← splitAtByte 17 rest
            return (parseTxid text).map fun maxTxid => (UInt64.ofNat minTxid, UInt64.ofNat maxTxid)

/-! ## Sixteen digits -/

/-- A transaction number is its sixteen digits. -/
theorem txidText_eq_digitsOf {n : Nat} (hn : n < 2 ^ 64) :
    txidText n = (digitsOf 16 16 n).map Nat.digitChar := by
  obtain ⟨v, -, htext, hfold⟩ := exists_digitsOf le_rfl fun ch => @mem_txidText n ch
  have hspell := ofDigits_txidText n
  rw [ofDigits, hfold 0, Nat.zero_mul, Nat.zero_add, Option.some_inj] at hspell
  rw [length_txidText hn, hspell] at htext
  exact htext

/-- Sixteen digits are read as the number that has them. -/
theorem exists_txidText {text : List Char} (hlen : text.length = 16)
    (h : ∀ ch ∈ text, ∃ d < 16, ch = Nat.digitChar d) : ∃ n < 2 ^ 64, text = txidText n := by
  obtain ⟨v, hv, htext, -⟩ := exists_digitsOf le_rfl h
  rw [hlen] at hv htext
  have hlt : v < 2 ^ 64 := hv.trans_eq (by norm_num)
  exact ⟨v, hlt, htext.trans (txidText_eq_digitsOf hlt).symm⟩

/-- A TXID's text is printable. -/
theorem printable_txidText {n : Nat} (hn : n < 2 ^ 64) : Printable (txidText n) :=
  (word_txidText hn).printable

/-- The order of the bytes of two digits. -/
theorem digitByte_lt_iff : ∀ d < 16, ∀ e < 16,
    ((Nat.digitChar d).val.toUInt8 < (Nat.digitChar e).val.toUInt8 ↔ d < e) ∧
      ((Nat.digitChar d).val.toUInt8 = (Nat.digitChar e).val.toUInt8 ↔ d = e) := by decide

/-- The order of the bytes of two transaction numbers. -/
theorem utf8_txidText_lt_iff {m n : Nat} (hm : m < 2 ^ 64) (hn : n < 2 ^ 64) :
    utf8 (txidText m) < utf8 (txidText n) ↔ m < n := by
  have hm' : m < 16 ^ 16 := hm.trans_eq (by norm_num)
  have hn' : n < 16 ^ 16 := hn.trans_eq (by norm_num)
  rw [utf8_of_printable (printable_txidText hm), utf8_of_printable (printable_txidText hn),
    txidText_eq_digitsOf hm, txidText_eq_digitsOf hn, List.map_map, List.map_map]
  refine (map_lt_map_iff fun d hd e he => ?_).trans (digitsOf_lt_iff (by decide) hm' hn')
  exact digitByte_lt_iff d (mem_digitsOf_lt (by decide) hm' hd) e
    (mem_digitsOf_lt (by decide) hn' he)

/-! ## Cutting at bytes -/

/-- Behind characters of one byte each, a cut at their number is between characters. -/
theorem splitAtByte_append {front : List Char} (hfront : ∀ ch ∈ front, ch.utf8Size = 1)
    (text : List Char) :
    splitAtByte front.length (front ++ text) = .ok (front, text) := by
  induction front with
  | nil => rw [List.length_nil, List.nil_append, splitAtByte]
  | cons ch front ih =>
      have hch := hfront ch (List.mem_cons_self ..)
      rw [List.length_cons, List.cons_append, splitAtByte, hch,
        if_pos (Nat.succ_le_succ (Nat.zero_le _)), Nat.add_sub_cancel, ih fun x hx =>
        hfront x (List.mem_cons_of_mem _ hx)]
      rfl

/-- Printable characters have one byte each. -/
theorem utf8Size_of_printable {text : List Char} (h : Printable text) :
    ∀ ch ∈ text, ch.utf8Size = 1 := by
  intro ch hch
  have hrange := h ch hch
  have hval : ch.val.toNat = ch.toNat := rfl
  rw [Char.utf8Size_eq_one_iff, UInt32.le_iff_toNat_le, hval]
  show ch.toNat ≤ 127
  omega

/-- Different texts have different bytes. -/
theorem utf8_injective : Function.Injective utf8 := by
  intro text text' h
  have heq := fromUtf8_utf8 text
  rw [h, fromUtf8_utf8 text'] at heq
  exact (Option.some.inj heq).symm

/-- The text of some printable bytes. -/
def asciiText (b : Bytes) : List Char := b.map fun x => Char.ofNat x.toNat

/-- An ASCII byte is a character of the same number. -/
theorem toNat_ofNat_byte {x : UInt8} (h : x.toNat < 127) :
    (Char.ofNat x.toNat).toNat = x.toNat := by
  have hvalid : x.toNat.isValidChar := .inl (by omega)
  rw [Char.ofNat, dif_pos hvalid]
  rfl

/-- Bytes that are printable are the bytes of their text, and of no other. -/
theorem eq_asciiText {text : List Char} (h : ∀ x ∈ utf8 text, 32 ≤ x.toNat ∧ x.toNat < 127) :
    text = asciiText (utf8 text) ∧ Printable text := by
  have hprint : Printable (asciiText (utf8 text)) := by
    intro ch hch
    obtain ⟨x, hx, rfl⟩ := List.mem_map.mp hch
    rw [toNat_ofNat_byte (h x hx).2]
    exact h x hx
  have hbytes : utf8 (asciiText (utf8 text)) = utf8 text := by
    rw [utf8_of_printable hprint, asciiText, List.map_map]
    refine (List.map_congr_left fun x hx => ?_).trans (List.map_id _)
    have hval : (Char.ofNat x.toNat).val.toNat = x.toNat := toNat_ofNat_byte (h x hx).2
    apply UInt8.toNat_inj.mp
    rw [Function.comp_apply, UInt32.toNat_toUInt8, hval]
    exact Nat.mod_eq_of_lt x.toNat_lt
  have heq := utf8_injective hbytes
  exact ⟨heq.symm, heq ▸ hprint⟩

/-! ## Names and ranges -/

/-- A byte that is let through is a digit. -/
theorem digitChar_of_isNameDigit {x : UInt8} (h : isNameDigit x = true) :
    32 ≤ x.toNat ∧ x.toNat < 127 ∧ ∃ d < 16, Char.ofNat x.toNat = Nat.digitChar d := by
  have hall : ∀ n < 256, isNameDigit (UInt8.ofNat n) = true →
      32 ≤ n ∧ n < 127 ∧ ∃ d < 16, Char.ofNat n = Nat.digitChar d := by decide +kernel
  exact hall x.toNat x.toNat_lt (by rwa [UInt8.ofNat_toNat])

/-- A hex digit is a digit of file names. -/
theorem isNameDigit_digitChar : ∀ d < 16, isNameDigit (Nat.digitChar d).val.toUInt8 = true := by
  decide

/-- What is left of a name without its ending, where that ending is there. -/
theorem stripSuffix_append (suffix text : List Char) :
    stripSuffix suffix (text ++ suffix) = some text := by
  rw [stripSuffix, if_pos ⟨text, rfl⟩, List.length_append, Nat.add_sub_cancel, List.take_left]

/-- What is left of a text without its suffix. -/
theorem stripSuffix_eq_some {suffix text rest : List Char}
    (h : stripSuffix suffix text = some rest) :
    text = rest ++ suffix := by
  unfold stripSuffix at h
  split at h
  · rename_i hsuffix
    obtain ⟨front, rfl⟩ := hsuffix
    rw [List.length_append, Nat.add_sub_cancel, List.take_left] at h
    rw [Option.some.inj h]
  · cases h

/-- The two numbers of a name. -/
def rangeText (m n : Nat) : List Char := txidText m ++ '-' :: txidText n

/-- A file name is its two TXIDs and its extension. -/
theorem toList_formatFilename (a b : UInt64) :
    (formatFilename a b).toList = rangeText a.toNat b.toNat ++ ".ltx".toList := by
  rw [formatFilename, String.toList_ofList, rangeText, List.append_assoc, List.cons_append]

/-- The bytes between which the numbers stand. -/
theorem utf8_rangeText {m n : Nat} (hm : m < 2 ^ 64) (hn : n < 2 ^ 64) :
    utf8 (rangeText m n) = utf8 (txidText m) ++ 45 :: utf8 (txidText n) ∧
    (utf8 (txidText m)).length = 16 ∧
      (utf8 (txidText n)).length = 16 := by
  refine ⟨?_, ?_, ?_⟩
  · have hdash : utf8 ('-' :: txidText n) = 45 :: utf8 (txidText n) := by
      rw [utf8, List.flatMap_cons]
      rfl
    rw [rangeText, utf8_append, hdash]
  · rw [length_utf8_of_printable (printable_txidText hm), length_txidText hm]
  · rw [length_utf8_of_printable (printable_txidText hn), length_txidText hn]

/-- The bytes of a transaction number are let through. -/
theorem isNameDigit_utf8_txidText {n : Nat} (hn : n < 2 ^ 64) :
    ∀ x ∈ utf8 (txidText n), isNameDigit x = true := by
  intro x hx
  rw [utf8_of_printable (printable_txidText hn)] at hx
  obtain ⟨ch, hch, rfl⟩ := List.mem_map.mp hx
  obtain ⟨d, hd, rfl⟩ := mem_txidText hch
  exact isNameDigit_digitChar d hd

/-- A name is read back as its range. -/
theorem parseFilename_range {m n : Nat} (hm : m < 2 ^ 64) (hn : n < 2 ^ 64) :
    parseFilename (String.ofList (rangeText m n ++ ".ltx".toList)) =
      .ok (some (UInt64.ofNat m, UInt64.ofNat n)) := by
  obtain ⟨hbytes, hlenm, hlenn⟩ := utf8_rangeText hm hn
  have hlen : (utf8 (rangeText m n)).length = 33 := by
    rw [hbytes, List.length_append, List.length_cons, hlenm, hlenn]
  have hdash : (utf8 (rangeText m n))[16]? = some 45 := by
    rw [hbytes, List.getElem?_append_right hlenm.le, hlenm]
    rfl
  have hall : ((utf8 (rangeText m n)).take 16 ++ (utf8 (rangeText m n)).drop 17).all isNameDigit =
      true := by
    have htake : (utf8 (rangeText m n)).take 16 = utf8 (txidText m) := by
      rw [hbytes, List.take_append_of_le_length hlenm.ge, List.take_of_length_le hlenm.le]
    have hdrop : (utf8 (rangeText m n)).drop 17 = utf8 (txidText n) := by
      rw [hbytes, List.drop_append, hlenm, List.drop_of_length_le (hlenm.trans_le (by decide)),
        List.nil_append, show 17 - 16 = 1 from rfl, List.drop_one, List.tail_cons]
    rw [htake, hdrop, List.all_append, Bool.and_eq_true, List.all_eq_true, List.all_eq_true]
    exact ⟨isNameDigit_utf8_txidText hm, isNameDigit_utf8_txidText hn⟩
  -- both cuts are between characters
  have hfront := utf8Size_of_printable (printable_txidText hm)
  have hcut : splitAtByte 16 (rangeText m n) = .ok (txidText m, '-' :: txidText n) := by
    have := splitAtByte_append hfront ('-' :: txidText n)
    rwa [length_txidText hm] at this
  have hcut' : splitAtByte 17 (rangeText m n) = .ok (txidText m ++ ['-'], txidText n) := by
    have hdashed : ∀ ch ∈ txidText m ++ ['-'], ch.utf8Size = 1 := by
      intro ch hch
      rcases List.mem_append.mp hch with hch | hch
      · exact hfront ch hch
      · rw [List.mem_singleton.mp hch]
        decide
    have := splitAtByte_append hdashed (txidText n)
    rwa [List.length_append, length_txidText hm, List.append_assoc] at this
  have hname : (String.ofList (rangeText m n ++ ".ltx".toList)).toList =
      rangeText m n ++ ".ltx".toList :=
    String.toList_ofList
  unfold parseFilename
  rw [hname, stripSuffix_append]
  dsimp only
  rw [if_neg (not_or.mpr ⟨not_not.mpr hlen, not_not.mpr hdash⟩), if_neg (not_not.mpr hall), hcut,
    ok_bind]
  dsimp only
  rw [parseTxid_txidText hm]
  dsimp only
  rw [hcut', ok_bind, parseTxid_txidText hn]
  rfl

/-- What the checks let through is a range with its ending. -/
theorem eq_rangeText {rest : List Char} (hlen : (utf8 rest).length = 33)
    (hdash : (utf8 rest)[16]? = some 45)
    (hall : ((utf8 rest).take 16 ++ (utf8 rest).drop 17).all isNameDigit = true) :
    ∃ m n, m < 2 ^ 64 ∧ n < 2 ^ 64 ∧ rest = rangeText m n := by
  rw [List.all_append, Bool.and_eq_true, List.all_eq_true, List.all_eq_true] at hall
  obtain ⟨hfront, hback⟩ := hall
  have hsplit : utf8 rest = (utf8 rest).take 16 ++ 45 :: (utf8 rest).drop 17 := by
    have hdrop : (utf8 rest).drop 16 = 45 :: (utf8 rest).drop 17 :=
        List.drop_eq_getElem?_toList_append.trans (by
      rw [hdash]
      rfl)
    rw [← hdrop, List.take_append_drop]
  -- all bytes are printable, so the text is theirs
  have hascii : ∀ x ∈ utf8 rest, 32 ≤ x.toNat ∧ x.toNat < 127 := by
    intro x hx
    rw [hsplit, List.mem_append, List.mem_cons] at hx
    rcases hx with hx | rfl | hx
    · obtain ⟨hlow, hhigh, -⟩ := digitChar_of_isNameDigit (hfront x hx)
      exact ⟨hlow, hhigh⟩
    · decide
    · obtain ⟨hlow, hhigh, -⟩ := digitChar_of_isNameDigit (hback x hx)
      exact ⟨hlow, hhigh⟩
  obtain ⟨htext, -⟩ := eq_asciiText hascii
  have hdigits : ∀ b : Bytes, (∀ x ∈ b, isNameDigit x = true) →
      ∀ ch ∈ asciiText b, ∃ d < 16, ch = Nat.digitChar d := by
    intro b hb ch hch
    obtain ⟨x, hx, rfl⟩ := List.mem_map.mp hch
    exact (digitChar_of_isNameDigit (hb x hx)).2.2
  obtain ⟨m, hm, hmtext⟩ :=
    exists_txidText (by rw [asciiText, List.length_map, List.length_take, hlen]; rfl)
    (hdigits _ hfront)
  obtain ⟨n, hn, hntext⟩ :=
    exists_txidText (by rw [asciiText, List.length_map, List.length_drop, hlen])
    (hdigits _ hback)
  refine ⟨m, n, hm, hn, ?_⟩
  rw [htext, hsplit, rangeText, ← hmtext, ← hntext, asciiText, List.map_append, List.map_cons]
  rfl

/-- A name that is none is refused before anything is cut. -/
theorem parseFilename_eq_none {name : String}
    (h : ¬ ∃ m n, m < 2 ^ 64 ∧ n < 2 ^ 64 ∧ name.toList = rangeText m n ++ ".ltx".toList) :
    parseFilename name = .ok none := by
  unfold parseFilename
  split
  · rfl
  · rename_i rest hrest
    dsimp only
    split
    · rfl
    · rename_i hshape
      rw [not_or, not_not, not_not] at hshape
      split
      · rfl
      · rename_i hall
        rw [not_not] at hall
        obtain ⟨m, n, hm, hn, rfl⟩ := eq_rangeText hshape.1 hshape.2 hall
        exact absurd ⟨m, n, hm, hn, stripSuffix_eq_some hrest⟩ h

/-- **File names and ranges correspond one to one.** The name of a range is read back as the range;
no name stops the program, and one that is read as a range is the name of that range; and names are
in the order of their ranges, by the smaller and then by the larger transaction number. -/
theorem filenames_bijective :
    (∀ a b, parseFilename (formatFilename a b) = .ok (some (a, b))) ∧
      (∀ name, ∃ range, parseFilename name = .ok range ∧
        ∀ a b, range = some (a, b) → formatFilename a b = name) ∧
      ∀ a b a' b', utf8 (formatFilename a b).toList < utf8 (formatFilename a' b').toList ↔
        a < a' ∨ a = a' ∧ b < b' := by
  refine ⟨fun a b => ?_, fun name => ?_, fun a b a' b' => ?_⟩
  · -- what is written is read back
    have hname : formatFilename a b =
      String.ofList (rangeText a.toNat b.toNat ++ ".ltx".toList) := by
      rw [← toList_formatFilename, String.ofList_toList]
    rw [hname, parseFilename_range a.toNat_lt b.toNat_lt, UInt64.ofNat_toNat, UInt64.ofNat_toNat]
  · -- what is read is written back: only names of this shape are read at all
    by_cases hok : ∃ m n, m < 2 ^ 64 ∧ n < 2 ^ 64 ∧ name.toList = rangeText m n ++ ".ltx".toList
    · obtain ⟨m, n, hm, hn, hname⟩ := hok
      have hparse := parseFilename_range hm hn
      rw [← hname, String.ofList_toList] at hparse
      refine ⟨_, hparse, fun a b heq => ?_⟩
      rw [Option.some_inj, Prod.mk.injEq] at heq
      apply String.toList_inj.mp
      rw [toList_formatFilename, ← heq.1, ← heq.2, UInt64.toNat_ofNat_of_lt' hm,
        UInt64.toNat_ofNat_of_lt' hn, hname]
    · exact ⟨none, parseFilename_eq_none hok, fun a b heq => by cases heq⟩
  · -- the two fixed-width fields compare one after the other
    obtain ⟨hbytes, hlena, hlenb⟩ := utf8_rangeText a.toNat_lt b.toNat_lt
    obtain ⟨hbytes', hlena', hlenb'⟩ := utf8_rangeText a'.toNat_lt b'.toNat_lt
    have heq : utf8 (txidText a.toNat) = utf8 (txidText a'.toNat) ↔ a = a' := by
      rw [utf8_injective.eq_iff, txidText_injective.eq_iff, UInt64.toNat_inj]
    have hirrefl : ¬ utf8 ".ltx".toList < utf8 ".ltx".toList := by decide
    rw [toList_formatFilename, toList_formatFilename, utf8_append, utf8_append, hbytes, hbytes',
      List.append_assoc, List.append_assoc, append_lt_append_iff (hlena.trans hlena'.symm),
      List.cons_append, List.cons_append,
      List.cons_lt_cons_iff, append_lt_append_iff (hlenb.trans hlenb'.symm),
      utf8_txidText_lt_iff a.toNat_lt a'.toNat_lt, utf8_txidText_lt_iff b.toNat_lt b'.toNat_lt, heq,
      ← UInt64.lt_iff_toNat_lt, ← UInt64.lt_iff_toNat_lt]
    have hdash : ¬ (45 : UInt8) < 45 := by decide
    simp only [hdash, hirrefl, false_or, true_and, and_false, or_false]

end Ltx

end Liters
