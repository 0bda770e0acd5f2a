import Liters.Foundation.Result
import Liters.Foundation.SortedMap
import Liters.Ltx.Types

/-! # The page index

The page index of an LTX file maps each page number to the byte span of its frame
(`page_index.rs`). On the wire it is a list of varint triples in ascending page order, an end marker
and the length of both. `decodePageIndex_encodePageIndex` is its round trip. -/

namespace Liters

/-! ## Varints -/

/-- The bytes of `v` in groups of seven bits, low group first, at most `fuel + 1` of them. -/
def uvarintAux : Nat → Nat → Bytes
  | 0, v => [UInt8.ofNat v]
  | fuel + 1, v =>
      if v < 0x80 then [UInt8.ofNat v]
      else UInt8.ofNat (v % 0x80 + 0x80) :: uvarintAux fuel (v / 0x80)

/-- The varint form of a 64-bit number, at most ten bytes. -/
def appendUvarint (v : Nat) : Bytes := uvarintAux 9 v

/-- The error of a varint that does not fit 64 bits. -/
def uvarintOverflow : LtxError := .invalid "uvarint overflows 64 bits"

/-- Read a varint: `result` holds the groups read so far, `shift` their total width. -/
def readUvarintAux : Nat → Nat → Nat → Bytes → Except LtxError (Nat × Bytes)
  | 0, _, _, _ => .error uvarintOverflow   -- unreachable: the width check fails first
  | fuel + 1, shift, result, r => do
      let (b, r) ← readOrEof 1 r
      let byte := (b.getD 0 0).toNat
      require (¬ (shift = 63 ∧ byte > 1)) uvarintOverflow
      let result := result + byte % 0x80 * 2 ^ shift
      if byte < 0x80 then .ok (result, r) else do
      require (shift + 7 < 64) uvarintOverflow
      readUvarintAux fuel (shift + 7) result r

/-- Read a varint of at most 64 bits. -/
def readUvarint (r : Bytes) : Except LtxError (Nat × Bytes) := readUvarintAux 10 0 0 r

/-- A byte below 0x80 is the last group of a number. -/
theorem readUvarintAux_last (fuel v shift acc : Nat) (rest : Bytes) (hlt : v < 0x80)
    (hv : v * 2 ^ shift < 2 ^ 64) :
    readUvarintAux (fuel + 1) shift acc ([UInt8.ofNat v] ++ rest)
      = .ok (acc + v * 2 ^ shift, rest) := by
  have hbyte : (UInt8.ofNat v).toNat = v := by
    rw [UInt8.toNat_ofNat', Nat.mod_eq_of_lt (by omega)]
  have hguard : ¬ (shift = 63 ∧ v > 1) := by
    rintro ⟨rfl, hv1⟩
    have := Nat.mul_le_mul_right (2 ^ 63) hv1
    omega
  rw [readUvarintAux, readOrEof_append (n := 1) [_] rest rfl]
  simp only [ok_bind, List.getD_cons_zero, hbyte, require_pos hguard, if_pos hlt,
    Nat.mod_eq_of_lt hlt]

/-- A byte from 0x80 on contributes its low seven bits and reading goes on above them. -/
theorem readUvarintAux_more (fuel v shift acc : Nat) (rest : Bytes) (hshift : shift + 7 < 64) :
    readUvarintAux (fuel + 1) shift acc (UInt8.ofNat (v % 0x80 + 0x80) :: rest)
      = readUvarintAux fuel (shift + 7) (acc + v % 0x80 * 2 ^ shift) rest := by
  have hbyte : (UInt8.ofNat (v % 0x80 + 0x80)).toNat = v % 0x80 + 0x80 := by
    rw [UInt8.toNat_ofNat', Nat.mod_eq_of_lt (by omega)]
  have hguard : ¬ (shift = 63 ∧ v % 0x80 + 0x80 > 1) := by omega
  have hmore : ¬ v % 0x80 + 0x80 < 0x80 := by omega
  have hcons := readOrEof_append (n := 1) [UInt8.ofNat (v % 0x80 + 0x80)] rest rfl
  rw [List.singleton_append] at hcons
  rw [readUvarintAux, hcons]
  simp only [ok_bind, List.getD_cons_zero, hbyte, require_pos hguard, if_neg hmore,
    require_pos hshift, Nat.add_mod_right, Nat.mod_mod]

/-- Reading back the remaining groups of a number adds them above the ones already read. The shift
and the groups left always span the ten groups of a 64-bit number. -/
theorem readUvarintAux_uvarintAux (fuel v shift acc : Nat) (rest : Bytes)
    (hspan : shift + 7 * fuel = 63) (hv : v * 2 ^ shift < 2 ^ 64) :
    readUvarintAux (fuel + 1) shift acc (uvarintAux fuel v ++ rest)
      = .ok (acc + v * 2 ^ shift, rest) := by
  induction fuel generalizing v shift acc with
  | zero =>
      have hsh : shift = 63 := by omega
      subst hsh
      exact readUvarintAux_last 0 v 63 acc rest (by omega) hv
  | succ fuel ih =>
      rw [uvarintAux]
      by_cases hlt : v < 0x80
      · rw [if_pos hlt]
        exact readUvarintAux_last _ v shift acc rest hlt hv
      · have hdiv : v / 0x80 * 2 ^ (shift + 7) ≤ v * 2 ^ shift := by
          rw [pow_add, Nat.mul_comm (2 ^ shift), ← Nat.mul_assoc]
          exact Nat.mul_le_mul_right _ (Nat.div_mul_le_self v 0x80)
        have hsplit : v % 0x80 * 2 ^ shift + v / 0x80 * 2 ^ (shift + 7) = v * 2 ^ shift := by
          conv_rhs => rw [← Nat.mod_add_div v 0x80]
          rw [pow_add]
          ring
        rw [if_neg hlt, List.cons_append, readUvarintAux_more _ _ _ _ _ (by omega),
          ih (v / 0x80) (shift + 7) _ (by omega) (by omega), Nat.add_assoc, hsplit]

/-- A 64-bit number is read back from its varint form, consuming exactly its bytes. -/
theorem readUvarint_appendUvarint {v : Nat} (hv : v < 2 ^ 64) (rest : Bytes) :
    readUvarint (appendUvarint v ++ rest) = .ok (v, rest) := by
  have := readUvarintAux_uvarintAux 9 v 0 0 rest rfl (by simpa using hv)
  simpa [readUvarint, appendUvarint] using this

/-! ## The index -/

/-- An entry of the page index, tagged with the file it points into. -/
structure PageIndexElem where
  level : Nat
  minTxid : UInt64
  maxTxid : UInt64
  /-- Byte offset of the page frame in the file. -/
  offset : Nat
  /-- Byte length of the frame: header and compressed data. -/
  size : Nat
  deriving DecidableEq, Repr

/-- One entry on the wire. -/
def indexEntry (e : Nat × Nat × Nat) : Bytes :=
  appendUvarint e.1 ++ appendUvarint e.2.1 ++ appendUvarint e.2.2

/-- The index in page order, its end marker and the length of both. -/
def encodePageIndex (index : SortedMap (Nat × Nat)) : Bytes :=
  let body := index.entries.flatMap indexEntry ++ appendUvarint 0
  body ++ beBytes 8 body.length

/-- The entry loop of `decode_page_index`. -/
def decodeIndexEntries (level : Nat) (minTxid maxTxid : UInt64) :
    Nat → SortedMap PageIndexElem → Bytes → Except LtxError (SortedMap PageIndexElem × Bytes)
  | 0, _, _ => .error .eof   -- unreachable: every entry consumes bytes
  | fuel + 1, index, r => do
      let (pgno, r) ← readUvarint r
      if pgno = 0 then .ok (index, r) else do
      let (offset, r) ← readUvarint r
      let (size, r) ← readUvarint r
      decodeIndexEntries level minTxid maxTxid fuel
        (index.insert (pgno % 2 ^ 32) ⟨level, minTxid, maxTxid, offset, size⟩) r

/-- Decode a page index; the trailing length is read and not verified. -/
def decodePageIndex (r : Bytes) (level : Nat) (minTxid maxTxid : UInt64) :
    Except LtxError (SortedMap PageIndexElem × Bytes) := do
  let (index, r) ← decodeIndexEntries level minTxid maxTxid (r.length + 1) .empty r
  let (_, r) ← readOrEof 8 r
  return (index, r)

/-- A varint has at least one byte. -/
theorem appendUvarint_length_pos (v : Nat) : 0 < (appendUvarint v).length := by
  rw [appendUvarint, uvarintAux]
  split <;> simp

/-- Entries that fit their wire form: a non-zero 32-bit page number and 64-bit spans. -/
def IndexFits (e : Nat × Nat × Nat) : Prop :=
  0 < e.1 ∧ e.1 < 2 ^ 32 ∧ e.2.1 < 2 ^ 64 ∧ e.2.2 < 2 ^ 64

/-- The entry loop reads back ascending entries behind the ones it has. -/
theorem decodeIndexEntries_entries (level : Nat) (minTxid maxTxid : UInt64) (rest : Bytes)
    (l : List (Nat × Nat × Nat)) (fuel : Nat) (m : SortedMap PageIndexElem)
    (hfits : ∀ e ∈ l, IndexFits e) (hasc : l.Pairwise (fun a b => a.1 < b.1))
    (hbelow : ∀ e ∈ m.entries, ∀ e' ∈ l, e.1 < e'.1) (hfuel : l.length < fuel) :
    ∃ m' : SortedMap PageIndexElem,
      decodeIndexEntries level minTxid maxTxid fuel m
          (l.flatMap indexEntry ++ appendUvarint 0 ++ rest) = .ok (m', rest) ∧
        m'.entries = m.entries
          ++ l.map (fun e => (e.1, ⟨level, minTxid, maxTxid, e.2.1, e.2.2⟩)) := by
  induction l generalizing fuel m with
  -- only the 0 that ends the index is left
  | nil =>
      obtain ⟨fuel, rfl⟩ : ∃ f, fuel = f + 1 := ⟨fuel - 1, by simp at hfuel; omega⟩
      refine ⟨m, ?_, by simp⟩
      rw [List.flatMap_nil, List.nil_append, decodeIndexEntries,
        readUvarint_appendUvarint (by decide)]
      simp
  -- one entry is read and goes behind those of the map, all of smaller page numbers
  | cons e l ih =>
      obtain ⟨fuel, rfl⟩ : ∃ f, fuel = f + 1 := ⟨fuel - 1, by simp at hfuel; omega⟩
      obtain ⟨pgno, offset, size⟩ := e
      obtain ⟨hpos, hpg, hoff, hsz⟩ := hfits _ (List.mem_cons_self ..)
      simp only at hpos hpg hoff hsz
      rw [List.pairwise_cons] at hasc
      have hins := SortedMap.entries_insert_of_lt (m := m) (k := pgno)
        (⟨level, minTxid, maxTxid, offset, size⟩ : PageIndexElem)
        (fun a ha => hbelow a ha _ (List.mem_cons_self ..))
      obtain ⟨m', hrun, hentries⟩ := ih fuel (m.insert pgno ⟨level, minTxid, maxTxid, offset, size⟩)
        (fun a ha => hfits a (List.mem_cons_of_mem _ ha)) hasc.2
        (by
          intro a ha b hb
          rw [hins, List.mem_append, List.mem_singleton] at ha
          rcases ha with ha | rfl
          · exact hbelow a ha b (List.mem_cons_of_mem _ hb)
          · exact hasc.1 b hb)
        (by simpa using hfuel)
      refine ⟨m', ?_, ?_⟩
      · rw [decodeIndexEntries, List.flatMap_cons, indexEntry]
        simp only [List.append_assoc]
        rw [readUvarint_appendUvarint (by omega)]
        simp only [ok_bind, if_neg hpos.ne', Nat.mod_eq_of_lt hpg]
        rw [readUvarint_appendUvarint hoff]
        simp only [ok_bind]
        rw [readUvarint_appendUvarint hsz]
        simp only [ok_bind]
        rw [← hrun, List.append_assoc]
      · rw [hentries, hins, List.append_assoc]
        rfl

/-- An index is read back from its wire form, tagged with the file it belongs to, consuming exactly
its bytes. -/
theorem decodePageIndex_encodePageIndex (index : SortedMap (Nat × Nat)) (level : Nat)
    (minTxid maxTxid : UInt64) (rest : Bytes) (hfits : ∀ e ∈ index.entries, IndexFits e) :
    decodePageIndex (encodePageIndex index ++ rest) level minTxid maxTxid
      = .ok (index.mapVal (fun p => ⟨level, minTxid, maxTxid, p.1, p.2⟩), rest) := by
  -- every entry takes a byte at least, so the loop is long enough
  have hlen : index.entries.length ≤ (index.entries.flatMap indexEntry).length := by
    induction index.entries with
    | nil => simp
    | cons e l ih =>
        have := appendUvarint_length_pos e.1
        rw [List.flatMap_cons, List.length_append, List.length_cons, indexEntry,
          List.length_append, List.length_append]
        omega
  rw [decodePageIndex, encodePageIndex]
  generalize hsize : (index.entries.flatMap indexEntry ++ appendUvarint 0).length = size
  obtain ⟨m', hrun, hentries⟩ := decodeIndexEntries_entries level minTxid maxTxid
    (beBytes 8 size ++ rest) index.entries
    ((index.entries.flatMap indexEntry ++ appendUvarint 0 ++ beBytes 8 size ++ rest).length + 1)
    .empty hfits index.sorted (fun e he => nomatch he)
    (by simp only [List.length_append]; omega)
  -- a sorted map is its entries
  have hm : m' = index.mapVal (fun p => ⟨level, minTxid, maxTxid, p.1, p.2⟩) := by
    obtain ⟨l, hl⟩ := m'
    simp only [SortedMap.empty, List.nil_append] at hentries
    subst hentries
    rfl
  rw [List.append_assoc _ (beBytes 8 size) rest] at hrun ⊢
  rw [hrun]
  simp only [ok_bind]
  rw [readOrEof_append _ _ (beBytes_length ..)]
  simp only [ok_bind, pure_eq_ok, hm]

end Liters
