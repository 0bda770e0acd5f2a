import Liters.Foundation.Reader
import Liters.Foundation.Text
import Mathlib.Data.List.TakeWhile

/-! # Lines and chunks

The wire primitives of the HTTP transport: a line accumulator that keeps a partial line over read
timeouts, and the chunked transfer encoding (`wire.rs`). The line accumulator works over any reader,
the chunk reader over any reader, and a chunk reader is again a reader that delivers the bytes of
the chunks. -/

namespace Liters

/-- An I/O error: its kind as far as anybody looks at it, and its text. -/
inductive IoError where
  | unexpectedEof (msg : String)
  | invalidData (msg : String)
  | other (msg : String)

/-- The longest line of the protocol. -/
def maxLine : Nat := 8192

variable {σ : Type} (read : σ → Nat → ReadResult IoError × σ)

/-! ## Lines -/

/-- What reading a line comes to. -/
inductive LineResult where
  | line (text : List Char)
  /-- The end at a line boundary. -/
  | none
  | timeout
  | failed (e : IoError)

/-- The text of a line whose newline has been read. -/
def lineText (buf : Bytes) : LineResult :=
  match fromUtf8 (if buf.getLast? = some 13 then buf.dropLast else buf) with
  | some text => .line text
  | none => .failed (.invalidData "non-utf8 line")

/-- Read byte by byte. The line so far survives a timeout. -/
def readLineLoop : Nat → Bytes → σ → LineResult × Bytes × σ
  | 0, buf, s => (.failed (.invalidData "line exceeds max length"), buf, s)
  | fuel + 1, buf, s =>
      match read s 1 with
      | (.eof, s') =>
          if buf = [] then (.none, buf, s') else (.failed (.unexpectedEof "eof mid-line"), buf, s')
      | (.bytes b, s') =>
          if b.headD 0 = 10 then (lineText buf, [], s')
          else if maxLine ≤ buf.length then
            (.failed (.invalidData "line exceeds max length"), buf, s')
          else readLineLoop fuel (buf ++ [b.headD 0]) s'
      | (.timeout, s') => (.timeout, buf, s')
      | (.failed e, s') => (.failed e, buf, s')

/-- Read a line, `buf` being what is there of it. The buffer grows with every round and is never
longer than a line, which bounds the loop. -/
def readLine (buf : Bytes) (s : σ) : LineResult × Bytes × σ :=
  readLineLoop read (maxLine + 1 - buf.length) buf s

/-! ## Chunks -/

/-- A carriage return and a newline. -/
def crlf : Bytes := [13, 10]

/-- The line in front of a chunk. -/
def chunkHead (data : Bytes) : Bytes := utf8 (Nat.toDigits 16 data.length) ++ crlf

/-- One write is one chunk; an empty one would end the body. -/
def chunk (data : Bytes) : Bytes := if data = [] then [] else chunkHead data ++ data ++ crlf

/-- The end of the body. -/
def finish : Bytes := utf8 ['0'] ++ crlf ++ crlf

/-- What a chunk reader expects next. -/
inductive ChunkState where
  | size
  | data (remaining : Nat)
  | dataEnd
  | trailer
  | eof

/-- A chunk reader over a reader. -/
structure ChunkedReader (σ : Type) where
  inner : σ
  state : ChunkState := .size
  line : Bytes := []

/-- The size in the line in front of a chunk, without chunk extensions. -/
def chunkSize (text : List Char) : Option Nat :=
  fromStrRadix 16 64 (trim (text.takeWhile (· ≠ ';')))

/-- Read up to `want` bytes of the chunks. -/
def chunkedLoop : Nat → ChunkedReader σ → Nat → ReadResult IoError × ChunkedReader σ
  | 0, r, _ => (.failed (.other "stuck"), r)
  | fuel + 1, r, want =>
      match r.state with
      | .size =>
          match readLine read r.line r.inner with
          | (.timeout, line, inner) => (.timeout, { r with inner, line })
          | (.failed e, line, inner) => (.failed e, { r with inner, line })
          | (.none, line, inner) =>
              (.failed (.unexpectedEof "eof before chunk size"), { r with inner, line })
          | (.line text, line, inner) =>
              match chunkSize text with
              | none => (.failed (.invalidData "bad chunk size"), { r with inner, line })
              | some size =>
                  chunkedLoop fuel ⟨inner, if size = 0 then .trailer else .data size, line⟩ want
      | .data remaining =>
          match read r.inner (min want remaining) with
          | (.timeout, inner) => (.timeout, { r with inner })
          | (.failed e, inner) => (.failed e, { r with inner })
          | (.eof, inner) => (.failed (.unexpectedEof "eof mid-chunk"), { r with inner })
          | (.bytes b, inner) =>
              (.bytes b,
                { r with
                  inner, state := if remaining - b.length = 0 then .dataEnd
                    else .data (remaining - b.length) })
      | .dataEnd =>
          match readLine read r.line r.inner with
          | (.timeout, line, inner) => (.timeout, { r with inner, line })
          | (.failed e, line, inner) => (.failed e, { r with inner, line })
          | (.none, line, inner) =>
              (.failed (.unexpectedEof "eof after chunk"), { r with inner, line })
          | (.line text, line, inner) =>
              if text = [] then chunkedLoop fuel ⟨inner, .size, line⟩ want
              else (.failed (.invalidData "missing chunk terminator"), { r with inner, line })
      | .trailer =>
          match readLine read r.line r.inner with
          | (.timeout, line, inner) => (.timeout, { r with inner, line })
          | (.failed e, line, inner) => (.failed e, { r with inner, line })
          | (.none, line, inner) =>
              (.failed (.unexpectedEof "eof in trailer"), { r with inner, line })
          | (.line text, line, inner) =>
              chunkedLoop fuel ⟨inner, if text = [] then .eof else .trailer, line⟩ want
      | .eof => (.eof, r)

/-- `ChunkedReader::read`, for a buffer that is not empty. Every round but the last reads a line, so
what the inner reader has left bounds the loop. -/
def readChunked (weight : σ → Nat) (r : ChunkedReader σ) (want : Nat) :
    ReadResult IoError × ChunkedReader σ :=
  chunkedLoop read (weight r.inner + 1) r want

/-! ## What a line reader finds -/

variable {read} {Holds : σ → Bytes → Bool → Prop} {weight : σ → Nat}

/-- A timeout in the middle of a line: some more of `ahead` is in the buffer, the rest is to come,
with `after` behind it. -/
def Paused (Holds : σ → Bytes → Bool → Prop) (weight : σ → Nat) (buf ahead after : Bytes)
    (clean : Bool) (s : σ) (r : LineResult × Bytes × σ) : Prop :=
  ∃ pre post s', r = (.timeout, buf ++ pre, s') ∧ ahead = pre ++ post ∧
    Holds s' (post ++ after) clean ∧
    weight s' < weight s

/-- One more byte in the buffer. -/
theorem Paused.cons {buf ahead after : Bytes} {clean : Bool} {s s' : σ} {x : UInt8}
    {r : LineResult × Bytes × σ} (h : Paused Holds weight (buf ++ [x]) ahead after clean s' r)
    (hweight : weight s' < weight s) : Paused Holds weight buf (x :: ahead) after clean s r := by
  obtain ⟨pre, post, s'', rfl, rfl, hs, hw⟩ := h
  exact ⟨x :: pre, post, s'', by simp, rfl, hs, hw.trans hweight⟩

/-- A read of one byte. -/
theorem Delivers.one (hd : Delivers read Holds weight) {s : σ} {data : Bytes} {clean : Bool}
    (h : Holds s data clean) :
    (∃ x rest s', read s 1 = (.bytes [x], s') ∧ data = x :: rest ∧ Holds s' rest clean ∧
        weight s' < weight s) ∨
      (∃ s', read s 1 = (.timeout, s') ∧ Holds s' data clean ∧ weight s' < weight s) ∨
      (∃ s', read s 1 = (.eof, s') ∧ data = [] ∧ clean = true ∧ Holds s' [] true ∧
        weight s' ≤ weight s) ∨
      ∃ e s', read s 1 = (.failed e, s') ∧ data = [] ∧ clean = false ∧ Holds s' [] false := by
  rcases hd.step h Nat.one_pos with ⟨b, rest, s', hread, hne, hle, hdata, hs, hw⟩ | hother
  · obtain ⟨x, xs, rfl⟩ := List.exists_cons_of_ne_nil hne
    obtain rfl : xs = [] := List.length_eq_zero_iff.mp (by rw [List.length_cons] at hle; omega)
    exact .inl ⟨x, rest, s', hread, hdata, hs, hw⟩
  · exact .inr hother

/-- A line that is there up to its newline is read, or a timeout comes first. -/
theorem readLineLoop_complete (hd : Delivers read Holds weight) {fuel : Nat}
    {buf ahead rest : Bytes} {clean : Bool} {s : σ} (hs : Holds s (ahead ++ 10 :: rest) clean)
    (hline : 10 ∉ ahead)
    (hlen : (buf ++ ahead).length ≤ maxLine) (hfuel : ahead.length < fuel) :
    Paused Holds weight buf ahead (10 :: rest) clean s (readLineLoop read fuel buf s) ∨
      ∃ s', readLineLoop read fuel buf s = (lineText (buf ++ ahead), [], s') ∧ Holds s' rest clean ∧
        weight s' < weight s := by
  -- along the bytes that are missing in the buffer
  induction ahead generalizing buf fuel s with
  | nil =>
      obtain ⟨fuel, rfl⟩ := Nat.exists_eq_succ_of_ne_zero (Nat.ne_of_gt hfuel)
      rw [readLineLoop]
      rcases hd.one hs with ⟨x, rest', s', hread, hdata, hs', hw⟩ | ⟨s', hread, hs', hw⟩ |
        ⟨s', -, hdata, -⟩ | ⟨e, s', -, hdata, -⟩
      · obtain ⟨rfl, rfl⟩ := List.cons.inj hdata
        rw [hread, List.append_nil]
        exact .inr ⟨s', rfl, hs', hw⟩
      · rw [hread]
        exact .inl ⟨[], [], s', by simp, rfl, hs', hw⟩
      · cases hdata
      · cases hdata
  | cons x ahead ih =>
      obtain ⟨fuel, rfl⟩ := Nat.exists_eq_succ_of_ne_zero (Nat.ne_of_gt (Nat.zero_lt_of_lt hfuel))
      rw [readLineLoop]
      rcases hd.one hs with ⟨y, rest', s', hread, hdata, hs', hw⟩ | ⟨s', hread, hs', hw⟩ |
        ⟨s', -, hdata, -⟩ | ⟨e, s', -, hdata, -⟩
      · obtain ⟨rfl, rfl⟩ := List.cons.inj hdata
        have hx : x ≠ 10 := fun h => hline (h ▸ List.mem_cons_self ..)
        have hroom : ¬ maxLine ≤ buf.length := by
          rw [List.length_append, List.length_cons] at hlen
          omega
        have hlen' : (buf ++ [x] ++ ahead).length ≤ maxLine := by
          rw [List.append_assoc]
          exact hlen
        have hfuel' : ahead.length < fuel := Nat.lt_of_succ_lt_succ hfuel
        rw [hread]
        simp only [List.headD_cons, hx, if_false, if_neg hroom]
        rcases ih hs' (fun h => hline (List.mem_cons_of_mem _ h)) hlen' hfuel'
          with hpause | ⟨s'', hloop, hs'', hw'⟩
        · exact .inl (hpause.cons hw)
        · refine .inr ⟨s'', ?_, hs'', hw'.trans hw⟩
          rw [hloop, List.append_assoc]
          rfl
      · rw [hread]
        exact .inl ⟨[], x :: ahead, s', by simp, rfl, hs', hw⟩
      · cases hdata
      · cases hdata

/-- Where no newline comes any more: a timeout, the clean end at a line boundary, or an error. -/
theorem readLineLoop_partial (hd : Delivers read Holds weight) {fuel : Nat} {buf ahead : Bytes}
    {clean : Bool} {s : σ} (hs : Holds s ahead clean) (hline : 10 ∉ ahead)
    (hlen : (buf ++ ahead).length ≤ maxLine) (hfuel : ahead.length < fuel) :
    Paused Holds weight buf ahead [] clean s (readLineLoop read fuel buf s) ∨
      (buf ++ ahead = [] ∧ clean = true ∧
        ∃ s', readLineLoop read fuel buf s = (.none, [], s') ∧ Holds s' [] true ∧
          weight s' ≤ weight s) ∨
      (¬ (buf ++ ahead = [] ∧ clean = true) ∧
        ∃ e s', readLineLoop read fuel buf s = (.failed e, buf ++ ahead, s') ∧
          Holds s' [] clean) := by
  induction ahead generalizing buf fuel s with
  | nil =>
      obtain ⟨fuel, rfl⟩ := Nat.exists_eq_succ_of_ne_zero (Nat.ne_of_gt hfuel)
      rw [readLineLoop, List.append_nil]
      rcases hd.one hs with ⟨x, rest', s', -, hdata, -⟩ | ⟨s', hread, hs', hw⟩ |
        ⟨s', hread, -, hclean, hs', hw⟩ | ⟨e, s', hread, -, hclean, hs'⟩
      · -- no byte is left to come
        cases hdata
      · -- a timeout keeps what was read so far
        rw [hread]
        exact .inl ⟨[], [], s', by simp, rfl, hs', hw⟩
      · -- at the end a line without newline is an error, nothing at all is the end
        rw [hread]
        by_cases hbuf : buf = []
        · subst hbuf
          exact .inr (.inl ⟨rfl, hclean, s', rfl, hs', hw⟩)
        · simp only [if_neg hbuf]
          exact .inr (.inr ⟨fun h => hbuf h.1, _, s', rfl, hclean ▸ hs'⟩)
      · -- so is an error of the connection
        rw [hread]
        refine .inr (.inr ⟨fun h => ?_, e, s', rfl, hclean ▸ hs'⟩)
        rw [hclean] at h
        exact Bool.false_ne_true h.2
  -- the next byte is not a newline: it is kept, or a timeout comes before it
  | cons x ahead ih =>
      obtain ⟨fuel, rfl⟩ := Nat.exists_eq_succ_of_ne_zero (Nat.ne_of_gt (Nat.zero_lt_of_lt hfuel))
      rw [readLineLoop]
      rcases hd.one hs with ⟨y, rest', s', hread, hdata, hs', hw⟩ | ⟨s', hread, hs', hw⟩ |
        ⟨s', -, hdata, -⟩ | ⟨e, s', -, hdata, -⟩
      · -- one byte goes over to the kept ones
        obtain ⟨rfl, rfl⟩ := List.cons.inj hdata
        have hx : x ≠ 10 := fun h => hline (h ▸ List.mem_cons_self ..)
        have hroom : ¬ maxLine ≤ buf.length := by
          rw [List.length_append, List.length_cons] at hlen
          omega
        have hassoc : buf ++ [x] ++ ahead = buf ++ x :: ahead := by rw [List.append_assoc]; rfl
        have hfuel' : ahead.length < fuel := Nat.lt_of_succ_lt_succ hfuel
        rw [hread]
        simp only [List.headD_cons, hx, if_false, if_neg hroom]
        rcases ih hs' (fun h => hline (List.mem_cons_of_mem _ h)) (hassoc ▸ hlen)
          hfuel' with hpause | ⟨hnil, -⟩ | ⟨-, e, s'', hfailed, hs''⟩
        · exact .inl (hpause.cons hw)
        · rw [hassoc] at hnil
          exact absurd hnil (by simp)
        · rw [hassoc] at hfailed
          exact .inr (.inr ⟨fun h => absurd h.1 (by simp), e, s'', hfailed, hs''⟩)
      · -- the timeout before it
        rw [hread]
        refine .inl ⟨[], x :: ahead, s', by simp, rfl, ?_, hw⟩
        rw [List.append_nil]
        exact hs'
      · cases hdata
      · cases hdata

/-- The part of a line that is missing in the buffer. -/
theorem exists_ahead {buf data line rest : Bytes} (hbuf : 10 ∉ buf)
    (h : buf ++ data = line ++ 10 :: rest) :
    ∃ ahead, line = buf ++ ahead ∧ data = ahead ++ 10 :: rest := by
  rcases List.append_eq_append_iff.mp h with ⟨ahead, hl, hd⟩ | ⟨more, hb, hd⟩
  · exact ⟨ahead, hl, hd⟩
  · cases more with
    | nil => exact ⟨[], by simpa using hb.symm, by simpa using hd.symm⟩
    | cons x more =>
        obtain ⟨rfl, -⟩ := List.cons.inj hd
        exact absurd (hb ▸ List.mem_append_right _ (List.mem_cons_self ..)) hbuf

/-- A timeout while a line is read: nothing is lost. -/
def Interrupted (Holds : σ → Bytes → Bool → Prop) (weight : σ → Nat) (total : Bytes) (clean : Bool)
    (n : Nat) (r : LineResult × Bytes × σ) : Prop :=
  ∃ buf data s, r = (.timeout, buf, s) ∧ buf ++ data = total ∧ 10 ∉ buf ∧ Holds s data clean ∧
    weight s < n

/-- A pause within a line is an interruption. -/
theorem Paused.interrupted {buf ahead after : Bytes} {clean : Bool} {s : σ}
    {r : LineResult × Bytes × σ} (h : Paused Holds weight buf ahead after clean s r)
    (hline : 10 ∉ buf ++ ahead) :
    Interrupted Holds weight (buf ++ (ahead ++ after)) clean (weight s) r := by
  obtain ⟨pre, post, s', rfl, rfl, hs, hw⟩ := h
  refine ⟨buf ++ pre, post ++ after, s', rfl, by simp, fun hmem => hline ?_, hs, hw⟩
  rw [← List.append_assoc]
  exact List.mem_append_left _ hmem

/-- A line with its newline ahead is read, or a timeout comes first. -/
theorem readLine_found (hd : Delivers read Holds weight) {buf data line rest : Bytes} {clean : Bool}
    {s : σ} (hs : Holds s data clean) (hbuf : 10 ∉ buf) (hline : 10 ∉ line)
    (hlen : line.length ≤ maxLine) (h : buf ++ data = line ++ 10 :: rest) :
    Interrupted Holds weight (buf ++ data) clean (weight s) (readLine read buf s) ∨
      ∃ s', readLine read buf s = (lineText line, [], s') ∧ Holds s' rest clean ∧
        weight s' < weight s := by
  obtain ⟨ahead, rfl, rfl⟩ := exists_ahead hbuf h
  have hfuel : ahead.length < maxLine + 1 - buf.length := by
    rw [List.length_append] at hlen
    omega
  rcases readLineLoop_complete hd hs (fun hmem => hline (List.mem_append_right _ hmem)) hlen
      hfuel with
    hpause | hfound
  · exact .inl (hpause.interrupted hline)
  · exact .inr hfound

/-- Where the newline never comes: a timeout, the clean end at a line boundary, or an error. -/
theorem readLine_cut (hd : Delivers read Holds weight) {buf data : Bytes} {clean : Bool} {s : σ}
    (hs : Holds s data clean) (hline : 10 ∉ buf ++ data) (hlen : (buf ++ data).length ≤ maxLine) :
    Interrupted Holds weight (buf ++ data) clean (weight s) (readLine read buf s) ∨
      (buf ++ data = [] ∧ clean = true ∧
        ∃ s', readLine read buf s = (.none, [], s') ∧ Holds s' [] true ∧ weight s' ≤ weight s) ∨
      (¬ (buf ++ data = [] ∧ clean = true) ∧
        ∃ e s', readLine read buf s = (.failed e, buf ++ data, s') ∧ Holds s' [] clean) := by
  have hfuel : data.length < maxLine + 1 - buf.length := by
    rw [List.length_append] at hlen
    omega
  rcases readLineLoop_partial hd hs (fun hmem => hline (List.mem_append_right _ hmem)) hlen
      hfuel with
    hpause | hother
  · have := hpause.interrupted hline
    rw [List.append_nil] at this
    exact .inl this
  · exact .inr hother

/-- What stands before the final newline of a line and is cut off has no newline. -/
theorem not_mem_of_cut {w line : Bytes} (hline : 10 ∉ line) (h : w <+: line ++ [10])
    (hne : w ≠ line ++ [10]) : 10 ∉ w := by
  rcases List.prefix_concat_iff.mp h with h | h
  · exact absurd h hne
  · exact fun hmem => hline (h.subset hmem)

/-! ## Texts of lines -/

/-- Printable text has no newline. -/
theorem ten_not_mem_utf8 {text : List Char} (h : Printable text) : 10 ∉ utf8 text := by
  intro hmem
  have := mem_utf8_of_printable h hmem
  simp at this

/-- Printable text is read back from its line. -/
theorem lineText_utf8 {text : List Char} (h : Printable text) :
    lineText (utf8 text) = .line text := by
  have hlast : (utf8 text).getLast? ≠ some 13 := by
    intro hlast
    have := mem_utf8_of_printable h (List.mem_of_getLast? hlast)
    simp at this
  unfold lineText
  rw [if_neg hlast, fromUtf8_utf8]

/-- A carriage return at the end of a line is dropped. -/
theorem lineText_utf8_cr (text : List Char) : lineText (utf8 text ++ [13]) = .line text := by
  unfold lineText
  rw [if_pos (by simp), List.dropLast_concat, fromUtf8_utf8]

/-- The line in front of a chunk of some length. -/
def sizeLine (n : Nat) : Bytes := utf8 (Nat.toDigits 16 n) ++ [13]

/-- A chunk's size line has no newline. -/
theorem ten_not_mem_sizeLine (n : Nat) : 10 ∉ sizeLine n := by
  intro hmem
  rcases List.mem_append.mp hmem with hmem | hmem
  · exact ten_not_mem_utf8 (word_toDigits (by decide) (by decide) n).printable hmem
  · exact absurd (List.mem_singleton.mp hmem) (by decide)

/-- The size of a chunk is read back. -/
theorem chunkSize_toDigits {n : Nat} (hn : n < 2 ^ 64) :
    chunkSize (Nat.toDigits 16 n) = some n := by
  have hword := word_toDigits (by decide : 1 < 16) (Nat.le_refl 16) n
  have hsemi : (Nat.toDigits 16 n).takeWhile (· ≠ ';') = Nat.toDigits 16 n := by
    rw [List.takeWhile_eq_self_iff]
    intro ch hch
    obtain ⟨d, hd, rfl⟩ := mem_toDigits (by decide) hch
    have : ∀ d < 16, Nat.digitChar d ≠ ';' := by decide
    simp [this d hd]
  unfold chunkSize
  rw [hsemi, trim_word hword]
  exact fromStrRadix_toDigits (by decide) (by decide) hn

/-! ## What chunks carry -/

mutual

/-- `AtSize tail w p clean`: from the boundary between two chunks, the bytes `w` carry the data `p`,
and end with the end of the body and `tail` behind it, or are cut off before it. -/
inductive AtSize (tail : Bytes) : Bytes → Bytes → Bool → Prop where
  | chunk {n : Nat} {w p : Bytes} {clean : Bool} (hpos : 0 < n) (hn : n < 2 ^ 64)
      (h : InData tail n w p clean) : AtSize tail (sizeLine n ++ 10 :: w) p clean
  | last {w : Bytes} {clean : Bool} (h : InTrailer tail w clean) :
      AtSize tail (sizeLine 0 ++ 10 :: w) [] clean
  | cut {n : Nat} {w : Bytes} (h : w <+: sizeLine n ++ [10]) (hn : n < 2 ^ 64)
      (hne : w ≠ sizeLine n ++ [10]) : AtSize tail w [] false

/-- The same with `n` bytes of a chunk to go. -/
inductive InData (tail : Bytes) : Nat → Bytes → Bytes → Bool → Prop where
  | all {d w p : Bytes} {clean : Bool} (h : AtDataEnd tail w p clean) :
      InData tail d.length (d ++ w) (d ++ p) clean
  | cut {n : Nat} {w : Bytes} (h : w.length < n) : InData tail n w w false

/-- The same behind the bytes of a chunk. -/
inductive AtDataEnd (tail : Bytes) : Bytes → Bytes → Bool → Prop where
  | next {w p : Bytes} {clean : Bool} (h : AtSize tail w p clean) :
      AtDataEnd tail ([13] ++ 10 :: w) p clean
  | cut {w : Bytes} (h : w <+: [13] ++ [10]) (hne : w ≠ [13] ++ [10]) : AtDataEnd tail w [] false

/-- The same behind the last size line. -/
inductive InTrailer (tail : Bytes) : Bytes → Bool → Prop where
  | finished : InTrailer tail ([13] ++ 10 :: tail) true
  | cut {w : Bytes} (h : w <+: [13] ++ [10]) (hne : w ≠ [13] ++ [10]) : InTrailer tail w false

end

/-- What a chunk reader has still to deliver, with `tail` behind the body. -/
def ChunkedHolds (Holds : σ → Bytes → Bool → Prop) (tail : Bytes) (r : ChunkedReader σ) (p : Bytes)
    (clean : Bool) : Prop :=
  ∃ data innerClean, Holds r.inner data innerClean ∧ 10 ∉ r.line ∧
    match r.state with
    | .size => AtSize tail (r.line ++ data) p clean
    | .data n => 0 < n ∧ r.line = [] ∧ InData tail n data p clean
    | .dataEnd => AtDataEnd tail (r.line ++ data) p clean
    | .trailer => p = [] ∧ InTrailer tail (r.line ++ data) clean
    | .eof => p = [] ∧ clean = true ∧ data = tail

/-- A 64-bit size line is no longer than a line may be. -/
theorem length_sizeLine_le {n : Nat} (hn : n < 2 ^ 64) : (sizeLine n ++ [10]).length ≤ maxLine := by
  have hdigits : (Nat.toDigits 16 n).length ≤ 16 :=
    (Nat.length_toDigits_le_iff (by decide) (by decide)).mpr (hn.trans_eq (by norm_num))
  have hprint := (word_toDigits (by decide : 1 < 16) (Nat.le_refl 16) n).printable
  rw [sizeLine, List.length_append, List.length_append, length_utf8_of_printable hprint]
  simp only [List.length_singleton, maxLine]
  omega

/-- A size line is read back as its hex digits. -/
theorem lineText_sizeLine (n : Nat) : lineText (sizeLine n) = .line (Nat.toDigits 16 n) :=
  lineText_utf8_cr _

/-- A lone carriage return is an empty line. -/
theorem lineText_cr : lineText [13] = .line [] := lineText_utf8_cr []

/-- A line of the chunk framing that is cut off: a timeout or an error. -/
theorem readLine_cut_frame (hd : Delivers read Holds weight) {buf data line : Bytes} {clean : Bool}
    {s : σ} (hs : Holds s data clean) (hline : 10 ∉ line) (hlen : (line ++ [10]).length ≤ maxLine)
    (hcut : buf ++ data <+: line ++ [10]) (hne : buf ++ data ≠ line ++ [10]) :
    Interrupted Holds weight (buf ++ data) clean (weight s) (readLine read buf s) ∨
      (∃ s', readLine read buf s = (.none, buf ++ data, s') ∧ Holds s' [] clean) ∨
      ∃ e s', readLine read buf s = (.failed e, buf ++ data, s') ∧ Holds s' [] clean := by
  rcases readLine_cut hd hs (not_mem_of_cut hline hcut hne) (hcut.length_le.trans hlen) with
    hint | ⟨hnil, rfl, s', hnone, hs', -⟩ | ⟨-, hfailed⟩
  · exact .inl hint
  · exact .inr (.inl ⟨s', hnil ▸ hnone, hs'⟩)
  · exact .inr (.inr hfailed)

/-- In the middle of a chunk the end comes too early. -/
theorem InData.nil {tail : Bytes} {n : Nat} {data p : Bytes} {clean : Bool}
    (h : InData tail n data p clean) (hn : 0 < n)
    (hdata : data = []) : p = [] ∧ clean = false := by
  cases h with
  | all hend =>
      obtain ⟨rfl, -⟩ := List.append_eq_nil_iff.mp hdata
      cases hn
  | cut hlt => exact ⟨hdata, rfl⟩

/-- A chunk in the middle is read on. -/
theorem InData.delivered (hd : Delivers read Holds weight) {inner : σ} {n want : Nat}
    {data p : Bytes} {tail : Bytes} {clean innerClean : Bool} (hin : Holds inner data innerClean)
    (hn : 0 < n)
    (hwant : 0 < want) (h : InData tail n data p clean) (fuel : Nat) :
    Delivered (ChunkedHolds Holds tail) (fun r => weight r.inner) (weight inner) p clean want
      (chunkedLoop read (fuel + 1) ⟨inner, .data n, []⟩ want) := by
  have hmin : 0 < min want n := by omega
  unfold chunkedLoop
  dsimp only
  rcases hd.step hin hmin with ⟨b, rest, inner', hread, hne, hle, hdata, hs, hw⟩
    | ⟨inner', hread, hs, hw⟩ |
    ⟨inner', hread, hdata, -, hs, -⟩ | ⟨e, inner', hread, hdata, -, hs⟩
  · rw [hread]
    have hb : 0 < b.length := List.length_pos_iff.mpr hne
    cases h with
    | @all d w p clean hend =>
        -- the bytes come from the chunk, since no more are asked for
        obtain ⟨d', rfl, rfl⟩ : ∃ d', d = b ++ d' ∧ rest = d' ++ w := by
          rcases List.append_eq_append_iff.mp hdata with ⟨more, hb', hw'⟩ | ⟨more, hd', hw'⟩
          · have hmore : more = [] := by
              have hlen := congrArg List.length hb'
              rw [List.length_append] at hlen
              exact List.length_eq_zero_iff.mp (by omega)
            subst hmore
            exact ⟨[], by simpa using hb'.symm, by simpa using hw'.symm⟩
          · exact ⟨more, hd', hw'⟩
        refine .inl ⟨b, d' ++ p, _, rfl, hne, by omega, by rw [List.append_assoc], ?_, hw⟩
        refine ⟨d' ++ w, innerClean, hs, by simp, ?_⟩
        have hleft : (b ++ d').length - b.length = d'.length := by
          rw [List.length_append]
          omega
        dsimp only
        rw [hleft]
        by_cases hd' : d'.length = 0
        · rw [if_pos hd']
          obtain rfl := List.length_eq_zero_iff.mp hd'
          exact hend
        · rw [if_neg hd']
          exact ⟨Nat.pos_of_ne_zero hd', rfl, .all hend⟩
    | cut hlt =>
        have hlen := congrArg List.length hdata
        rw [List.length_append] at hlen
        refine .inl ⟨b, rest, _, rfl, hne, by omega, hdata, ?_, hw⟩
        refine ⟨rest, innerClean, hs, by simp, ?_⟩
        dsimp only
        rw [if_neg (by omega)]
        exact ⟨by omega, rfl, .cut (by omega)⟩
  · rw [hread]
    exact .inr (.inl ⟨_, rfl, ⟨data, innerClean, hs, by simp, hn, rfl, h⟩, hw⟩)
  · rw [hread]
    obtain ⟨hp, hclean⟩ := h.nil hn hdata
    exact .inr (.inr (.inr ⟨_, _, rfl, hp, hclean, [], true, hs, by simp, hn, rfl, .cut hn⟩))
  · rw [hread]
    obtain ⟨hp, hclean⟩ := h.nil hn hdata
    exact .inr (.inr (.inr ⟨_, _, rfl, hp, hclean, [], false, hs, by simp, hn, rfl, .cut hn⟩))

/-- Reading chunks delivers what they carry, over any timeouts. -/
theorem chunkedLoop_delivered (hd : Delivers read Holds weight) {fuel : Nat} {r : ChunkedReader σ}
    {tail p : Bytes} {clean : Bool} {want : Nat} (h : ChunkedHolds Holds tail r p clean)
    (hwant : 0 < want) (hfuel : weight r.inner < fuel) :
    Delivered (ChunkedHolds Holds tail) (fun r => weight r.inner) (weight r.inner) p clean want
      (chunkedLoop read fuel r want) := by
  -- every round that goes on has read a line
  induction fuel generalizing r p clean with
  | zero => exact absurd hfuel (Nat.not_lt_zero _)
  | succ fuel ih =>
      obtain ⟨inner, state, line⟩ := r
      obtain ⟨data, innerClean, hin, hline, hstate⟩ := h
      have hgoOn : ∀ {state' : ChunkState} {inner' : σ}, weight inner' < weight inner →
          ChunkedHolds Holds tail ⟨inner', state', []⟩ p clean →
          Delivered (ChunkedHolds Holds tail) (fun r => weight r.inner) (weight inner) p clean want
            (chunkedLoop read fuel ⟨inner', state', []⟩ want) := by
        intro state' inner' hw hholds
        refine (ih hholds ?_).mono hw.le
        show weight inner' < fuel
        have : weight inner < fuel + 1 := hfuel
        omega
      have hnil : (10 : UInt8) ∉ ([] : Bytes) := by simp
      have hcr : (10 : UInt8) ∉ ([13] : Bytes) := by decide
      have hcrlf : ([13] ++ [10] : Bytes).length ≤ maxLine := by decide
      cases state with
      | size =>
          have hagain : ∀ {buf data' : Bytes} {inner' : σ}, buf ++ data' = line ++ data → 10 ∉ buf →
              Holds inner' data' innerClean →
                ChunkedHolds Holds tail ⟨inner', .size, buf⟩ p clean := by
            intro buf data' inner' htotal hbuf hs
            exact ⟨data', innerClean, hs, hbuf, htotal ▸ hstate⟩
          unfold chunkedLoop
          dsimp only at hstate hline hin ⊢
          generalize htotal : line ++ data = total at hstate
          cases hstate with
          | @chunk n w _ _ hpos hn hdata =>
              rcases readLine_found hd hin hline (ten_not_mem_sizeLine n)
                (by have := length_sizeLine_le hn; rw [List.length_append] at this; omega)
                    htotal with
                ⟨buf, data', inner', hread, heq, hbuf, hs, hw⟩ | ⟨inner', hread, hs, hw⟩
              · rw [hread]
                exact .inr (.inl ⟨_, rfl, hagain heq hbuf hs, hw⟩)
              · rw [hread, lineText_sizeLine]
                dsimp only
                rw [chunkSize_toDigits hn]
                dsimp only
                rw [if_neg (Nat.ne_of_gt hpos)]
                exact hgoOn hw ⟨w, innerClean, hs, hnil, hpos, rfl, hdata⟩
          | @last w _ htrailer =>
              rcases readLine_found hd hin hline (ten_not_mem_sizeLine 0) (by decide) htotal with
                ⟨buf, data', inner', hread, heq, hbuf, hs, hw⟩ | ⟨inner', hread, hs, hw⟩
              · rw [hread]
                exact .inr (.inl ⟨_, rfl, hagain heq hbuf hs, hw⟩)
              · rw [hread, lineText_sizeLine]
                dsimp only
                rw [chunkSize_toDigits (by decide)]
                dsimp only
                rw [if_pos rfl]
                exact hgoOn hw ⟨w, innerClean, hs, hnil, rfl, htrailer⟩
          | @cut n _ hcut hn hne =>
              have hstuck : ∀ {inner' : σ}, Holds inner' [] innerClean →
                  ChunkedHolds Holds tail ⟨inner', .size, line ++ data⟩ [] false := by
                intro inner' hs
                refine ⟨[], innerClean, hs, ?_, .cut (n := n) ?_ hn ?_⟩
                · rw [htotal]
                  exact not_mem_of_cut (ten_not_mem_sizeLine n) hcut hne
                · rw [List.append_nil, htotal]
                  exact hcut
                · rw [List.append_nil, htotal]
                  exact hne
              rcases readLine_cut_frame hd hin (ten_not_mem_sizeLine n) (length_sizeLine_le hn)
                (htotal ▸ hcut) (htotal ▸ hne) with
                ⟨buf, data', inner', hread, heq, hbuf, hs, hw⟩ | ⟨inner', hread, hs⟩
                  | ⟨e, inner', hread, hs⟩
              · rw [hread]
                exact .inr (.inl ⟨_, rfl, hagain heq hbuf hs, hw⟩)
              · rw [hread]
                exact .inr (.inr (.inr ⟨_, _, rfl, rfl, rfl, hstuck hs⟩))
              · rw [hread]
                exact .inr (.inr (.inr ⟨_, _, rfl, rfl, rfl, hstuck hs⟩))
      | data n =>
          obtain ⟨hn, rfl, hdata⟩ := hstate
          exact hdata.delivered hd hin hn hwant fuel
      | dataEnd =>
          have hagain : ∀ {buf data' : Bytes} {inner' : σ}, buf ++ data' = line ++ data → 10 ∉ buf →
              Holds inner' data' innerClean →
                ChunkedHolds Holds tail ⟨inner', .dataEnd, buf⟩ p clean := by
            intro buf data' inner' htotal hbuf hs
            exact ⟨data', innerClean, hs, hbuf, htotal ▸ hstate⟩
          unfold chunkedLoop
          dsimp only at hstate hline hin ⊢
          generalize htotal : line ++ data = total at hstate
          cases hstate with
          | @next w _ _ hnext =>
              rcases readLine_found hd hin hline hcr (by decide) htotal with
                ⟨buf, data', inner', hread, heq, hbuf, hs, hw⟩ | ⟨inner', hread, hs, hw⟩
              · rw [hread]
                exact .inr (.inl ⟨_, rfl, hagain heq hbuf hs, hw⟩)
              · rw [hread, lineText_cr]
                dsimp only
                rw [if_pos rfl]
                exact hgoOn hw ⟨w, innerClean, hs, hnil, hnext⟩
          | cut hcut hne =>
              have hstuck : ∀ {inner' : σ}, Holds inner' [] innerClean →
                  ChunkedHolds Holds tail ⟨inner', .dataEnd, line ++ data⟩ [] false := by
                intro inner' hs
                refine ⟨[], innerClean, hs, ?_, .cut ?_ ?_⟩
                · rw [htotal]
                  exact not_mem_of_cut hcr hcut hne
                · rw [List.append_nil, htotal]
                  exact hcut
                · rw [List.append_nil, htotal]
                  exact hne
              rcases readLine_cut_frame hd hin hcr hcrlf (htotal ▸ hcut) (htotal ▸ hne) with
                ⟨buf, data', inner', hread, heq, hbuf, hs, hw⟩ | ⟨inner', hread, hs⟩
                  | ⟨e, inner', hread, hs⟩
              · rw [hread]
                exact .inr (.inl ⟨_, rfl, hagain heq hbuf hs, hw⟩)
              · rw [hread]
                exact .inr (.inr (.inr ⟨_, _, rfl, rfl, rfl, hstuck hs⟩))
              · rw [hread]
                exact .inr (.inr (.inr ⟨_, _, rfl, rfl, rfl, hstuck hs⟩))
      | trailer =>
          obtain ⟨hp, hstate⟩ := hstate
          have hagain : ∀ {buf data' : Bytes} {inner' : σ}, buf ++ data' = line ++ data → 10 ∉ buf →
              Holds inner' data' innerClean →
                ChunkedHolds Holds tail ⟨inner', .trailer, buf⟩ p clean := by
            intro buf data' inner' htotal hbuf hs
            exact ⟨data', innerClean, hs, hbuf, hp, htotal ▸ hstate⟩
          unfold chunkedLoop
          dsimp only at hstate hline hin ⊢
          generalize htotal : line ++ data = total at hstate
          cases hstate with
          | finished =>
              rcases readLine_found hd hin hline hcr (by decide) htotal with
                ⟨buf, data', inner', hread, heq, hbuf, hs, hw⟩ | ⟨inner', hread, hs, hw⟩
              · rw [hread]
                exact .inr (.inl ⟨_, rfl, hagain heq hbuf hs, hw⟩)
              · rw [hread, lineText_cr]
                dsimp only
                rw [if_pos rfl]
                exact hgoOn hw ⟨tail, innerClean, hs, hnil, hp, rfl, rfl⟩
          | cut hcut hne =>
              have hstuck : ∀ {inner' : σ}, Holds inner' [] innerClean →
                  ChunkedHolds Holds tail ⟨inner', .trailer, line ++ data⟩ [] false := by
                intro inner' hs
                refine ⟨[], innerClean, hs, ?_, rfl, .cut ?_ ?_⟩
                · rw [htotal]
                  exact not_mem_of_cut hcr hcut hne
                · rw [List.append_nil, htotal]
                  exact hcut
                · rw [List.append_nil, htotal]
                  exact hne
              rcases readLine_cut_frame hd hin hcr hcrlf (htotal ▸ hcut) (htotal ▸ hne) with
                ⟨buf, data', inner', hread, heq, hbuf, hs, hw⟩ | ⟨inner', hread, hs⟩
                  | ⟨e, inner', hread, hs⟩
              · rw [hread]
                exact .inr (.inl ⟨_, rfl, hagain heq hbuf hs, hw⟩)
              · rw [hread]
                exact .inr (.inr (.inr ⟨_, _, rfl, hp, rfl, hstuck hs⟩))
              · rw [hread]
                exact .inr (.inr (.inr ⟨_, _, rfl, hp, rfl, hstuck hs⟩))
      | eof =>
          obtain ⟨rfl, rfl, rfl⟩ := hstate
          exact .inr (.inr (.inl
            ⟨_, rfl, rfl, rfl, ⟨data, innerClean, hin, hline, rfl, rfl, rfl⟩, Nat.le_refl _⟩))

/-- A chunk reader is a reader. -/
theorem readChunked_delivers (tail : Bytes) (hd : Delivers read Holds weight) :
    Delivers (readChunked read weight) (ChunkedHolds Holds tail) fun r => weight r.inner where
  step h hwant := chunkedLoop_delivered hd h hwant (Nat.lt_succ_self _)

/-! ## What a chunk writer writes -/

/-- The body that some writes make. -/
def chunkedBody (writes : List Bytes) : Bytes := writes.flatMap chunk ++ finish

/-- A chunk is its size line, its bytes and a line end. -/
theorem chunk_of_ne_nil {data : Bytes} (h : data ≠ []) :
    chunk data = sizeLine data.length ++ [10] ++ data ++ ([13] ++ [10]) := by
  rw [chunk, if_neg h, chunkHead, sizeLine, crlf]
  simp

/-- The last chunk is an empty one. -/
theorem finish_eq : finish = sizeLine 0 ++ [10] ++ ([13] ++ [10]) := by decide

/-- A prefix ends within the first part or in the second. -/
theorem prefix_append_cases {w a b : Bytes} (h : w <+: a ++ b) :
    (w <+: a ∧ w ≠ a) ∨ ∃ w', w = a ++ w' ∧ w' <+: b := by
  obtain ⟨rest, hrest⟩ := h
  rcases List.append_eq_append_iff.mp hrest with ⟨a', ha, -⟩ | ⟨w', hw, hb⟩
  · by_cases hne : w = a
    · exact .inr ⟨[], by rw [List.append_nil, hne], List.nil_prefix⟩
    · exact .inl ⟨⟨a', ha.symm⟩, hne⟩
  · exact .inr ⟨w', hw, ⟨rest, hb.symm⟩⟩

/-- A whole body carries all the writes, whatever stands behind it. -/
theorem atSize_chunkedBody {writes : List Bytes} (hlen : ∀ c ∈ writes, c.length < 2 ^ 64)
    (tail : Bytes) :
    AtSize tail (chunkedBody writes ++ tail) writes.flatten true := by
  unfold chunkedBody
  induction writes with
  | nil =>
      have hlast : AtSize tail (sizeLine 0 ++ 10 :: ([13] ++ 10 :: tail)) [] true := .last .finished
      rw [List.flatMap_nil, List.nil_append, finish_eq]
      simpa using hlast
  | cons c writes ih =>
      have ih := ih fun c' hc' => hlen c' (List.mem_cons_of_mem _ hc')
      rw [List.flatMap_cons, List.flatten_cons]
      by_cases hc : c = []
      · rw [hc, chunk, if_pos rfl]
        exact ih
      · rw [chunk_of_ne_nil hc]
        have hdata : InData tail c.length
            (c ++ ([13] ++ 10 :: (writes.flatMap chunk ++ finish ++ tail)))
            (c ++ writes.flatten) true := .all (.next ih)
        have := AtSize.chunk (List.length_pos_iff.mpr hc) (hlen c (List.mem_cons_self ..)) hdata
        simpa using this

/-- A body that is cut off carries a part of the writes. -/
theorem exists_atSize_of_cut {writes : List Bytes} (hlen : ∀ c ∈ writes, c.length < 2 ^ 64)
    (tail : Bytes) {w : Bytes} (h : w <+: chunkedBody writes) (hne : w ≠ chunkedBody writes) :
    ∃ p, p <+: writes.flatten ∧ AtSize tail w p false := by
  unfold chunkedBody at h hne
  induction writes generalizing w with
  | nil =>
      rw [List.flatMap_nil, List.nil_append, finish_eq] at h hne
      refine ⟨[], List.nil_prefix, ?_⟩
      rcases prefix_append_cases h with ⟨hcut, hne'⟩ | ⟨w', rfl, hw'⟩
      · exact .cut hcut (by decide) hne'
      · have hne' : w' ≠ [13] ++ [10] := fun h => hne (by rw [h])
        have hlast : AtSize tail (sizeLine 0 ++ 10 :: w') [] false := .last (.cut hw' hne')
        simpa using hlast
  | cons c writes ih =>
      have hlen' : ∀ c' ∈ writes, c'.length < 2 ^ 64 := fun c' hc' =>
        hlen c' (List.mem_cons_of_mem _ hc')
      rw [List.flatMap_cons] at h hne
      rw [List.flatten_cons]
      by_cases hc : c = []
      · rw [hc, chunk, if_pos rfl] at h hne
        rw [hc]
        exact ih hlen' h hne
      · have hpos := List.length_pos_iff.mpr hc
        have hc64 := hlen c (List.mem_cons_self ..)
        rw [chunk_of_ne_nil hc, List.append_assoc, List.append_assoc, List.append_assoc] at h hne
        -- the cut is in the size line, in the data, behind them, or in a later chunk
        rcases prefix_append_cases h with ⟨hcut, hne'⟩ | ⟨w₁, rfl, hw₁⟩
        · exact ⟨[], List.nil_prefix, .cut hcut hc64 hne'⟩
        have hchunk : ∀ {p : Bytes}, InData tail c.length w₁ p false →
            AtSize tail (sizeLine c.length ++ [10] ++ w₁) p false := by
          intro p hdata
          have := AtSize.chunk hpos hc64 hdata
          rwa [← List.singleton_append, ← List.append_assoc] at this
        rcases prefix_append_cases hw₁ with ⟨hcut, hne'⟩ | ⟨w₂, rfl, hw₂⟩
        · refine ⟨w₁, hcut.trans (List.prefix_append _ _), hchunk (.cut ?_)⟩
          exact lt_of_le_of_ne hcut.length_le fun heq => hne' (hcut.eq_of_length heq)
        rcases prefix_append_cases hw₂ with ⟨hcut, hne'⟩ | ⟨w₃, rfl, hw₃⟩
        · have := hchunk (.all (.cut hcut hne'))
          rw [List.append_nil] at this
          exact ⟨c, List.prefix_append _ _, this⟩
        · have hne' : w₃ ≠ writes.flatMap chunk ++ finish := fun h => hne (by rw [h])
          obtain ⟨p, hp, hsize⟩ := ih hlen' hw₃ hne'
          refine ⟨c ++ p, (List.prefix_append_right_inj c).mpr hp, hchunk (.all ?_)⟩
          exact .next hsize

/-! ## Readers that do not time out -/

/-- A line is read without timeouts. -/
theorem readLineLoop_steady {Q : σ → Prop} (hq : Steady read Q) (fuel : Nat) (buf : Bytes) {s : σ}
    (h : Q s) :
    (readLineLoop read fuel buf s).1 ≠ .timeout ∧ Q (readLineLoop read fuel buf s).2.2 := by
  induction fuel generalizing buf s with
  | zero => exact ⟨(fun heq => by cases heq), h⟩
  | succ fuel ih =>
      obtain ⟨hno, hs⟩ := hq.step s 1 h
      rw [readLineLoop]
      generalize read s 1 = answer at hno hs
      obtain ⟨answer, s'⟩ := answer
      cases answer with
      | eof =>
          dsimp only
          split <;> exact ⟨(fun heq => by cases heq), hs⟩
      | bytes b =>
          dsimp only
          split
          · refine ⟨?_, hs⟩
            unfold lineText
            split <;> exact fun heq => by cases heq
          · split
            · exact ⟨(fun heq => by cases heq), hs⟩
            · exact ih _ hs
      | timeout => exact absurd rfl hno
      | failed e => exact ⟨(fun heq => by cases heq), hs⟩

/-- Chunks are read without timeouts. -/
theorem chunkedLoop_steady {Q : σ → Prop} (hq : Steady read Q) (fuel : Nat) {r : ChunkedReader σ}
    (want : Nat) (h : Q r.inner) :
    (chunkedLoop read fuel r want).1 ≠ .timeout ∧ Q (chunkedLoop read fuel r want).2.inner := by
  induction fuel generalizing r with
  | zero => exact ⟨(fun heq => by cases heq), h⟩
  | succ fuel ih =>
      -- three of the five states begin by reading a line
      have hline := readLineLoop_steady hq (maxLine + 1 - r.line.length) r.line h
      rw [chunkedLoop]
      unfold readLine
      generalize readLineLoop read (maxLine + 1 - r.line.length) r.line r.inner = answer at hline
      obtain ⟨answer, line, inner⟩ := answer
      obtain ⟨hno, hs⟩ := hline
      cases hstate : r.state with
      | size =>
          cases answer with
          | timeout => exact absurd rfl hno
          | failed e => exact ⟨(fun heq => by cases heq), hs⟩
          | none => exact ⟨(fun heq => by cases heq), hs⟩
          | line text =>
              dsimp only
              split
              · exact ⟨(fun heq => by cases heq), hs⟩
              · exact ih hs
      | data remaining =>
          obtain ⟨hno, hs⟩ := hq.step r.inner (min want remaining) h
          dsimp only
          generalize read r.inner (min want remaining) = answer at hno hs
          obtain ⟨answer, inner⟩ := answer
          cases answer with
          | timeout => exact absurd rfl hno
          | failed e => exact ⟨(fun heq => by cases heq), hs⟩
          | eof => exact ⟨(fun heq => by cases heq), hs⟩
          | bytes b => exact ⟨(fun heq => by cases heq), hs⟩
      | dataEnd =>
          cases answer with
          | timeout => exact absurd rfl hno
          | failed e => exact ⟨(fun heq => by cases heq), hs⟩
          | none => exact ⟨(fun heq => by cases heq), hs⟩
          | line text =>
              dsimp only
              split
              · exact ih hs
              · exact ⟨(fun heq => by cases heq), hs⟩
      | trailer =>
          cases answer with
          | timeout => exact absurd rfl hno
          | failed e => exact ⟨(fun heq => by cases heq), hs⟩
          | none => exact ⟨(fun heq => by cases heq), hs⟩
          | line text => exact ih hs
      | eof => exact ⟨(fun heq => by cases heq), h⟩

/-- A chunk reader over a reader that does not time out. -/
theorem readChunked_steady (weight : σ → Nat) {Q : σ → Prop} (hq : Steady read Q) :
    Steady (readChunked read weight) fun r => Q r.inner where
  step _ want h := chunkedLoop_steady hq _ want h

end Liters
