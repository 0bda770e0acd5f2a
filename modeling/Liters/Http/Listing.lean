import Liters.Ltx.Filename
import Liters.Http.Client
import Liters.Http.Mount

/-! # Listings and files in text

The read side of a mount (`mount.rs`): a listing is a line for each file, a file is named in the
path and a range of it in the query. The client builds paths and queries and reads listing lines
back with a parser that skips what it cannot read (`client.rs`), so that whatever the formatter
writes must parse. -/

namespace Liters

/-! ## Files as storage backends list them -/

/-- What a listing says of a file. Times are in nanoseconds since the epoch. -/
structure FileEntry where
  level : UInt8
  minTxid : UInt64
  maxTxid : UInt64
  size : UInt64
  createdAt : Option Int
  deriving DecidableEq

/-- `(min, max)` order. -/
def FileEntry.le (f g : FileEntry) : Bool :=
  f.minTxid < g.minTxid || (f.minTxid == g.minTxid && f.maxTxid ≤ g.maxTxid)

/-- Errors from replica storage. -/
inductive StorageError where
  | notFound (level : UInt8) (minTxid maxTxid : UInt64)
  | ltx (msg : String)
  | io (msg : String)
  | unavailable (msg : String)
  | unauthorized (msg : String)
  | conflict (msg : String)
  | readOnly (msg : String)
  | cancelled
  | other (msg : String)

/-- The text of an error. -/
def StorageError.text : StorageError → String
  | .notFound level minTxid maxTxid => "ltx file not found: L" ++ toString level.toNat ++ " "
      ++ hexPad 16 minTxid.toNat ++ "-" ++ hexPad 16 maxTxid.toNat
  | .ltx msg => "ltx: " ++ msg
  | .io msg => msg
  | .unavailable msg => "storage unavailable: " ++ msg
  | .unauthorized msg => "unauthorized: " ++ msg
  | .conflict msg => "conflict: " ++ msg
  | .readOnly msg => "read-only: " ++ msg
  | .cancelled => "operation cancelled"
  | .other msg => msg

/-- The buffer bodies are copied through. -/
def copyBuffer : Nat := 64 * 1024

/-- What successive reads of an opened file return, and how they end: at the end of the file, or
with an error. -/
structure OpenedFile where
  pieces : List Bytes
  ending : Option IoError
  fits : ∀ p ∈ pieces, p ≠ [] ∧ p.length ≤ copyBuffer

/-- The read side of a backing client. Listings hold files of the level, sorted by `(min, max)`. -/
structure ReplicaClient where
  ltxFiles : (level : UInt8) → (seek : UInt64) → (useMetadata : Bool) →
    Except StorageError (List FileEntry)
  openLtxFile : (level : UInt8) → (minTxid maxTxid offset size : UInt64) →
    Except StorageError OpenedFile
  levels : ∀ level seek useMetadata infos, ltxFiles level seek useMetadata = .ok infos →
    ∀ f ∈ infos, f.level = level
  sorted : ∀ level seek useMetadata infos, ltxFiles level seek useMetadata = .ok infos →
    infos.Pairwise fun f g => f.le g

/-! ## Texts -/

/-- A file name. -/
def formatFilename (minTxid maxTxid : UInt64) : List Char :=
  txidText minTxid.toNat ++ '-' :: (txidText maxTxid.toNat ++ ".ltx".toList)

/-- A number in decimal digits. -/
def decimal (n : Nat) : List Char := Nat.toDigits 10 n

/-- The creation time as a listing tells it: whole milliseconds since the epoch, as many as 64 bits
hold. -/
def createdMillis (createdAt : Option Int) : Option Nat :=
  createdAt.bind fun t => if 0 ≤ t then some (min (t.toNat / 10 ^ 6) (2 ^ 64 - 1)) else none

/-- Milliseconds as a time. -/
def ofMillis (ms : Nat) : Int := ms * 10 ^ 6

/-- One line of a listing, without its newline. -/
def FileEntry.line (f : FileEntry) : List Char :=
  formatFilename f.minTxid f.maxTxid ++ ' ' :: (decimal f.size.toNat ++ ' ' ::
    ((createdMillis f.createdAt).map decimal).getD ['-'])

/-- `listing_line`. -/
def FileEntry.listingLine (f : FileEntry) : List Char := f.line ++ ['\n']

/-- `parse_listing_line`: name, size and creation time; more words are ignored. -/
def parseListingLine (line : List Char) (level : UInt8) : Option FileEntry :=
  match splitWhitespace line with
  | name :: size :: created :: _ => do
      let (minTxid, maxTxid) ← parseFilename (String.ofList name)
      let size ← fromStrRadix 10 64 size
      let createdAt := if created = ['-'] then none
        else (fromStrRadix 10 64 created).map ofMillis
      return ⟨level, UInt64.ofNat minTxid, UInt64.ofNat maxTxid, UInt64.ofNat size, createdAt⟩
  | _ => none

/-- A line without the carriage return at its end. -/
def dropReturn (line : List Char) : List Char :=
  if line.getLast? = some '\r' then line.dropLast else line

/-- The lines of a text: a newline ends a line, and the carriage return before it goes with it. -/
def linesOf (text : List Char) : List (List Char) :=
  let pieces := splitWhen (· = '\n') text
  pieces.dropLast.map dropReturn ++ pieces.getLast?.toList.filter fun line => line ≠ []

/-- The value of a pair `name=value`. -/
def pairValue (name pair : List Char) : Option (List Char) :=
  match pair.dropWhile (· ≠ '=') with
  | [] => none
  | _ :: value => if pair.takeWhile (· ≠ '=') = name then some value else none

/-- `query_param`: the value of the first pair of that name. -/
def queryParam (query name : List Char) : Option (List Char) :=
  (splitWhen (· = '&') query).findSome? (pairValue name)

/-! ## The mount -/

/-- What a mount answers with: bytes that are there, or a file that is read as it is sent. -/
inductive Body where
  | bytes (b : Bytes)
  | reader (file : OpenedFile)

/-- An answer, its framing not yet applied. -/
structure HttpResponse where
  status : Nat
  headers : Headers
  body : Body

/-- A text. -/
def HttpResponse.text (status : Nat) (body : List Char) : HttpResponse :=
  ⟨status, [("content-type", "text/plain; charset=utf-8")], .bytes (utf8 body)⟩

/-- An error line. -/
def HttpResponse.error (status : Nat) (msg : String) : HttpResponse :=
  .text status (msg.toList ++ ['\n'])

section
variable (client : ReplicaClient)

/-- `GET /ltx/{level}?seek={txid:016x}&meta=1`. -/
def serveListing (level : String) (query : List Char) : HttpResponse :=
  match parseLevel level with
  | none => .error 404 "no such level"
  | some level =>
      match (match queryParam query "seek".toList with
        | none => some 0
        | some s => parseTxid s) with
      | none => .error 400 "bad seek"
      | some seek =>
          let useMetadata := queryParam query "meta".toList = some ['1']
          match client.ltxFiles (UInt8.ofNat level) (UInt64.ofNat seek) useMetadata with
          | .error e => .error 500 ("list: " ++ e.text)
          | .ok infos => .text 200 (infos.flatMap FileEntry.listingLine)

/-- A number in the query, 0 without it. -/
def queryNumber (query name : List Char) : Option Nat :=
  match queryParam query name with
  | none => some 0
  | some value => fromStrRadix 10 64 value

/-- `GET /ltx/{level}/{name}?offset=N&size=M`. -/
def serveFile (level name : String) (query : List Char) : HttpResponse :=
  match parseLevel level with
  | none => .error 404 "no such level"
  | some level =>
      match parseFilename name with
      | none => .error 404 "no such file"
      | some (minTxid, maxTxid) =>
          match queryNumber query "offset".toList, queryNumber query "size".toList with
          | some offset, some size =>
              match client.openLtxFile (UInt8.ofNat level) (UInt64.ofNat minTxid)
                  (UInt64.ofNat maxTxid)
                  (UInt64.ofNat offset) (UInt64.ofNat size) with
              | .ok file => ⟨200, [("content-type", "application/octet-stream")], .reader file⟩
              | .error (.notFound _ _ _) => .error 404 "no such file"
              | .error e => .error 500 ("open: " ++ e.text)
          | _, _ => .error 400 "bad offset/size"

/-- What a GET of a mount comes to: an answer, or the follow feed. -/
inductive GetOutcome where
  | response (r : HttpResponse)
  | follow (query : List Char)

/-- `Mount::handle` for a GET; `path` is already stripped of the mount's prefix. -/
def handleGet (opts : MountOptions) (headers : Headers) (path : String) (query : List Char) :
    GetOutcome :=
  if opts.authToken.any fun expected => !authorized headers expected then
    .response (.error 401 "authorization required")
  else
    match segments path with
    | [""] => .response (.text 200 "liters 0.1.0\n".toList)
    | ["ltx", level] => .response (serveListing client level query)
    | ["ltx", level, name] => .response (serveFile client level name query)
    | ["stream"] => .follow query
    | _ => .response (.error 404 "not found")

end

/-! ## Round trips -/

/-- What a client reads of a listed file: the creation time in whole milliseconds. -/
def FileEntry.overHttp (f : FileEntry) : FileEntry :=
  { f with createdAt := (createdMillis f.createdAt).map ofMillis }

/-- A hex digit is read back. -/
theorem lowerHexDigit?_digitChar {d : Nat} (h : d < 16) : lowerHexDigit? d.digitChar = some d := by
  have : ∀ d < 16, lowerHexDigit? (Nat.digitChar d) = some d := by decide
  exact this d h

/-- A transaction number is read back from a file name. -/
theorem parseLowerHex_txidText (n : Nat) : parseLowerHex (txidText n) = some n := by
  have hsame : ∀ (digits : List Char) (m : Nat), (∀ ch ∈ digits, ∃ d < 16, ch = Nat.digitChar d) →
      digits.foldlM (fun n ch => (lowerHexDigit? ch).map fun d => n * 16 + d) m
        = digits.foldlM (appendDigit 16) m := by
    intro digits
    induction digits with
    | nil => exact fun _ _ => rfl
    | cons ch digits ih =>
        intro m h
        obtain ⟨d, hd, rfl⟩ := h ch (List.mem_cons_self ..)
        rw [List.foldlM_cons, List.foldlM_cons, lowerHexDigit?_digitChar hd,
          appendDigit_digitChar m hd le_rfl]
        exact ih _ fun x hx => h x (List.mem_cons_of_mem _ hx)
  rw [parseLowerHex, hsame _ _ fun ch hch => mem_txidText hch]
  exact ofDigits_txidText n

/-- A file name is read back. -/
theorem parseFilename_formatFilename (a b : UInt64) :
    parseFilename (String.ofList (formatFilename a b)) = some (a.toNat, b.toNat) := by
  have ha := length_txidText a.toNat_lt
  have hb := length_txidText b.toNat_lt
  have htake : (formatFilename a b).take 16 = txidText a.toNat := by
    rw [formatFilename, List.take_append_of_le_length ha.ge, List.take_of_length_le ha.le]
  have hdrop : (formatFilename a b).drop 16 = '-' :: (txidText b.toNat ++ ".ltx".toList) := by
    rw [formatFilename, List.drop_append_of_le_length ha.ge, List.drop_of_length_le ha.le,
      List.nil_append]
  have hdash : (formatFilename a b)[16]? = some '-' := by
    rw [← List.head?_drop, hdrop, List.head?_cons]
  have hdrop' : (formatFilename a b).drop 17 = txidText b.toNat ++ ".ltx".toList := by
    rw [← List.drop_drop (i := 1) (j := 16), hdrop]
    rfl
  have htake' : ((formatFilename a b).drop 17).take 16 = txidText b.toNat := by
    rw [hdrop', List.take_append_of_le_length hb.ge, List.take_of_length_le hb.le]
  have hext : (formatFilename a b).drop 33 = ".ltx".toList := by
    rw [← List.drop_drop (i := 16) (j := 17), hdrop', List.drop_append_of_le_length hb.ge,
      List.drop_of_length_le hb.le, List.nil_append]
  have hlen : (formatFilename a b).length = 37 := by
    rw [formatFilename, List.length_append, List.length_cons, List.length_append, ha, hb]
    rfl
  unfold parseFilename
  rw [String.toList_ofList]
  dsimp only
  rw [if_pos ⟨hlen, hext, hdash⟩, htake, htake', parseLowerHex_txidText, parseLowerHex_txidText]
  rfl

/-- A text that is read in lowercase digits consists of these. -/
theorem digitChar_of_parseLowerHex {text : List Char} {n : Nat} (h : parseLowerHex text = some n) :
    ∀ ch ∈ text, ∃ d < 16, ch = Nat.digitChar d := by
  have hdigit : ∀ ch : Char, (lowerHexDigit? ch).isSome → ∃ d < 16, ch = Nat.digitChar d := by
    intro ch hch
    -- the digits are checked one by one, characters above 'f' are none of them
    have hcodes : ∀ k < 103, (lowerHexDigit? (Char.ofNat k)).isSome →
        ∃ d < 16, Char.ofNat k = Nat.digitChar d := by decide +kernel
    have hlt : ch.toNat < 103 := by
      unfold lowerHexDigit? at hch
      by_contra hge
      have hnine : ¬ ch ≤ '9' := fun hle => hge (Nat.lt_of_le_of_lt hle (by decide))
      have hf : ¬ ch ≤ 'f' := fun hle => hge (Nat.lt_of_le_of_lt hle (by decide))
      rw [if_neg (fun h => hnine h.2), if_neg (fun h => hf h.2)] at hch
      cases hch
    have := hcodes ch.toNat hlt
    rw [Char.ofNat_toNat] at this
    exact this hch
  -- the fold stops at the first character that is no digit
  have hfold : ∀ (text : List Char) (m : Nat),
      text.foldlM (fun n ch => (lowerHexDigit? ch).map fun d => n * 16 + d) m = some n →
      ∀ ch ∈ text, (lowerHexDigit? ch).isSome := by
    intro text
    induction text with
    | nil => simp
    | cons ch text ih =>
        intro m hm
        rw [List.foldlM_cons] at hm
        obtain ⟨m', hm', hrest⟩ := Option.bind_eq_some_iff.mp hm
        refine List.forall_mem_cons.mpr ⟨?_, ih m' hrest⟩
        obtain ⟨d, hd, -⟩ := Option.map_eq_some_iff.mp hm'
        rw [hd]
        rfl
  intro ch hch
  exact hdigit ch (hfold text 0 h ch hch)

/-- The names that a mount accepts are those of `parse_filename`, which cuts them at bytes. -/
theorem parseFilename_eq (name : String) :
    Ltx.parseFilename name
      = .ok ((parseFilename name).map fun range =>
        (UInt64.ofNat range.1, UInt64.ofNat range.2)) := by
  by_cases hok : ∃ m n, m < 2 ^ 64 ∧ n < 2 ^ 64 ∧ name.toList = Ltx.rangeText m n ++ ".ltx".toList
  · obtain ⟨m, n, hm, hn, hname⟩ := hok
    have hofList : name = String.ofList (Ltx.rangeText m n ++ ".ltx".toList) := by
      rw [← hname, String.ofList_toList]
    have hformat : Ltx.rangeText m n ++ ".ltx".toList =
        formatFilename (UInt64.ofNat m) (UInt64.ofNat n) := by
      rw [formatFilename, UInt64.toNat_ofNat_of_lt' hm, UInt64.toNat_ofNat_of_lt' hn, Ltx.rangeText,
        List.append_assoc, List.cons_append]
    rw [hofList, Ltx.parseFilename_range hm hn, hformat, parseFilename_formatFilename,
      Option.map_some, UInt64.toNat_ofNat_of_lt' hm, UInt64.toNat_ofNat_of_lt' hn]
  · rw [Ltx.parseFilename_eq_none hok]
    cases hparse : parseFilename name with
    | none => rfl
    | some range =>
        -- what the mount accepts is a range with its ending
        unfold parseFilename at hparse
        dsimp only at hparse
        split at hparse
        · rename_i hshape
          obtain ⟨hlen, hext, hdash⟩ := hshape
          obtain ⟨m', hm', hparse⟩ := Option.bind_eq_some_iff.mp hparse
          obtain ⟨n', hn', -⟩ := Option.bind_eq_some_iff.mp hparse
          obtain ⟨m, hm, hmtext⟩ := Ltx.exists_txidText (by rw [List.length_take, hlen]; rfl)
            (digitChar_of_parseLowerHex hm')
          obtain ⟨n, hn, hntext⟩ :=
            Ltx.exists_txidText (by rw [List.length_take, List.length_drop, hlen]; rfl)
            (digitChar_of_parseLowerHex hn')
          refine absurd ⟨m, n, hm, hn, ?_⟩ hok
          have hdrop : name.toList.drop 16 = '-' :: name.toList.drop 17 :=
            List.drop_eq_getElem?_toList_append.trans (by rw [hdash]; rfl)
          have hdrop' : name.toList.drop 17 =
              (name.toList.drop 17).take 16 ++ name.toList.drop 33 := by
            rw [← List.drop_drop (i := 16) (j := 17), List.take_append_drop]
          rw [Ltx.rangeText, ← hmtext, ← hntext, ← hext, List.append_assoc, List.cons_append,
            ← hdrop', ← hdrop, List.take_append_drop]
        · cases hparse

/-- A file name is one word. -/
theorem word_formatFilename (a b : UInt64) : Word (formatFilename a b) where
  ne_nil := by
    intro h
    have := congrArg List.length h
    rw [formatFilename, List.length_append, List.length_cons] at this
    simp at this
  visible := by
    intro ch hch
    rcases List.mem_append.mp hch with hch | hch
    · exact (word_txidText a.toNat_lt).visible ch hch
    rcases List.mem_cons.mp hch with rfl | hch
    · decide
    rcases List.mem_append.mp hch with hch | hch
    · exact (word_txidText b.toNat_lt).visible ch hch
    · have hext : Word ".ltx".toList := by decide
      exact hext.visible ch hch

/-- A decimal number is one word. -/
theorem word_decimal (n : Nat) : Word (decimal n) := word_toDigits (by decide) (by decide) n

/-- A number of 64 bits is read back. -/
theorem fromStrRadix_decimal {n : Nat} (h : n < 2 ^ 64) : fromStrRadix 10 64 (decimal n) = some n :=
  fromStrRadix_toDigits (by decide) (by decide) h

/-- A decimal number is not the dash of a missing time. -/
theorem decimal_ne_dash (n : Nat) : decimal n ≠ ['-'] := by
  intro h
  have hmem : '-' ∈ Nat.toDigits 10 n := by
    rw [show Nat.toDigits 10 n = ['-'] from h]
    exact List.mem_cons_self ..
  obtain ⟨d, hd, hch⟩ := mem_toDigits (by decide) hmem
  have hnone : ∀ d < 10, '-' ≠ Nat.digitChar d := by decide
  exact hnone d hd hch

/-- A creation time sent over the wire has 64 bits. -/
theorem createdMillis_lt {createdAt : Option Int} {ms : Nat}
    (h : createdMillis createdAt = some ms) :
    ms < 2 ^ 64 := by
  unfold createdMillis at h
  obtain ⟨t, -, ht⟩ := Option.bind_eq_some_iff.mp h
  split at ht
  · obtain rfl := Option.some.inj ht
    omega
  · cases ht

/-- The creation time as it stands in a line. -/
theorem created_word (createdAt : Option Int) :
    Word (((createdMillis createdAt).map decimal).getD ['-']) := by
  cases createdMillis createdAt with
  | none => exact (by decide : Word ['-'])
  | some ms => exact word_decimal ms

/-- **A listing line is read back.** -/
theorem parseListingLine_line (f : FileEntry) :
    parseListingLine f.line f.level = some f.overHttp := by
  have hwords : splitWhitespace f.line = [formatFilename f.minTxid f.maxTxid, decimal f.size.toNat,
      ((createdMillis f.createdAt).map decimal).getD ['-']] := by
    rw [FileEntry.line, splitWhitespace_cons (word_formatFilename ..),
      splitWhitespace_cons (word_decimal _), splitWhitespace_word (created_word _)]
  have hcreated : (if ((createdMillis f.createdAt).map decimal).getD ['-'] = ['-'] then none
      else (fromStrRadix 10 64 (((createdMillis f.createdAt).map decimal).getD ['-'])).map ofMillis)
      = f.overHttp.createdAt := by
    unfold FileEntry.overHttp
    cases hms : createdMillis f.createdAt with
    | none => rfl
    | some ms =>
        simp only [Option.map_some, Option.getD_some]
        rw [if_neg (decimal_ne_dash ms), fromStrRadix_decimal (createdMillis_lt hms)]
        rfl
  unfold parseListingLine
  rw [hwords]
  simp only [parseFilename_formatFilename, fromStrRadix_decimal f.size.toNat_lt,
    Option.bind_eq_bind, Option.bind_some, Option.pure_def, hcreated, UInt64.ofNat_toNat]
  rfl

/-- A line of a listing is printable. -/
theorem FileEntry.printable_line (f : FileEntry) : Printable f.line := by
  refine printable_append (word_formatFilename ..).printable (printable_cons_space ?_)
  exact printable_append (word_decimal _).printable
    (printable_cons_space (created_word _).printable)

/-- Printable text holds no line ends. -/
theorem Printable.not_mem_of_lt {text : List Char} (h : Printable text) {ch : Char}
    (hch : ch.toNat < 32) :
    ch ∉ text := by
  intro hmem
  have := (h ch hmem).1
  omega

/-- **The lines of a listing are read back.** -/
theorem linesOf_listing (infos : List FileEntry) :
    linesOf (infos.flatMap FileEntry.listingLine) = infos.map FileEntry.line := by
  have hsplit : splitWhen (· = '\n') (infos.flatMap FileEntry.listingLine)
      = infos.map FileEntry.line ++ [[]] := by
    induction infos with
    | nil => rfl
    | cons f infos ih =>
        have hline : ∀ ch ∈ f.line, decide (ch = '\n') = false := by
          intro ch hch
          refine decide_eq_false fun heq => ?_
          exact f.printable_line.not_mem_of_lt (by decide : '\n'.toNat < 32) (heq ▸ hch)
        rw [List.flatMap_cons, FileEntry.listingLine, List.append_assoc, List.singleton_append,
          splitWhen_append_cons hline (by decide), ih]
        rfl
  have hreturn : ∀ f ∈ infos, dropReturn f.line = f.line := by
    intro f _
    refine if_neg fun hlast => ?_
    exact f.printable_line.not_mem_of_lt (by decide : '\r'.toNat < 32) (List.mem_of_getLast? hlast)
  rw [linesOf, hsplit, List.dropLast_concat, List.getLast?_concat, List.map_map]
  simpa using hreturn

/-! ## Requests -/

/-- The path of a level. -/
def listingPath (level : UInt8) : String := String.ofList ("/ltx/".toList ++ decimal level.toNat)

/-- The query of a listing. -/
def listingQuery (seek : UInt64) (useMetadata : Bool) : List Char :=
  "seek=".toList ++ txidText seek.toNat ++ if useMetadata then "&meta=1".toList else []

/-- The path of a file. -/
def filePath (level : UInt8) (minTxid maxTxid : UInt64) : String :=
  String.ofList ("/ltx/".toList ++ decimal level.toNat ++ '/' :: formatFilename minTxid maxTxid)

/-- The query of a range. The whole file is asked for without one. -/
def rangeQuery (offset size : UInt64) : List Char :=
  if offset > 0 ∨ size > 0 then
    "offset=".toList ++ decimal offset.toNat ++ "&size=".toList ++ decimal size.toNat
  else []

/-- A query pair is found under its own key. -/
theorem pairValue_pair {key : List Char} (hkey : '=' ∉ key) (value name : List Char) :
    pairValue name (key ++ '=' :: value) = if key = name then some value else none := by
  have hpos : ∀ ch ∈ key, decide (ch ≠ '=') = true := fun ch hch =>
    decide_eq_true fun heq => hkey (heq ▸ hch)
  unfold pairValue
  rw [List.takeWhile_append_of_pos hpos, List.dropWhile_append_of_pos hpos]
  simp

/-- The value of a pair that is followed by others. -/
theorem queryParam_cons {key value : List Char} (hkey : '=' ∉ key)
    (hpair : '&' ∉ key ++ '=' :: value) (rest name : List Char) :
    queryParam (key ++ '=' :: value ++ '&' :: rest) name
      = if key = name then some value else queryParam rest name := by
  have hfalse : ∀ ch ∈ key ++ '=' :: value, decide (ch = '&') = false := fun ch hch =>
    decide_eq_false fun heq => hpair (heq ▸ hch)
  unfold queryParam
  rw [splitWhen_append_cons hfalse (by decide), List.findSome?_cons, pairValue_pair hkey]
  by_cases hname : key = name
  · rw [if_pos hname, if_pos hname]
  · rw [if_neg hname, if_neg hname]

/-- The value of the last pair. -/
theorem queryParam_last {key value : List Char} (hkey : '=' ∉ key)
    (hpair : '&' ∉ key ++ '=' :: value) (name : List Char) :
    queryParam (key ++ '=' :: value) name = if key = name then some value else none := by
  have hfalse : ∀ ch ∈ key ++ '=' :: value, decide (ch = '&') = false := fun ch hch =>
    decide_eq_false fun heq => hpair (heq ▸ hch)
  unfold queryParam
  rw [splitWhen_eq_singleton hfalse, List.findSome?_cons, pairValue_pair hkey]
  by_cases hname : key = name
  · rw [if_pos hname]
  · rw [if_neg hname]
    rfl

/-- The digits of a number hold no separators. -/
theorem not_mem_of_digits {digits : List Char} (h : ∀ ch ∈ digits, ∃ d < 16, ch = Nat.digitChar d)
    {ch : Char} (hch : ∀ d < 16, ch ≠ Nat.digitChar d) : ch ∉ digits := by
  intro hmem
  obtain ⟨d, hd, heq⟩ := h ch hmem
  exact hch d hd heq

/-- The digits of a decimal number are hex digits too. -/
theorem digits_decimal (n : Nat) : ∀ ch ∈ decimal n, ∃ d < 16, ch = Nat.digitChar d := by
  intro ch hch
  obtain ⟨d, hd, heq⟩ := mem_toDigits (by decide) hch
  exact ⟨d, by omega, heq⟩

/-- A listing's query is read back. -/
theorem queryParam_listingQuery (seek : UInt64) (useMetadata : Bool) :
    queryParam (listingQuery seek useMetadata) "seek".toList = some (txidText seek.toNat) ∧
      (queryParam (listingQuery seek useMetadata) "meta".toList = some ['1'] ↔
        useMetadata = true) := by
  have hamp : '&' ∉ txidText seek.toNat :=
    not_mem_of_digits (fun ch hch => mem_txidText hch) (by decide)
  have hpair : '&' ∉ "seek".toList ++ '=' :: txidText seek.toNat := by
    rw [List.mem_append, List.mem_cons]
    rintro (h | h | h)
    · exact absurd h (by decide)
    · exact absurd h (by decide)
    · exact hamp h
  cases useMetadata with
  | false =>
      have hquery : listingQuery seek false = "seek".toList ++ '=' :: txidText seek.toNat :=
        List.append_nil _
      rw [hquery, queryParam_last (by decide) hpair, queryParam_last (by decide) hpair]
      simp
  | true =>
      have hquery : listingQuery seek true
          = "seek".toList ++ '=' :: txidText seek.toNat ++ '&' :: "meta=1".toList := rfl
      have hmeta : queryParam "meta=1".toList "meta".toList = some ['1'] := by decide
      rw [hquery, queryParam_cons (by decide) hpair, queryParam_cons (by decide) hpair, hmeta]
      simp

/-- A range is read back from its query. -/
theorem queryNumber_rangeQuery (offset size : UInt64) :
    queryNumber (rangeQuery offset size) "offset".toList = some offset.toNat ∧
      queryNumber (rangeQuery offset size) "size".toList = some size.toNat := by
  by_cases hrange : offset > 0 ∨ size > 0
  · -- neither name nor number has the separator in it
    have hamp : ∀ n, '&' ∉ decimal n := fun n => not_mem_of_digits (digits_decimal n) (by decide)
    have hquery : rangeQuery offset size = "offset".toList ++ '=' :: decimal offset.toNat ++
        '&' :: ("size".toList ++ '=' :: decimal size.toNat) := by
      rw [rangeQuery, if_pos hrange, List.append_assoc]
      rfl
    have hoffset : '&' ∉ "offset".toList ++ '=' :: decimal offset.toNat := by
      rw [List.mem_append, List.mem_cons]
      rintro (h | h | h)
      · exact absurd h (by decide)
      · exact absurd h (by decide)
      · exact hamp _ h
    have hsize : '&' ∉ "size".toList ++ '=' :: decimal size.toNat := by
      rw [List.mem_append, List.mem_cons]
      rintro (h | h | h)
      · exact absurd h (by decide)
      · exact absurd h (by decide)
      · exact hamp _ h
    constructor
    · rw [queryNumber, hquery, queryParam_cons (by decide) hoffset, if_pos rfl]
      exact fromStrRadix_decimal offset.toNat_lt
    · -- the first parameter is passed over
      rw [queryNumber, hquery, queryParam_cons (by decide) hoffset, if_neg (by decide),
        queryParam_last (by decide) hsize, if_pos rfl]
      exact fromStrRadix_decimal size.toNat_lt
  · -- without a range there is no query, and 0 is the default of both
    have hzero : offset = 0 ∧ size = 0 := by
      rw [not_or] at hrange
      exact ⟨UInt64.le_zero_iff.mp (UInt64.not_lt.mp hrange.1),
        UInt64.le_zero_iff.mp (UInt64.not_lt.mp hrange.2)⟩
    rw [rangeQuery, if_neg hrange, hzero.1, hzero.2]
    exact ⟨by decide, by decide⟩

/-- The segments of a path that starts with a slash and ends with a name. -/
theorem segments_of_slash {start name : List Char} (hhead : ∀ ch ∈ (start ++ name).head?, ch ≠ '/')
    (hne : name ≠ []) (hname : '/' ∉ name) :
    segments (String.ofList ('/' :: (start ++ name)))
      = (splitWhen (· = '/') (start ++ name)).map String.ofList := by
  have hkeep : ∀ l : List Char, (∀ ch ∈ l.head?, ch ≠ '/') → l.dropWhile (· = '/') = l := by
    intro l hl
    cases l with
    | nil => rfl
    | cons ch l => exact List.dropWhile_cons_of_neg (by simpa using hl ch rfl)
  have hfirst : ('/' :: (start ++ name)).dropWhile (· = '/') = start ++ name := by
    rw [List.dropWhile_cons_of_pos (by decide), hkeep _ hhead]
  have hlast : ∀ ch ∈ (start ++ name).reverse.head?, ch ≠ '/' := by
    rw [List.head?_reverse, List.getLast?_append_of_ne_nil _ hne]
    exact fun ch hch heq => hname (heq ▸ List.mem_of_getLast? hch)
  unfold segments
  rw [String.toList_ofList, hfirst, hkeep _ hlast, List.reverse_reverse]

/-- A name without slashes. -/
theorem slash_false {name : List Char} (h : '/' ∉ name) : ∀ ch ∈ name, decide (ch = '/') = false :=
  fun _ hch => decide_eq_false fun heq => h (heq ▸ hch)

/-- A name without a slash is one segment. -/
theorem splitWhen_slash {name : List Char} (h : '/' ∉ name) : splitWhen (· = '/') name = [name] :=
  splitWhen_eq_singleton (slash_false h)

/-- A name before a slash is a segment of its own. -/
theorem splitWhen_slash_cons {name : List Char} (h : '/' ∉ name) (rest : List Char) :
    splitWhen (· = '/') (name ++ '/' :: rest) = name :: splitWhen (· = '/') rest :=
  splitWhen_append_cons (slash_false h) (by decide) rest

/-- The segments of a listing's path. -/
theorem segments_listingPath (level : UInt8) :
    segments (listingPath level) = ["ltx", String.ofList (decimal level.toNat)] := by
  have hslash : '/' ∉ decimal level.toNat := not_mem_of_digits (digits_decimal _) (by decide)
  have hpath : listingPath level = String.ofList ('/' :: ("ltx/".toList ++ decimal level.toNat)) :=
    rfl
  have hsplit : "ltx/".toList ++ decimal level.toNat = "ltx".toList ++ '/' :: decimal level.toNat :=
    rfl
  rw [hpath, segments_of_slash (by simp) (word_decimal _).ne_nil hslash, hsplit,
    splitWhen_slash_cons (by decide), splitWhen_slash hslash]
  rfl

/-- A file name holds no separators of a url. -/
theorem not_mem_formatFilename (a b : UInt64) {ch : Char} (hdigit : ∀ d < 16, ch ≠ Nat.digitChar d)
    (hch : ch ∉ "-.ltx".toList) : ch ∉ formatFilename a b := by
  have hdigits : ∀ n, ch ∉ txidText n := fun n =>
    not_mem_of_digits (fun ch hch => mem_txidText hch) hdigit
  rw [formatFilename, List.mem_append, List.mem_cons, List.mem_append]
  rintro (h | h | h | h)
  · exact hdigits _ h
  · exact hch (h ▸ (by decide : '-' ∈ "-.ltx".toList))
  · exact hdigits _ h
  · exact hch (List.mem_cons_of_mem _ h)

/-- The segments of a file's path. -/
theorem segments_filePath (level : UInt8) (minTxid maxTxid : UInt64) :
    segments (filePath level minTxid maxTxid)
      = ["ltx", String.ofList (decimal level.toNat),
        String.ofList (formatFilename minTxid maxTxid)] := by
  have hlevel : '/' ∉ decimal level.toNat := not_mem_of_digits (digits_decimal _) (by decide)
  have hname : '/' ∉ formatFilename minTxid maxTxid :=
    not_mem_formatFilename minTxid maxTxid (by decide) (by decide)
  have hpath : filePath level minTxid maxTxid = String.ofList ('/' ::
      (("ltx/".toList ++ decimal level.toNat ++ ['/']) ++ formatFilename minTxid maxTxid)) := by
    rw [List.append_assoc]
    rfl
  have hsplit : ("ltx/".toList ++ decimal level.toNat ++ ['/']) ++ formatFilename minTxid maxTxid
      = "ltx".toList ++ '/' :: (decimal level.toNat ++ '/' :: formatFilename minTxid maxTxid) := by
    rw [List.append_assoc, List.append_assoc]
    rfl
  rw [hpath, segments_of_slash (by simp) (word_formatFilename ..).ne_nil hname, hsplit,
    splitWhen_slash_cons (by decide), splitWhen_slash_cons hlevel, splitWhen_slash hname]
  rfl

/-- A level is read back. -/
theorem parseLevel_decimal {level : UInt8} (h : level ≤ 9) :
    parseLevel (String.ofList (decimal level.toNat)) = some level.toNat := by
  have hall : ∀ n < 10, parseLevel (String.ofList (Nat.toDigits 10 n)) = some n := by decide
  exact hall _ (Nat.lt_succ_of_le (UInt8.le_iff_toNat_le.mp h))

/-! ## What a mount answers -/

section
variable {client : ReplicaClient} {opts : MountOptions} {headers : Headers} {level : UInt8}

/-- The mount takes the credentials. -/
def AcceptsToken (opts : MountOptions) (headers : Headers) : Prop :=
  ∀ expected, opts.authToken = some expected → authorized headers expected = true

/-- Accepted headers are not refused for their token. -/
theorem AcceptsToken.not_any (h : AcceptsToken opts headers) :
    ¬ (opts.authToken.any fun expected => !authorized headers expected) = true := by
  cases htoken : opts.authToken with
  | none => exact Bool.false_ne_true
  | some expected =>
      rw [Option.any_some, h expected htoken]
      exact Bool.false_ne_true

/-- **A listing** tells what the backing client lists. -/
theorem handleGet_listing (hauth : AcceptsToken opts headers) (hlevel : level ≤ 9) (seek : UInt64)
    (useMetadata : Bool) :
    handleGet client opts headers (listingPath level) (listingQuery seek useMetadata)
      = .response (match client.ltxFiles level seek useMetadata with
        | .error e => .error 500 ("list: " ++ e.text)
        | .ok infos => .text 200 (infos.flatMap FileEntry.listingLine)) := by
  obtain ⟨hseek, hmeta⟩ := queryParam_listingQuery seek useMetadata
  have hdecide : decide (queryParam (listingQuery seek useMetadata) "meta".toList = some ['1'])
      = useMetadata := by
    cases useMetadata with
    | true => exact decide_eq_true (hmeta.mpr rfl)
    | false => exact decide_eq_false fun h => Bool.false_ne_true (hmeta.mp h)
  have hroute : handleGet client opts headers (listingPath level) (listingQuery seek useMetadata)
      = .response (serveListing client (String.ofList (decimal level.toNat))
        (listingQuery seek useMetadata)) := by
    rw [handleGet, if_neg hauth.not_any, segments_listingPath]
    rfl
  rw [hroute, serveListing, parseLevel_decimal hlevel, hseek]
  simp only [parseTxid_txidText seek.toNat_lt, hdecide, UInt8.ofNat_toNat, UInt64.ofNat_toNat]

/-- **A file** is answered with what the backing client opens. -/
theorem handleGet_file (hauth : AcceptsToken opts headers) (hlevel : level ≤ 9)
    (minTxid maxTxid offset size : UInt64) :
    handleGet client opts headers (filePath level minTxid maxTxid) (rangeQuery offset size)
      = .response (match client.openLtxFile level minTxid maxTxid offset size with
        | .ok file => ⟨200, [("content-type", "application/octet-stream")], .reader file⟩
        | .error (.notFound _ _ _) => .error 404 "no such file"
        | .error e => .error 500 ("open: " ++ e.text)) := by
  obtain ⟨hoffset, hsize⟩ := queryNumber_rangeQuery offset size
  have hroute : handleGet client opts headers (filePath level minTxid maxTxid)
      (rangeQuery offset size)
      = .response (serveFile client (String.ofList (decimal level.toNat))
        (String.ofList (formatFilename minTxid maxTxid)) (rangeQuery offset size)) := by
    rw [handleGet, if_neg hauth.not_any, segments_filePath]
    rfl
  rw [hroute, serveFile, parseLevel_decimal hlevel, parseFilename_formatFilename, hoffset, hsize]
  simp only [UInt8.ofNat_toNat, UInt64.ofNat_toNat]

end

end Liters
