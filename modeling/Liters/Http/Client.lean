import Liters.Http.Stream
import Liters.Http.Wire
import Liters.Ltx.Txid

/-! # The follow feed on the wire

The text of the frames and the client that reads them (`HttpLtxStream`). Frame lines and raw bodies
alternate on one byte stream, the stream comes in chunks, the chunks in pieces with timeouts between
them; the events are those of the frames all the same. -/

namespace Liters

/-! ## The text of frames -/

/-- The line of a frame. -/
def Frame.line : Frame → List Char
  | .preamble => "liters-stream 1".toList
  | .ltx level minTxid maxTxid body =>
      "ltx ".toList ++ (Nat.toDigits 10 level ++
        ' ' :: (txidText minTxid ++ ' ' :: (txidText maxTxid
        ++ ' ' :: Nat.toDigits 10 body.length)))
  | .ping m => "ping ".toList ++ txidText m
  | .gap next => "gap ".toList ++ txidText next
  | .reset m => "reset ".toList ++ txidText m

/-- What follows the line of a frame. -/
def Frame.body : Frame → Bytes
  | .ltx _ _ _ body => body
  | _ => []

/-- A frame as it is written. -/
def Frame.bytes (f : Frame) : Bytes := utf8 f.line ++ 10 :: f.body

/-! ## The client -/

/-- What an `ltx` line says of the file behind it. -/
structure FrameInfo where
  level : Nat
  minTxid : Nat
  maxTxid : Nat
  size : Nat
  deriving DecidableEq

/-- What a client tells its caller. -/
inductive StreamEvent where
  | ltx (info : FrameInfo)
  | idle (bucketMax : Option Nat)
  | gap (next : Nat)
  | reset (bucketMax : Nat)
  | closed
  deriving DecidableEq

/-- Why a stream fails. -/
inductive StreamError where
  | unavailable (msg : String)
  | other (msg : String)

/-- What a client expects next. -/
inductive HttpStreamState where
  | preamble
  | frame
  | body (info : FrameInfo) (remaining : Nat)

/-- A client over a body reader. -/
structure HttpLtxStream (σ : Type) where
  body : σ
  line : Bytes := []
  state : HttpStreamState := .preamble

/-- Malformed framing is a protocol error, everything else comes from the transport. -/
def streamIoErr : IoError → StreamError
  | .invalidData msg => .other ("ltx stream: " ++ msg)
  | .unexpectedEof msg => .unavailable ("ltx stream: " ++ msg)
  | .other msg => .unavailable ("ltx stream: " ++ msg)

/-- The words of a text. -/
def splitWhitespace (text : List Char) : List (List Char) :=
  (splitWhen isSpace text).filter fun word => word ≠ []

/-- A line that does not parse. -/
def badFrame (what : String) (text : List Char) (more : String := "") : StreamError :=
  .other ("bad " ++ what ++ " " ++ (String.ofList text).quote ++ more)

/-- The line of an `ltx` frame. -/
def parseFrameLine (text : List Char) : Except StreamError FrameInfo :=
  match splitWhitespace text with
  | [tag, level, minTxid, maxTxid, size] =>
      if tag = "ltx".toList then
        match fromStrRadix 10 8 level, parseTxid minTxid, parseTxid maxTxid,
            fromStrRadix 10 64 size with
        | some level, some minTxid, some maxTxid, some size => .ok ⟨level, minTxid, maxTxid, size⟩
        | _, _, _, _ => .error (badFrame "stream frame" text)
      else .error (badFrame "stream frame" text)
  | _ => .error (badFrame "stream frame" text)

/-- What follows a prefix. -/
def stripPrefix (start text : List Char) : Option (List Char) :=
  if start.isPrefixOf text then some (text.drop start.length) else none

/-- A frame line: an event by itself, or a body to come. -/
def frameLine (text : List Char) : Except StreamError (StreamEvent ⊕ FrameInfo) :=
  match stripPrefix "ping ".toList text with
  | some rest =>
      match parseTxid (trim rest) with
      | some m => .ok (.inl (.idle (some m)))
      | none => .error (badFrame "ping frame" text)
  | none =>
      match stripPrefix "gap ".toList text with
      | some rest =>
          match parseTxid (trim rest) with
          | some next => .ok (.inl (.gap next))
          | none => .error (badFrame "gap frame" text)
      | none =>
          match stripPrefix "reset ".toList text with
          | some rest =>
              match parseTxid (trim rest) with
              | some m => .ok (.inl (.reset m))
              | none => .error (badFrame "reset frame" text)
          | none => (parseFrameLine text).map .inr

variable {σ : Type} (read : σ → Nat → ReadResult IoError × σ)

/-- The loop of `next`; `sink` is what has been written to the caller's sink. Timeouts between
frames are told, timeouts within a body are not. -/
def nextLoop : Nat → HttpLtxStream σ → Bytes →
    Except StreamError StreamEvent × Bytes × HttpLtxStream σ
  | 0, s, sink => (.error (.other "stuck"), sink, s)
  | fuel + 1, s, sink =>
      match s.state with
      | .body info remaining =>
          if remaining = 0 then (.ok (.ltx info), sink, { s with state := .frame })
          else
            match read s.body (min remaining 8192) with
            | (.eof, body) =>
                (.error (.unavailable "stream ended mid-frame"), sink, { s with body })
            | (.bytes b, body) =>
                nextLoop fuel { s with body, state := .body info (remaining - b.length) }
                  (sink ++ b)
            | (.timeout, body) => nextLoop fuel { s with body } sink
            | (.failed e, body) => (.error (streamIoErr e), sink, { s with body })
      | .frame =>
          match readLine read s.line s.body with
          | (.timeout, line, body) => (.ok (.idle none), sink, { s with line, body })
          | (.failed e, line, body) => (.error (streamIoErr e), sink, { s with line, body })
          | (.none, line, body) => (.ok .closed, sink, { s with line, body })
          | (.line text, line, body) =>
              match frameLine text with
              | .error e => (.error e, sink, { s with line, body })
              | .ok (.inl event) => (.ok event, sink, { s with line, body })
              | .ok (.inr info) => nextLoop fuel ⟨body, line, .body info info.size⟩ sink
      | .preamble =>
          match readLine read s.line s.body with
          | (.timeout, line, body) => (.ok (.idle none), sink, { s with line, body })
          | (.failed e, line, body) => (.error (streamIoErr e), sink, { s with line, body })
          | (.none, line, body) =>
              (.error (.unavailable "stream closed before preamble"), sink, { s with line, body })
          | (.line text, line, body) =>
              if text = Frame.preamble.line then nextLoop fuel ⟨body, line, .frame⟩ sink
              else (.error (badFrame "stream preamble" text " (expected \"liters-stream 1\")"),
                sink, { s with line, body })

/-- `HttpLtxStream::next` with the dead-man bound not reached and without cancellation: what it
returns, what it wrote to the sink, and the stream behind it. -/
def HttpLtxStream.next (weight : σ → Nat) (s : HttpLtxStream σ) :
    Except StreamError StreamEvent × Bytes × HttpLtxStream σ :=
  nextLoop read (weight s.body + 1) s []

/-- Successive calls up to the end of the stream or an error, at most `calls` of them. -/
def nextCalls (weight : σ → Nat) :
    Nat → HttpLtxStream σ → List (Except StreamError StreamEvent × Bytes)
  | 0, _ => []
  | calls + 1, s =>
      match s.next read weight with
      | (.error e, sink, _) => [(.error e, sink)]
      | (.ok .closed, sink, _) => [(.ok .closed, sink)]
      | (.ok event, sink, s') => (.ok event, sink) :: nextCalls weight calls s'

/-! ## Frame lines are read back -/

/-- Numbers within the fields of a frame. -/
def Frame.Fits : Frame → Prop
  | .preamble => False
  | .ltx level minTxid maxTxid body =>
      level < 2 ^ 8 ∧ minTxid < 2 ^ 64 ∧ maxTxid < 2 ^ 64 ∧ body.length < 2 ^ 64
  | .ping m => m < 2 ^ 64
  | .gap next => next < 2 ^ 64
  | .reset m => m < 2 ^ 64

/-- Words with single spaces between them are the words of the text. -/
theorem splitWhitespace_cons {word rest : List Char} (h : Word word) :
    splitWhitespace (word ++ ' ' :: rest) = word :: splitWhitespace rest := by
  unfold splitWhitespace
  rw [splitWhen_append_cons (isSpace_of_word h) (by decide),
    List.filter_cons_of_pos (by simpa using h.ne_nil)]

/-- A word is split into itself. -/
theorem splitWhitespace_word {word : List Char} (h : Word word) :
    splitWhitespace word = [word] := by
  unfold splitWhitespace
  rw [splitWhen_eq_singleton (isSpace_of_word h), List.filter_cons_of_pos (by simpa using h.ne_nil)]
  rfl

/-- What a client makes of a frame. -/
def Frame.told : Frame → StreamEvent
  | .preamble => .idle none
  | .ltx level minTxid maxTxid body => .ltx ⟨level, minTxid, maxTxid, body.length⟩
  | .ping m => .idle (some m)
  | .gap next => .gap next
  | .reset m => .reset m

/-- The line of an `ltx` frame is read back. -/
theorem frameLine_ltx {level minTxid maxTxid : Nat} {body : Bytes}
    (h : (Frame.ltx level minTxid maxTxid body).Fits) :
    frameLine (Frame.ltx level minTxid maxTxid body).line
      = .ok (.inr ⟨level, minTxid, maxTxid, body.length⟩) := by
  obtain ⟨hlevel, hmin, hmax, hsize⟩ := h
  have htag : Word "ltx".toList := by decide
  have hten : ∀ n, Word (Nat.toDigits 10 n) := word_toDigits (by decide) (by decide)
  have hwords : splitWhitespace (Frame.ltx level minTxid maxTxid body).line
      = ["ltx".toList, Nat.toDigits 10 level, txidText minTxid, txidText maxTxid,
          Nat.toDigits 10 body.length] := by
    have hline : (Frame.ltx level minTxid maxTxid body).line
        = "ltx".toList ++ ' ' :: (Nat.toDigits 10 level ++ ' ' :: (txidText minTxid ++ ' ' ::
          (txidText maxTxid ++ ' ' :: Nat.toDigits 10 body.length))) := rfl
    rw [hline, splitWhitespace_cons htag, splitWhitespace_cons (hten level),
      splitWhitespace_cons (word_txidText hmin), splitWhitespace_cons (word_txidText hmax),
      splitWhitespace_word (hten body.length)]
  have hparse : parseFrameLine (Frame.ltx level minTxid maxTxid body).line
      = .ok ⟨level, minTxid, maxTxid, body.length⟩ := by
    rw [parseFrameLine, hwords]
    simp only [if_true, fromStrRadix_toDigits (by decide : 1 < 10) (by decide) hlevel,
      parseTxid_txidText hmin, parseTxid_txidText hmax,
      fromStrRadix_toDigits (by decide : 1 < 10) (by decide) hsize]
  -- the other tags do not match
  have hother : ∀ start ∈ ["ping ".toList, "gap ".toList, "reset ".toList],
      stripPrefix start (Frame.ltx level minTxid maxTxid body).line = none := by
    intro start hstart
    simp only [List.mem_cons, List.not_mem_nil, or_false] at hstart
    rcases hstart with rfl | rfl | rfl <;> rfl
  rw [frameLine, hother _ (by simp), hother _ (by simp), hother _ (by simp), hparse]
  rfl

/-- What starts with a prefix loses it. -/
theorem stripPrefix_append (start text : List Char) :
    stripPrefix start (start ++ text) = some text := by
  rw [stripPrefix, if_pos (List.isPrefixOf_iff_prefix.mpr (List.prefix_append _ _)), List.drop_left]

/-- The line of any other frame is read back. -/
theorem frameLine_of_body_nil {f : Frame} (h : f.Fits) (hltx : ∀ l a b c, f ≠ .ltx l a b c) :
    frameLine f.line = .ok (.inl f.told) := by
  have hparse : ∀ n, n < 2 ^ 64 → parseTxid (trim (txidText n)) = some n := by
    intro n hn
    rw [trim_word (word_txidText hn), parseTxid_txidText hn]
  cases f with
  | preamble => cases h
  | ltx level minTxid maxTxid body => exact absurd rfl (hltx level minTxid maxTxid body)
  | ping m =>
      have hline : (Frame.ping m).line = "ping ".toList ++ txidText m := rfl
      have hp := hparse m h
      simp only [frameLine, hline, stripPrefix_append, hp]
      rfl
  | gap next =>
      have hline : (Frame.gap next).line = "gap ".toList ++ txidText next := rfl
      have hping : stripPrefix "ping ".toList ("gap ".toList ++ txidText next) = none := rfl
      have hp := hparse next h
      simp only [frameLine, hline, hping, stripPrefix_append, hp]
      rfl
  | reset m =>
      have hline : (Frame.reset m).line = "reset ".toList ++ txidText m := rfl
      have hping : stripPrefix "ping ".toList ("reset ".toList ++ txidText m) = none := rfl
      have hgap : stripPrefix "gap ".toList ("reset ".toList ++ txidText m) = none := rfl
      have hp := hparse m h
      simp only [frameLine, hline, hping, hgap, stripPrefix_append, hp]
      rfl

/-- A blank is printable. -/
theorem printable_cons_space {text : List Char} (h : Printable text) : Printable (' ' :: text) := by
  intro ch hch
  rcases List.mem_cons.mp hch with rfl | hch
  · decide
  · exact h ch hch

/-- Frame lines are printable. -/
theorem Frame.Fits.printable {f : Frame} (h : f.Fits) : Printable f.line := by
  have hten : ∀ n, Printable (Nat.toDigits 10 n) := fun n =>
    (word_toDigits (by decide) (by decide) n).printable
  cases f with
  | preamble => cases h
  | ltx level minTxid maxTxid body =>
      obtain ⟨-, hmin, hmax, -⟩ := h
      refine printable_append (by decide) (printable_append (hten level) (printable_cons_space ?_))
      refine printable_append (word_txidText hmin).printable (printable_cons_space ?_)
      exact printable_append (word_txidText hmax).printable
        (printable_cons_space (hten body.length))
  | ping m => exact printable_append (by decide) (word_txidText h).printable
  | gap next => exact printable_append (by decide) (word_txidText h).printable
  | reset m => exact printable_append (by decide) (word_txidText h).printable

/-- Frame lines are short. -/
theorem Frame.Fits.length_le {f : Frame} (h : f.Fits) : f.line.length ≤ 100 := by
  -- a tag and a transaction number
  have htag : ∀ (tag : List Char) (n : Nat), tag.length ≤ 6 → n < 2 ^ 64 →
      (tag ++ txidText n).length ≤ 100 := by
    intro tag n htag hn
    rw [List.length_append, length_txidText hn]
    omega
  have hltx : ∀ a b c d : List Char, a.length ≤ 3 → b.length = 16 → c.length = 16 → d.length ≤ 20 →
      ("ltx ".toList ++ (a ++ ' ' :: (b ++ ' ' :: (c ++ ' ' :: d)))).length ≤ 100 := by
    intro a b c d ha hb hc hd
    have htag : "ltx ".toList.length = 4 := rfl
    simp only [List.length_append, List.length_cons, htag]
    omega
  cases f with
  | preamble => cases h
  | ltx level minTxid maxTxid body =>
      obtain ⟨hlevel, hmin, hmax, hsize⟩ := h
      have h1 : (Nat.toDigits 10 level).length ≤ 3 :=
        (Nat.length_toDigits_le_iff (by decide) (by decide)).mpr (hlevel.trans (by decide))
      have h2 : (Nat.toDigits 10 body.length).length ≤ 20 :=
        (Nat.length_toDigits_le_iff (by decide) (by decide)).mpr (hsize.trans (by decide))
      exact hltx _ _ _ _ h1 (length_txidText hmin) (length_txidText hmax) h2
  | ping m => exact htag "ping ".toList m (by decide) h
  | gap next => exact htag "gap ".toList next (by decide) h
  | reset m => exact htag "reset ".toList m (by decide) h

/-! ## What a stream tells -/

/-- `Tells w clean frames`: between two frames, the bytes `w` are those of some frames and then end,
or are cut off within another. -/
inductive Tells : Bytes → Bool → List Frame → Prop where
  | finished : Tells [] true []
  | cut {f : Frame} {w : Bytes} (hf : f.Fits) (h : w <+: f.bytes) (hne : w ≠ f.bytes) :
      Tells w false []
  | frame {f : Frame} {w : Bytes} {clean : Bool} {frames : List Frame} (hf : f.Fits)
      (h : Tells w clean frames) : Tells (f.bytes ++ w) clean (f :: frames)

/-- The same before the preamble. -/
inductive TellsFirst : Bytes → Bool → List Frame → Prop where
  | cut {w : Bytes} (h : w <+: Frame.preamble.bytes) (hne : w ≠ Frame.preamble.bytes) :
      TellsFirst w false []
  | frames {w : Bytes} {clean : Bool} {frames : List Frame} (h : Tells w clean frames) :
      TellsFirst (Frame.preamble.bytes ++ w) clean frames

/-- What a client at a call has still to tell. -/
def StreamHolds (Holds : σ → Bytes → Bool → Prop) (s : HttpLtxStream σ) (clean : Bool)
    (frames : List Frame) : Prop :=
  ∃ data, Holds s.body data clean ∧ 10 ∉ s.line ∧
    match s.state with
    | .preamble => TellsFirst (s.line ++ data) clean frames
    | .frame => Tells (s.line ++ data) clean frames
    | .body _ _ => False

/-- What a call of `next` comes to: a tick, the next frame with its body in the sink, the end, or an
error. -/
def Told (Holds : σ → Bytes → Bool → Prop) (weight : σ → Nat) (n : Nat) (clean : Bool)
    (frames : List Frame) (r : Except StreamError StreamEvent × Bytes × HttpLtxStream σ) : Prop :=
  (∃ s, r = (.ok (.idle none), [], s) ∧ StreamHolds Holds s clean frames ∧ weight s.body < n) ∨
    (∃ f rest s, frames = f :: rest ∧ f.Fits ∧ r = (.ok f.told, f.body, s) ∧
      StreamHolds Holds s clean rest ∧ weight s.body < n) ∨
    (∃ s, frames = [] ∧ clean = true ∧ r = (.ok .closed, [], s)) ∨
    ∃ e sink s, frames = [] ∧ clean = false ∧ r = (.error e, sink, s)

/-- A larger bound on what is left is a bound too. -/
theorem Told.mono {Holds : σ → Bytes → Bool → Prop} {weight : σ → Nat} {n m : Nat} {clean : Bool}
    {frames : List Frame} {r : Except StreamError StreamEvent × Bytes × HttpLtxStream σ}
    (h : Told Holds weight n clean frames r) (hle : n ≤ m) :
    Told Holds weight m clean frames r := by
  rcases h with ⟨s, hr, hs, hw⟩ | ⟨f, rest, s, hf, hfit, hr, hs, hw⟩ | hclosed | herror
  · exact .inl ⟨s, hr, hs, hw.trans_le hle⟩
  · exact .inr (.inl ⟨f, rest, s, hf, hfit, hr, hs, hw.trans_le hle⟩)
  · exact .inr (.inr (.inl hclosed))
  · exact .inr (.inr (.inr herror))

variable {read} {Holds : σ → Bytes → Bool → Prop} {weight : σ → Nat}

/-- A body that is there is copied to the sink, over any timeouts. -/
theorem nextLoop_body (hd : Delivers read Holds weight) (fuel : Nat) (line : Bytes)
    (info : FrameInfo) {body : σ} {d w : Bytes} {clean : Bool} (hs : Holds body (d ++ w) clean)
    (sink : Bytes) (hfuel : weight body < fuel) :
    ∃ body', nextLoop read fuel ⟨body, line, .body info d.length⟩ sink
        = (.ok (.ltx info), sink ++ d, ⟨body', line, .frame⟩) ∧ Holds body' w clean ∧
      weight body' ≤ weight body := by
  induction fuel generalizing body d sink with
  | zero => exact absurd hfuel (Nat.not_lt_zero _)
  | succ fuel ih =>
      rw [nextLoop]
      dsimp only
      by_cases hd0 : d.length = 0
      · -- the body is complete, and the frame state is next
        obtain rfl := List.length_eq_zero_iff.mp hd0
        rw [if_pos hd0, List.append_nil]
        exact ⟨body, rfl, hs, Nat.le_refl _⟩
      · rw [if_neg hd0]
        rcases hd.step hs (by omega : 0 < min d.length 8192) with
          ⟨b, rest, body', hread, -, hle, hdata, hs', hw⟩ | ⟨body', hread, hs', hw⟩ |
          ⟨body', -, hdata, -⟩ | ⟨e, body', -, hdata, -⟩
        · -- no more is asked for than is left of the body
          obtain ⟨d', rfl, rfl⟩ : ∃ d', d = b ++ d' ∧ rest = d' ++ w := by
            rcases List.append_eq_append_iff.mp hdata with ⟨more, hb, hw'⟩ | ⟨more, hd', hw'⟩
            · have hmore : more = [] := by
                have hlen := congrArg List.length hb
                rw [List.length_append] at hlen
                exact List.length_eq_zero_iff.mp (by omega)
              subst hmore
              exact ⟨[], by simpa using hb.symm, by simpa using hw'.symm⟩
            · exact ⟨more, hd', hw'⟩
          rw [hread]
          dsimp only
          have hleft : (b ++ d').length - b.length = d'.length := by
            rw [List.length_append]
            omega
          rw [hleft]
          obtain ⟨body'', hloop, hs'', hw'⟩ := ih hs' (sink ++ b) (by omega)
          exact ⟨body'', by rw [hloop, List.append_assoc], hs'', hw'.trans hw.le⟩
        · -- a timeout inside a body is not reported: the loop reads again
          rw [hread]
          obtain ⟨body'', hloop, hs'', hw'⟩ := ih hs' sink (by omega)
          exact ⟨body'', hloop, hs'', hw'.trans hw.le⟩
        · -- the source cannot end while part of the body is owed
          exact absurd (List.append_eq_nil_iff.mp hdata).1 fun h => hd0 (by rw [h]; rfl)
        · exact absurd (List.append_eq_nil_iff.mp hdata).1 fun h => hd0 (by rw [h]; rfl)

/-- A body that is cut off is an error, whatever is in the sink. -/
theorem nextLoop_cut (hd : Delivers read Holds weight) (fuel : Nat) (line : Bytes)
    (info : FrameInfo) {body : σ} {d : Bytes} {remaining : Nat} (hs : Holds body d false)
    (sink : Bytes) (hcut : d.length < remaining) (hfuel : weight body < fuel) :
    ∃ e sink' s, nextLoop read fuel ⟨body, line, .body info remaining⟩ sink =
      (.error e, sink', s) := by
  induction fuel generalizing body d remaining sink with
  | zero => exact absurd hfuel (Nat.not_lt_zero _)
  | succ fuel ih =>
      rw [nextLoop]
      dsimp only
      rw [if_neg (by omega)]
      rcases hd.step hs (by omega : 0 < min remaining 8192) with
        ⟨b, rest, body', hread, -, hle, hdata, hs', hw⟩ | ⟨body', hread, hs', hw⟩ |
        ⟨body', -, -, hclean, -⟩ | ⟨e, body', hread, -⟩
      · rw [hread]
        have hlen := congrArg List.length hdata
        rw [List.length_append] at hlen
        exact ih hs' _ (by omega) (by omega)
      · rw [hread]
        exact ih hs' _ hcut (by omega)
      · cases hclean
      · rw [hread]
        exact ⟨_, _, _, rfl⟩

/-- A frame is its line, a newline and its body. -/
theorem Frame.bytes_eq (f : Frame) : f.bytes = utf8 f.line ++ [10] ++ f.body := by
  simp [Frame.bytes]

/-- A frame that fits has a line the client accepts. -/
theorem Frame.Fits.length_bytes_le {f : Frame} (h : f.Fits) :
    (utf8 f.line ++ [10]).length ≤ maxLine := by
  have := h.length_le
  rw [List.length_append, length_utf8_of_printable h.printable]
  simp only [List.length_singleton, maxLine]
  omega

/-- A frame line with its newline ahead is read, or a timeout comes first. -/
theorem readLine_frame (hd : Delivers read Holds weight) {f : Frame} (hf : f.Fits) {body : σ}
    {line data rest : Bytes} {clean : Bool} (hs : Holds body data clean) (hline : 10 ∉ line)
    (h : line ++ data = utf8 f.line ++ [10] ++ rest) :
    Interrupted Holds weight (line ++ data) clean (weight body) (readLine read line body) ∨
      ∃ body', readLine read line body = (.line f.line, [], body') ∧ Holds body' rest clean ∧
        weight body' < weight body := by
  rw [List.append_assoc] at h
  have hlen := hf.length_bytes_le
  rw [List.length_append] at hlen
  rcases readLine_found hd hs hline (ten_not_mem_utf8 hf.printable) (by omega) h with hint | hfound
  · exact .inl hint
  · rw [lineText_utf8 hf.printable] at hfound
    exact .inr hfound

/-- `next` between two frames. -/
theorem nextLoop_frame (hd : Delivers read Holds weight) {fuel : Nat} {body : σ} {line data : Bytes}
    {clean : Bool} {frames : List Frame} (hs : Holds body data clean) (hline : 10 ∉ line)
    (h : Tells (line ++ data) clean frames) (hfuel : weight body < fuel) :
    Told Holds weight (weight body) clean frames (nextLoop read fuel ⟨body, line, .frame⟩ []) := by
  obtain ⟨fuel, rfl⟩ := Nat.exists_eq_succ_of_ne_zero (Nat.ne_of_gt (Nat.zero_lt_of_lt hfuel))
  -- a timeout leaves everything to be told
  have htick : Interrupted Holds weight (line ++ data) clean (weight body)
      (readLine read line body) →
      Told Holds weight (weight body) clean frames
        (nextLoop read (fuel + 1) ⟨body, line, .frame⟩ []) := by
    rintro ⟨buf, data', body', hread, htotal, hbuf, hs', hw⟩
    rw [nextLoop]
    dsimp only
    rw [hread]
    exact .inl ⟨_, rfl, ⟨data', hs', hbuf, htotal ▸ h⟩, hw⟩
  generalize htotal : line ++ data = total at h
  rw [htotal] at htick
  cases h with
  | finished =>
      rcases readLine_cut hd hs (by rw [htotal]; simp) (by rw [htotal]; decide) with
        hint | ⟨-, -, body', hread, -⟩ | ⟨hnot, -⟩
      · exact htick (htotal ▸ hint)
      · rw [nextLoop]
        dsimp only
        rw [hread]
        exact .inr (.inr (.inl ⟨_, rfl, rfl, rfl⟩))
      · exact absurd ⟨htotal, rfl⟩ hnot
  | @cut f w hf hcut hne =>
      rw [Frame.bytes_eq] at hcut hne
      rcases prefix_append_cases hcut with ⟨hcut', hne'⟩ | ⟨d, rfl, hd'⟩
      · -- the cut is in the line
        rcases readLine_cut hd hs
          (by rw [htotal]; exact not_mem_of_cut (ten_not_mem_utf8 hf.printable) hcut' hne')
          (by rw [htotal]; exact hcut'.length_le.trans hf.length_bytes_le) with
          hint | ⟨-, hclean, -⟩ | ⟨-, e, body', hread, -⟩
        · exact htick (htotal ▸ hint)
        · cases hclean
        · rw [nextLoop]
          dsimp only
          rw [hread]
          exact .inr (.inr (.inr ⟨_, _, _, rfl, rfl, rfl⟩))
      · -- the cut is in the body
        rcases readLine_frame hd hf hs hline htotal with hint | ⟨body', hread, hs', hw⟩
        · exact htick (htotal ▸ hint)
        · have hshort : d.length < f.body.length :=
            lt_of_le_of_ne hd'.length_le fun heq => hne (by rw [hd'.eq_of_length heq])
          cases f with
          | ltx level minTxid maxTxid content =>
              obtain ⟨e, sink, s, hloop⟩ := nextLoop_cut hd fuel []
                ⟨level, minTxid, maxTxid, content.length⟩ hs' [] hshort (by omega)
              refine .inr (.inr (.inr ⟨e, sink, s, rfl, rfl, ?_⟩))
              rw [nextLoop]
              dsimp only
              rw [hread]
              dsimp only
              rw [frameLine_ltx hf]
              exact hloop
          | preamble => cases hf
          | ping m => cases hshort
          | gap next => cases hshort
          | reset m => cases hshort
  | @frame f w _ rest hf hrest =>
      rw [Frame.bytes_eq, List.append_assoc] at htotal
      rcases readLine_frame hd hf hs hline htotal with hint | ⟨body', hread, hs', hw⟩
      · refine htick ?_
        rw [Frame.bytes_eq, List.append_assoc, ← htotal]
        exact hint
      · by_cases hltx : ∃ level minTxid maxTxid content, f = .ltx level minTxid maxTxid content
        · obtain ⟨level, minTxid, maxTxid, content, rfl⟩ := hltx
          obtain ⟨body'', hloop, hs'', hw'⟩ := nextLoop_body hd fuel []
            ⟨level, minTxid, maxTxid, content.length⟩ hs' [] (by omega)
          refine .inr (.inl ⟨_, rest, ⟨body'', [], .frame⟩, rfl, hf, ?_, ⟨w, hs'', by simp, hrest⟩,
            hw'.trans_lt hw⟩)
          rw [nextLoop]
          dsimp only
          rw [hread]
          dsimp only
          rw [frameLine_ltx hf]
          exact hloop
        · have hother : ∀ l a b c, f ≠ .ltx l a b c := fun l a b c heq => hltx ⟨l, a, b, c, heq⟩
          have hnil : f.body = [] := by
            cases f with
            | ltx level minTxid maxTxid content =>
                exact absurd rfl (hother level minTxid maxTxid content)
            | preamble => rfl
            | ping m => rfl
            | gap next => rfl
            | reset m => rfl
          rw [hnil, List.nil_append] at hs'
          refine .inr (.inl ⟨f, rest, ⟨body', [], .frame⟩, rfl, hf, ?_,
            ⟨w, hs', by simp, hrest⟩, hw⟩)
          rw [nextLoop]
          dsimp only
          rw [hread]
          dsimp only
          rw [frameLine_of_body_nil hf hother, hnil]

/-- The preamble is printable. -/
theorem printable_preamble : Printable Frame.preamble.line := by decide

/-- The preamble is no longer than a line may be. -/
theorem length_preamble_le : (utf8 Frame.preamble.line ++ [10]).length ≤ maxLine := by decide

/-- The preamble has no body. -/
theorem preamble_bytes : Frame.preamble.bytes = utf8 Frame.preamble.line ++ [10] := rfl

/-- What a call of `next` makes of a stream. -/
theorem next_told (hd : Delivers read Holds weight) {s : HttpLtxStream σ} {clean : Bool}
    {frames : List Frame} (h : StreamHolds Holds s clean frames) :
    Told Holds weight (weight s.body) clean frames (s.next read weight) := by
  obtain ⟨body, line, state⟩ := s
  obtain ⟨data, hs, hline, hstate⟩ := h
  dsimp only at hs hline
  cases state with
  | body info remaining => cases hstate
  | frame => exact nextLoop_frame hd hs hline hstate (Nat.lt_succ_self _)
  | preamble =>
      dsimp only at hstate
      show Told Holds weight (weight body) clean frames
        (nextLoop read (weight body + 1) ⟨body, line, .preamble⟩ [])
      -- a timeout before the line is whole leaves the stream in its preamble state
      have htick : Interrupted Holds weight (line ++ data) clean (weight body)
          (readLine read line body) → Told Holds weight (weight body) clean frames
            (nextLoop read (weight body + 1) ⟨body, line, .preamble⟩ []) := by
        rintro ⟨buf, data', body', hread, htotal, hbuf, hs', hw⟩
        rw [nextLoop]
        dsimp only
        rw [hread]
        exact .inl ⟨_, rfl, ⟨data', hs', hbuf, htotal ▸ hstate⟩, hw⟩
      generalize htotal : line ++ data = total at hstate
      rw [htotal] at htick
      cases hstate with
      -- the preamble itself is cut, so no line can be read
      | cut hcut hne =>
          rw [preamble_bytes] at hcut hne
          rcases readLine_cut hd hs
            (by rw [htotal]; exact not_mem_of_cut (ten_not_mem_utf8 printable_preamble) hcut hne)
            (by rw [htotal]; exact hcut.length_le.trans length_preamble_le) with
            hint | ⟨-, hclean, -⟩ | ⟨-, e, body', hread, -⟩
          · exact htick (htotal ▸ hint)
          · cases hclean
          · rw [nextLoop]
            dsimp only
            rw [hread]
            exact .inr (.inr (.inr ⟨_, _, _, rfl, rfl, rfl⟩))
      -- the preamble is whole, and the frame loop goes on behind it
      | @frames w _ _ hrest =>
          have htotal' : line ++ data = utf8 Frame.preamble.line ++ 10 :: w := by
            rw [htotal, preamble_bytes, List.append_assoc]
            rfl
          rcases readLine_found hd hs hline (ten_not_mem_utf8 printable_preamble) (by decide)
              htotal' with
            hint | ⟨body', hread, hs', hw⟩
          · exact htick (htotal ▸ hint)
          · rw [lineText_utf8 printable_preamble] at hread
            have := nextLoop_frame hd hs' (by simp)
              (show Tells ([] ++ w) clean frames from hrest) hw
            rw [nextLoop]
            dsimp only
            rw [hread]
            dsimp only
            rw [if_pos rfl]
            exact this.mono hw.le

/-- A tick: a timeout between frames, with nothing in the sink. -/
def isTick : Except StreamError StreamEvent × Bytes → Bool
  | (.ok (.idle none), []) => true
  | _ => false

/-- What calls of `next` tell of a frame: its event, and its body in the sink. -/
def Frame.call (f : Frame) : Except StreamError StreamEvent × Bytes := (.ok f.told, f.body)

/-- Enough calls of `next` tell all frames and then the end or an error. -/
theorem nextCalls_told (hd : Delivers read Holds weight) {calls : Nat} {s : HttpLtxStream σ}
    {clean : Bool} {frames : List Frame} (h : StreamHolds Holds s clean frames)
    (hcalls : weight s.body < calls) :
    if clean then
      (nextCalls read weight calls s).filter (fun r => !isTick r) =
        frames.map Frame.call ++ [(.ok .closed, [])]
    else
      ∃ e sink, (nextCalls read weight calls s).filter (fun r => !isTick r)
        = frames.map Frame.call ++ [(.error e, sink)] := by
  induction calls generalizing s frames with
  | zero => exact absurd hcalls (Nat.not_lt_zero _)
  | succ calls ih =>
      rw [nextCalls]
      rcases next_told hd h with ⟨s', hr, hs', hw⟩ | ⟨f, rest, s', rfl, hf, hr, hs', hw⟩ |
        ⟨s', rfl, rfl, hr⟩ | ⟨e, sink, s', rfl, rfl, hr⟩
      · -- a tick is filtered out
        rw [hr]
        have ih := ih hs' (by omega)
        simpa [isTick] using ih
      · -- a frame is delivered by this call, the others by the calls after it
        have hnot : isTick f.call = false := by
          cases f with
          | preamble => cases hf
          | ltx level minTxid maxTxid content => rfl
          | ping m => rfl
          | gap next => rfl
          | reset m => rfl
        have hcons : nextCalls read weight (calls + 1) s =
            f.call :: nextCalls read weight calls s' := by
          rw [nextCalls, hr]
          cases f with
          | preamble => cases hf
          | ltx level minTxid maxTxid content => rfl
          | ping m => rfl
          | gap next => rfl
          | reset m => rfl
        rw [nextCalls] at hcons
        rw [hcons, List.filter_cons_of_pos (by rw [hnot]; rfl), List.map_cons]
        have ih := ih hs' (by omega)
        cases clean with
        | true =>
            rw [if_pos rfl] at ih ⊢
            rw [ih, List.cons_append]
        | false =>
            rw [if_neg Bool.false_ne_true] at ih ⊢
            obtain ⟨e, sink, hih⟩ := ih
            exact ⟨e, sink, by rw [hih, List.cons_append]⟩
      · -- the stream is told to its end
        rw [hr, if_pos rfl]
        rfl
      · -- the cut ends the calls with an error
        rw [hr, if_neg Bool.false_ne_true]
        exact ⟨e, sink, rfl⟩

/-! ## The whole stream -/

/-- A stream as it is written: the preamble and some frames. -/
def streamText (frames : List Frame) : Bytes := Frame.preamble.bytes ++ frames.flatMap Frame.bytes

/-- A client over a connection. -/
def openStream (src : Source IoError) : HttpLtxStream (ChunkedReader (Source IoError)) :=
  { body := { inner := src } }

/-- What successive calls tell over a connection, without the ticks. -/
def toldBy (src : Source IoError) (calls : Nat) : List (Except StreamError StreamEvent × Bytes) :=
  (nextCalls (readChunked Source.read Source.weight) (fun r => r.inner.weight) calls
    (openStream src)).filter
    fun r => !isTick r

/-- **The frames a server writes** tell the events they carry. -/
theorem tells_frames {frames : List Frame} (hfits : ∀ f ∈ frames, f.Fits) :
    Tells (frames.flatMap Frame.bytes) true frames := by
  induction frames with
  | nil => exact .finished
  | cons f frames ih =>
      rw [List.flatMap_cons]
      exact .frame (hfits f (List.mem_cons_self ..))
        (ih fun g hg => hfits g (List.mem_cons_of_mem _ hg))

/-- A part of the text of some frames tells the first of them. -/
theorem exists_tells_of_prefix {frames : List Frame} (hfits : ∀ f ∈ frames, f.Fits) {p : Bytes}
    (h : p <+: frames.flatMap Frame.bytes) : ∃ k, Tells p false (frames.take k) := by
  induction frames generalizing p with
  | nil =>
      -- nothing is cut off but the end itself
      obtain rfl := List.prefix_nil.mp h
      exact ⟨0, .cut (f := .ping 0) (show 0 < 2 ^ 64 by decide) List.nil_prefix (by decide)⟩
  | cons f frames ih =>
      have hf := hfits f (List.mem_cons_self ..)
      rw [List.flatMap_cons] at h
      rcases prefix_append_cases h with ⟨hcut, hne⟩ | ⟨w, rfl, hw⟩
      · exact ⟨0, .cut hf hcut hne⟩
      · obtain ⟨k, hk⟩ := ih (fun g hg => hfits g (List.mem_cons_of_mem _ hg)) hw
        exact ⟨k + 1, .frame hf hk⟩

/-- However a stream is cut into chunks and the chunks into pieces, with timeouts anywhere, the
calls of `next` tell its frames, each with its body, and then the end. A stream that is cut off
tells some of its frames and then an error. -/
theorem toldBy_fragments {frames : List Frame} (hfits : ∀ f ∈ frames, f.Fits) {writes : List Bytes}
    (hwrites : writes.flatten = streamText frames) (hlen : ∀ c ∈ writes, c.length < 2 ^ 64)
    (src : Source IoError) {calls : Nat} (hcalls : src.weight < calls) :
    (src.data = chunkedBody writes →
      toldBy src calls = frames.map Frame.call ++ [(.ok .closed, [])]) ∧
    (src.data <+: chunkedBody writes → src.data ≠ chunkedBody writes →
      ∃ k e sink, toldBy src calls = (frames.take k).map Frame.call ++ [(.error e, sink)]) := by
  have hd := readChunked_delivers [] (Source.delivers (ε := IoError))
  have hcalls' : (openStream src).body.inner.weight < calls := hcalls
  -- the connection in terms of the chunks, whichever way it ends
  have hchunks : ∀ p clean, AtSize [] src.data p clean →
      ChunkedHolds Source.Holds [] (openStream src).body p clean := by
    intro p clean hsize
    refine ⟨src.data, src.ending.isNone, ⟨rfl, by simp [openStream]⟩, by simp [openStream], ?_⟩
    simpa [openStream] using hsize
  constructor
  · intro hdata
    have hsize := atSize_chunkedBody hlen []
    rw [List.append_nil, ← hdata, hwrites] at hsize
    have hholds : StreamHolds (ChunkedHolds Source.Holds []) (openStream src) true frames :=
      ⟨_, hchunks _ _ hsize, by simp [openStream], .frames (tells_frames hfits)⟩
    exact nextCalls_told hd hholds hcalls'
  · intro hcut hne
    obtain ⟨p, hp, hsize⟩ := exists_atSize_of_cut hlen [] hcut hne
    rw [hwrites] at hp
    obtain ⟨k, hk⟩ : ∃ k, TellsFirst p false (frames.take k) := by
      rcases prefix_append_cases hp with ⟨hcut', hne'⟩ | ⟨w, rfl, hw⟩
      · exact ⟨0, .cut hcut' hne'⟩
      · obtain ⟨k, hk⟩ := exists_tells_of_prefix hfits hw
        exact ⟨k, .frames hk⟩
    have hholds : StreamHolds (ChunkedHolds Source.Holds []) (openStream src) false
        (frames.take k) :=
      ⟨_, hchunks _ _ hsize, by simp [openStream], hk⟩
    obtain ⟨e, sink, htold⟩ := nextCalls_told hd hholds hcalls'
    exact ⟨k, e, sink, htold⟩

/-- A connection that is silent, then delivers byte by byte, and is closed. -/
def trickle (b : Bytes) : Source IoError := ⟨.silence :: b.map fun x => .piece x [], none⟩

/-- A trickling source holds the bytes it is made of. -/
theorem trickle_data (b : Bytes) : (trickle b).data = b := by
  show [] ++ (b.map fun x => Arrival.piece x []).flatMap Source.bytesOf = b
  rw [List.nil_append]
  induction b with
  | nil => rfl
  | cons x b ih => rw [List.map_cons, List.flatMap_cons, ih]; rfl

/-- A ping and a file in two writes, byte by byte: both arrive, then the end; without the last byte
an error follows instead. -/
theorem toldBy_fragments_trickle :
    let frames : List Frame := [.ping 5, .ltx 0 1 1 [7, 10, 7]]
    let writes : List Bytes := [Frame.preamble.bytes, frames.flatMap Frame.bytes]
    toldBy (trickle (chunkedBody writes)) ((trickle (chunkedBody writes)).weight + 1)
        = [(.ok (.idle (some 5)), []), (.ok (.ltx ⟨0, 1, 1, 3⟩), [7, 10, 7]), (.ok .closed, [])] ∧
      ∃ k e sink, toldBy (trickle (chunkedBody writes).dropLast)
          ((trickle (chunkedBody writes).dropLast).weight + 1)
        = (frames.take k).map Frame.call ++ [(.error e, sink)] := by
  intro frames writes
  have hfits : ∀ f ∈ frames, f.Fits := by
    intro f hf
    rcases List.mem_pair.mp hf with rfl | rfl
    · exact (by decide : 5 < 2 ^ 64)
    · exact ⟨by decide, by decide, by decide, by decide⟩
  have hwrites : writes.flatten = streamText frames := by
    simp only [writes, streamText, List.flatten_cons, List.flatten_nil, List.append_nil]
  have hlen : ∀ c ∈ writes, c.length < 2 ^ 64 := by
    intro c hc
    rcases List.mem_pair.mp hc with rfl | rfl
    · decide
    · decide
  constructor
  · exact (toldBy_fragments hfits hwrites hlen (trickle (chunkedBody writes))
      (Nat.lt_succ_self _)).1
      (trickle_data _)
  · refine (toldBy_fragments hfits hwrites hlen (trickle (chunkedBody writes).dropLast)
      (Nat.lt_succ_self _)).2 ?_ ?_
    · rw [trickle_data]
      exact List.dropLast_prefix _
    · rw [trickle_data]
      intro heq
      have hpos : 0 < (chunkedBody writes).length := by
        rw [chunkedBody, List.length_append]
        exact Nat.add_pos_right _ (by decide)
      have := congrArg List.length heq
      rw [List.length_dropLast] at this
      omega

end Liters
