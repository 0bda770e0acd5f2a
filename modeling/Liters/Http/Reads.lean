import Liters.Http.Listing
import Liters.Http.Server

/-! # Listings and files over HTTP

The read side of `HttpReplicaClient` (`client.rs`) in front of a mount: the request, the framing of
the answer by the server (`server.rs`) and its decoding by the transport (`transport.rs`), and what
the client makes of it. `arrived` is what comes of the body over the connection, in whatever pieces:
all of it, or less, and then the close or an error. Heads are taken as they are sent. -/

namespace Liters

open ReadResult

/-! ## The body of an answer -/

/-- The text of an I/O error. -/
def IoError.text : IoError → String
  | .unexpectedEof msg => msg
  | .invalidData msg => msg
  | .other msg => msg

namespace HttpResponse

/-- The headers of the answer, with those of the protocol in front and the framing of the body
behind. -/
def framed (r : HttpResponse) : Headers :=
  [("x-liters-protocol", "1"), ("server", "liters"), ("connection", "close")] ++ r.headers ++
    match r.body with
    | .bytes b => [("content-length", String.ofList (decimal b.length))]
    | .reader _ => [("transfer-encoding", "chunked")]

/-- The bytes of the body on the wire. When reading the file fails the body is not finished. -/
def wire (r : HttpResponse) : Bytes :=
  match r.body with
  | .bytes b => b
  | .reader file =>
      if file.ending.isNone then chunkedBody file.pieces else file.pieces.flatMap chunk

end HttpResponse

/-- A body as the transport decodes it: chunked, of a declared length, or up to the close. -/
inductive BodyReader where
  | chunked (r : ChunkedReader (Source IoError))
  | take (r : TakeReader (Source IoError))
  | close (s : Source IoError)

namespace BodyReader

/-- `BodyReader::read`. -/
def read (r : BodyReader) (want : Nat) : ReadResult IoError × BodyReader :=
  match r with
  | .chunked r => ((readChunked Source.read Source.weight r want).1,
      .chunked (readChunked Source.read Source.weight r want).2)
  | .take r => ((readTake Source.read r want).1, .take (readTake Source.read r want).2)
  | .close s => ((s.read want).1, .close (s.read want).2)

/-- The connection behind a body. -/
def source : BodyReader → Source IoError
  | .chunked r => r.inner
  | .take r => r.inner
  | .close s => s

/-- What is still to come bounds the reads. -/
def weight (r : BodyReader) : Nat := r.source.weight

/-- What a body has still to deliver. -/
def Holds : BodyReader → Bytes → Bool → Prop
  | .chunked r => ChunkedHolds Source.Holds [] r
  | .take r => TakeHolds Source.Holds r
  | .close s => s.Holds

/-- A body reader delivers the bytes it holds. -/
theorem delivers : Delivers read Holds weight where
  step := by
    intro r data clean want h hwant
    cases r with
    | chunked r =>
        exact ((readChunked_delivers [] Source.delivers).step h hwant).map BodyReader.chunked
          (fun _ _ _ h => h)
          fun _ => rfl
    | take r =>
        exact ((readTake_delivers Source.delivers).step h hwant).map BodyReader.take
          (fun _ _ _ h => h)
          fun _ => rfl
    | close s =>
        exact (Source.delivers.step h hwant).map BodyReader.close (fun _ _ _ h => h) fun _ => rfl

/-- A prompt source stays prompt. -/
theorem steady : Steady read fun r => r.source.Prompt where
  step := by
    intro r want h
    cases r with
    | chunked r => exact (readChunked_steady Source.weight Source.steady).step r want h
    | take r => exact (readTake_steady Source.steady).step r want h
    | close s => exact Source.steady.step s want h

end BodyReader

/-- `body_reader`: how the headers say that the body is framed. -/
def bodyReader (headers : Headers) (stream : Source IoError) : BodyReader :=
  if chunked headers then .chunked { inner := stream }
  else
    match contentLength headers with
    | some n => .take ⟨stream, n⟩
    | none => .close stream

/-! ## The client -/

/-- An answer as the transport hands it over. -/
structure TransportResponse where
  status : Nat
  headers : Headers
  body : BodyReader

/-- A GET. -/
abbrev HttpTransport := (url : List Char) → (headers : Headers) →
    Except StorageError TransportResponse

/-- What the client reads of an opened file from: a local copy, or the body as it arrives. -/
inductive LtxReader where
  | spool (left : Bytes)
  | body (r : BodyReader)

namespace LtxReader

/-- A read of the file. -/
def read (r : LtxReader) (want : Nat) : ReadResult IoError × LtxReader :=
  match r with
  | .spool left =>
      if left = [] then (.eof, .spool left) else (.bytes (left.take want), .spool (left.drop want))
  | .body r => ((r.read want).1, .body (r.read want).2)

/-- However it is read, the file is these bytes: pieces of them, and then the end for good. -/
def Yields (r : LtxReader) (data : Bytes) : Prop :=
  ∃ enough, ∀ wants : List Nat, (∀ n ∈ wants, 0 < n) →
    ∃ before m, (reads read wants r).1 = before ++ List.replicate m .eof ∧
      (∀ r ∈ before, ∃ b, b ≠ [] ∧ r = .bytes b) ∧ before.flatMap received <+: data ∧
      (0 < m → before.flatMap received = data) ∧ (enough < wants.length → 0 < m)

/-- However it is read, some of these bytes come and then an error, and never the end. -/
def Breaks (r : LtxReader) (data : Bytes) : Prop :=
  ∃ enough, ∀ wants : List Nat, (∀ n ∈ wants, 0 < n) →
    ∃ before after, (reads read wants r).1 = before ++ after ∧ (∀ r ∈ before, r.GoesOn) ∧
      before.flatMap received <+: data ∧ (∀ r ∈ after, r.IsErr) ∧
      (enough < wants.length → ∃ e, after.head? = some (.failed e))

end LtxReader

/-- A read that timed out. -/
def timedOut : String := "Resource temporarily unavailable (os error 11)"

/-- A failure of the socket is a reason to try later. -/
def transportErr (ctx : String) (e : Option IoError) : StorageError :=
  .unavailable (ctx ++ ": " ++ (e.map IoError.text).getD timedOut)

/-- What can be read, up to the end or an error. -/
def readSome {σ : Type} (read : σ → Nat → ReadResult IoError × σ) (want : Nat) :
    Nat → σ → Bytes → Bytes
  | 0, _, got => got
  | fuel + 1, s, got =>
      match read s want with
      | (.bytes b, s') => readSome read want fuel s' (got ++ b)
      | _ => got

/-- What a listing is asked for by, below the url of the bucket. -/
def listingTarget (level : UInt8) (seek : UInt64) (useMetadata : Bool) : List Char :=
  (listingPath level).toList ++ '?' :: listingQuery seek useMetadata

/-- What a file or a range of it is asked for by. -/
def fileTarget (level : UInt8) (minTxid maxTxid offset size : UInt64) : List Char :=
  (filePath level minTxid maxTxid).toList ++
    if offset > 0 ∨ size > 0 then '?' :: rangeQuery offset size else []

/-- A client of a bucket that is served over HTTP. -/
structure HttpReplicaClient where
  baseUrl : List Char
  authToken : Option String

/-- The longest listing a client reads. -/
def maxListing : Nat := 64 * 2 ^ 20

namespace HttpReplicaClient

section
variable (c : HttpReplicaClient) (transport : HttpTransport)

/-- The headers of a read. -/
def extraHeaders : Headers :=
  match c.authToken with
  | some token => [("authorization", "Bearer " ++ token)]
  | none => []

/-- `exec`: every answer carries the version of the protocol. -/
def exec (url : List Char) : Except StorageError TransportResponse := do
  let resp ← transport url c.extraHeaders
  match header resp.headers "x-liters-protocol" with
  | some v =>
      if v = "1" then return resp
      else throw (.other ("server speaks liters protocol " ++ v.quote ++ ", this client speaks 1"))
  | none =>
      throw (.other (String.ofList url ++ " is not a liters server (status " ++ toString resp.status
      ++ ", no x-liters-protocol header)"))

/-- `error_detail`: the first 512 bytes of the body, if they are text. -/
def errorDetail (resp : TransportResponse) : String :=
  let got := readSome (readTake BodyReader.read) copyBuffer (resp.body.weight + 1)
    ⟨resp.body, 512⟩ []
  match trim ((fromUtf8 got).getD []) with
  | [] => ""
  | text => ": " ++ String.ofList text

/-- `status_error` of a read. -/
def statusError (ctx : String) (resp : TransportResponse) : StorageError :=
  let msg := ctx ++ ": http status " ++ toString resp.status ++ errorDetail resp
  match resp.status with
  | 401 => .unauthorized msg
  | 409 => .conflict msg
  | _ => .other msg

/-- The body of a listing, which is of the declared length. -/
def listingBody (ctx : String) (resp : TransportResponse) : Except StorageError (List Char) :=
  match contentLength resp.headers with
  | none => .error (.other (ctx ++ ": missing content-length"))
  | some declared =>
      if maxListing < declared then
        .error (.other (ctx ++ ": implausible listing size " ++ toString declared))
      else
        match readToEnd BodyReader.read copyBuffer (resp.body.weight + 1) resp.body [] with
        | .error e => .error (transportErr ctx e)
        | .ok raw =>
            if raw.length ≠ declared then
              .error (.unavailable (ctx ++ ": truncated listing (" ++ toString raw.length ++ " of "
                ++ toString declared ++ " bytes)"))
            else
              match fromUtf8 raw with
              | none => .error (.other (ctx ++ ": non-utf8 listing"))
              | some body => .ok body

/-- `ltx_files`. -/
def ltxFiles (level : UInt8) (seek : UInt64) (useMetadata : Bool) :
    Except StorageError (List FileEntry) := do
  let ctx := "list level " ++ toString level.toNat
  let resp ← c.exec transport (c.baseUrl ++ listingTarget level seek useMetadata)
  if resp.status ≠ 200 then throw (statusError ctx resp)
  let body ← listingBody ctx resp
  return ((linesOf body).filterMap fun line => parseListingLine line level).mergeSort FileEntry.le

/-- `open_ltx_file`: a whole file is copied before it is handed out, a range is read as it
arrives. -/
def openLtxFile (level : UInt8) (minTxid maxTxid offset size : UInt64) :
    Except StorageError LtxReader := do
  let resp ← c.exec transport (c.baseUrl ++ fileTarget level minTxid maxTxid offset size)
  if resp.status = 200 then
    if offset = 0 ∧ size = 0 then
      match readToEnd BodyReader.read copyBuffer (resp.body.weight + 1) resp.body [] with
      | .error e => throw (transportErr "read file body" e)
      | .ok data => return .spool data
    else return .body resp.body
  else if resp.status = 404 then throw (.notFound level minTxid maxTxid)
  else throw (statusError ("open L" ++ toString level.toNat ++ " " ++ hexPad 16 minTxid.toNat ++ "-"
    ++ hexPad 16 maxTxid.toNat) resp)

end

end HttpReplicaClient

/-! ## A mount at the other end -/

/-- A mount over a backing client, reached under a url. `stream` is what the follow feed is answered
with. -/
structure MountedBucket where
  url : List Char
  opts : MountOptions
  client : ReplicaClient
  stream : (query : List Char) → HttpResponse

namespace MountedBucket

/-- What the mount answers to a GET of a target below its url. The query is what follows the first
question mark. -/
def answer (bucket : MountedBucket) (headers : Headers) (target : List Char) : HttpResponse :=
  match handleGet bucket.client bucket.opts headers (String.ofList (target.takeWhile (· ≠ '?')))
    ((target.dropWhile (· ≠ '?')).drop 1) with
  | .response r => r
  | .follow query => bucket.stream query

/-- The way to a bucket, when `arrived` is what comes of the body that is sent back. -/
def transport (bucket : MountedBucket) (arrived : Source IoError) : HttpTransport :=
  fun url headers =>
  match stripPrefix bucket.url url with
  | none => .error (.unavailable ("no addresses for " ++ String.ofList url))
  | some target =>
      let r := bucket.answer headers target
      .ok ⟨r.status, r.framed, bodyReader r.framed arrived⟩

/-- The client of a bucket. -/
def remote (bucket : MountedBucket) (authToken : Option String) : HttpReplicaClient :=
  ⟨bucket.url, authToken⟩

/-- The body that is sent back for a target. -/
def sent (bucket : MountedBucket) (authToken : Option String) (target : List Char) : Bytes :=
  (bucket.answer (bucket.remote authToken).extraHeaders target).wire

end MountedBucket

/-! ## Framing -/

section
variable {arrived : Source IoError}

/-- Every answer of the mount carries the protocol version. -/
theorem header_protocol (r : HttpResponse) : header r.framed "x-liters-protocol" = some "1" := by
  simp [HttpResponse.framed, header]

/-- A text comes with its length. -/
theorem framed_text (status : Nat) (body : List Char) (hlen : (utf8 body).length < 2 ^ 64) :
    contentLength (HttpResponse.text status body).framed = some (utf8 body).length ∧
      bodyReader (HttpResponse.text status body).framed arrived =
        .take ⟨arrived, (utf8 body).length⟩ := by
  have hlength : contentLength (HttpResponse.text status body).framed =
      some (utf8 body).length := by
    have hheader : header (HttpResponse.text status body).framed "content-length"
        = some (String.ofList (decimal (utf8 body).length)) := by
      simp [HttpResponse.framed, HttpResponse.text, header]
    rw [contentLength, hheader, Option.bind_some, String.toList_ofList]
    exact fromStrRadix_decimal hlen
  have hchunked : chunked (HttpResponse.text status body).framed = false := by
    have hheader : header (HttpResponse.text status body).framed "transfer-encoding" = none := by
      simp [HttpResponse.framed, HttpResponse.text, header]
    rw [chunked, hheader]
  refine ⟨hlength, ?_⟩
  rw [bodyReader, hchunked, hlength]
  rfl

/-- A file comes in chunks. -/
theorem framed_reader (status : Nat) (contentType : String) (file : OpenedFile) :
    bodyReader (HttpResponse.framed ⟨status, [("content-type", contentType)], .reader file⟩) arrived
      = .chunked { inner := arrived } := by
  have hheader : header (HttpResponse.framed
      ⟨status, [("content-type", contentType)], .reader file⟩)
      "transfer-encoding" = some "chunked" := by
    simp [HttpResponse.framed, header]
  have hlower : "chunked".toLower = "chunked" := by
    apply String.toList_inj.mp
    show ("chunked".map Char.toLower).toList = "chunked".toList
    rw [String.toList_map]
    decide
  rw [bodyReader, chunked, hheader, if_pos (by simp [hlower])]

/-- What the length says is delivered if it arrives; if less arrives, less is, unless reading
fails. -/
theorem take_holds {wire : Bytes} (harrived : arrived.data <+: wire) :
    ∃ clean, BodyReader.Holds (.take ⟨arrived, wire.length⟩) arrived.data clean ∧
      (arrived.data = wire → clean = true) := by
  have htake : arrived.data = arrived.data.take wire.length :=
    (List.take_of_length_le harrived.length_le).symm
  have hin : Source.Holds arrived arrived.data arrived.ending.isNone := ⟨rfl, by simp⟩
  refine ⟨decide (wire.length ≤ arrived.data.length ∨ arrived.ending.isNone = true),
    ⟨arrived.data, arrived.ending.isNone, hin, htake, by simp⟩, fun heq => ?_⟩
  exact decide_eq_true (.inl (Nat.le_of_eq (congrArg List.length heq.symm)))

/-- All the chunks of a file, and what is behind them, arrive. -/
theorem chunked_holds (file : OpenedFile) (harrived : arrived.data = chunkedBody file.pieces) :
    BodyReader.Holds (.chunked { inner := arrived }) file.pieces.flatten true := by
  have hlen : ∀ p ∈ file.pieces, p.length < 2 ^ 64 := fun p hp =>
    (file.fits p hp).2.trans_lt (by decide)
  refine ⟨arrived.data, arrived.ending.isNone, ⟨rfl, by simp⟩, by simp, ?_⟩
  have hsize := atSize_chunkedBody hlen []
  rw [List.append_nil, ← harrived] at hsize
  simpa using hsize

/-- Less than the whole body of a file arrives. -/
theorem chunked_holds_of_cut (file : OpenedFile)
    (harrived : arrived.data <+: chunkedBody file.pieces)
    (hne : arrived.data ≠ chunkedBody file.pieces) :
    ∃ part, part <+: file.pieces.flatten ∧
      BodyReader.Holds (.chunked { inner := arrived }) part false := by
  have hlen : ∀ p ∈ file.pieces, p.length < 2 ^ 64 := fun p hp =>
    (file.fits p hp).2.trans_lt (by decide)
  obtain ⟨part, hpart, hsize⟩ := exists_atSize_of_cut hlen [] harrived hne
  exact ⟨part, hpart, arrived.data, arrived.ending.isNone, ⟨rfl, by simp⟩,
    by simp, by simpa using hsize⟩

end

/-! ## Readers of files -/

namespace LtxReader

/-- What is left of a file. -/
def Holds : LtxReader → Bytes → Bool → Prop
  | .spool left => fun data clean => left = data ∧ clean = true
  | .body r => r.Holds

/-- What is left bounds the reads. -/
def weight : LtxReader → Nat
  | .spool left => left.length
  | .body r => r.weight

/-- Nothing is too long in coming. -/
def Prompt : LtxReader → Prop
  | .spool _ => True
  | .body r => r.source.Prompt

theorem delivers : Delivers read Holds weight where
  step := by
    intro r data clean want h hwant
    cases r with
    | spool left =>
        obtain ⟨rfl, rfl⟩ := h
        unfold read
        dsimp only
        by_cases hnil : left = []
        · rw [if_pos hnil]
          exact .inr (.inr (.inl ⟨_, rfl, hnil, rfl, ⟨hnil, rfl⟩, Nat.le_refl _⟩))
        · rw [if_neg hnil]
          have hpos := List.length_pos_iff.mpr hnil
          have hne : left.take want ≠ [] := by
            rw [← List.length_pos_iff, List.length_take]
            omega
          refine .inl ⟨left.take want, left.drop want, _, rfl, hne, List.length_take_le _ _,
            (List.take_append_drop want left).symm, ⟨rfl, rfl⟩, ?_⟩
          simp only [weight, List.length_drop]
          omega
    | body r =>
        exact (BodyReader.delivers.step h hwant).map LtxReader.body (fun _ _ _ h => h) fun _ => rfl

theorem steady : Steady read Prompt where
  step := by
    intro r want h
    cases r with
    | spool left =>
        unfold read
        dsimp only
        split <;> exact ⟨(fun heq => by cases heq), trivial⟩
    | body r => exact BodyReader.steady.step r want h

/-- A reader that holds a complete body yields it. -/
theorem yields_of_holds {r : LtxReader} {data : Bytes} (h : r.Holds data true)
    (hprompt : r.Prompt) :
    r.Yields data :=
  ⟨r.weight, fun _ hwants => delivers.reads_clean steady hwants h hprompt⟩

/-- A reader that holds a part of a body breaks off within it. -/
theorem breaks_of_holds {r : LtxReader} {part data : Bytes} (h : r.Holds part false)
    (hpart : part <+: data) :
    r.Breaks data := by
  refine ⟨r.weight, fun wants hwants => ?_⟩
  obtain ⟨before, after, heq, hbefore, hfront, hafter, hend⟩ := delivers.reads_cut hwants h
  exact ⟨before, after, heq, hbefore, hfront.trans hpart, hafter, hend⟩

end LtxReader

/-! ## What the client makes of the answers -/

section
variable {bucket : MountedBucket} {authToken : Option String} {arrived : Source IoError}
  {level : UInt8}

/-- A request over the transport is answered by the mount. -/
theorem exec_transport (target : List Char) :
    (bucket.remote authToken).exec (bucket.transport arrived)
    ((bucket.remote authToken).baseUrl ++ target)
      = .ok ⟨(bucket.answer (bucket.remote authToken).extraHeaders target).status,
        (bucket.answer (bucket.remote authToken).extraHeaders target).framed,
        bodyReader (bucket.answer (bucket.remote authToken).extraHeaders target).framed
          arrived⟩ := by
  have hstrip : stripPrefix bucket.url ((bucket.remote authToken).baseUrl ++ target) =
      some target :=
    stripPrefix_append _ _
  unfold HttpReplicaClient.exec MountedBucket.transport
  rw [hstrip]
  simp only [bind, Except.bind, header_protocol]
  rfl

/-- A plain response is the answer. -/
theorem answer_of_response {headers : Headers} {target : List Char} {r : HttpResponse}
    (h : handleGet bucket.client bucket.opts headers (String.ofList (target.takeWhile (· ≠ '?')))
      ((target.dropWhile (· ≠ '?')).drop 1) = .response r) : bucket.answer headers target = r := by
  unfold MountedBucket.answer
  generalize handleGet bucket.client _ _ _ _ = o at h ⊢
  subst h
  rfl

/-- A target is taken apart at the question mark. -/
theorem answer_query {headers : Headers} {path query : List Char} {r : HttpResponse}
    (hpath : '?' ∉ path)
    (h : handleGet bucket.client bucket.opts headers (String.ofList path) query = .response r) :
    bucket.answer headers (path ++ '?' :: query) = r := by
  have hpos : ∀ ch ∈ path, decide (ch ≠ '?') = true := fun ch hch => decide_eq_true fun heq =>
    hpath (heq ▸ hch)
  apply answer_of_response
  rw [List.takeWhile_append_of_pos hpos, List.dropWhile_append_of_pos hpos]
  simpa using h

/-- A target without a query. -/
theorem answer_path {headers : Headers} {path : List Char} {r : HttpResponse} (hpath : '?' ∉ path)
    (h : handleGet bucket.client bucket.opts headers (String.ofList path) [] = .response r) :
    bucket.answer headers path = r := by
  have hpos : ∀ ch ∈ path, decide (ch ≠ '?') = true := fun ch hch => decide_eq_true fun heq =>
    hpath (heq ▸ hch)
  apply answer_of_response
  rw [List.takeWhile_eq_self_iff.mpr hpos, List.dropWhile_eq_nil_iff.mpr hpos]
  exact h

/-- A listing target is answered with the level's listing. -/
theorem answer_listing (hauth : AcceptsToken bucket.opts (bucket.remote authToken).extraHeaders)
    (hlevel : level ≤ 9) (seek : UInt64) (useMetadata : Bool) :
    bucket.answer (bucket.remote authToken).extraHeaders (listingTarget level seek useMetadata)
      = match bucket.client.ltxFiles level seek useMetadata with
        | .error e => .error 500 ("list: " ++ e.text)
        | .ok infos => .text 200 (infos.flatMap FileEntry.listingLine) := by
  have htext : (listingPath level).toList = "/ltx/".toList ++ decimal level.toNat :=
    String.toList_ofList
  have hpath : '?' ∉ (listingPath level).toList := by
    intro hmem
    rw [htext] at hmem
    rcases List.mem_append.mp hmem with h | h
    · exact absurd h (by decide)
    · exact not_mem_of_digits (digits_decimal _) (by decide) h
  apply answer_query hpath
  rw [String.ofList_toList]
  exact handleGet_listing hauth hlevel seek useMetadata

/-- A file target is answered with the file's bytes. -/
theorem answer_file (hauth : AcceptsToken bucket.opts (bucket.remote authToken).extraHeaders)
    (hlevel : level ≤ 9) (minTxid maxTxid offset size : UInt64) :
    bucket.answer (bucket.remote authToken).extraHeaders
      (fileTarget level minTxid maxTxid offset size)
      = match bucket.client.openLtxFile level minTxid maxTxid offset size with
        | .ok file => ⟨200, [("content-type", "application/octet-stream")], .reader file⟩
        | .error (.notFound _ _ _) => .error 404 "no such file"
        | .error e => .error 500 ("open: " ++ e.text) := by
  have htext : (filePath level minTxid maxTxid).toList
      = "/ltx/".toList ++ decimal level.toNat ++ '/' :: formatFilename minTxid maxTxid :=
        String.toList_ofList
  -- the path has no query in it, so the query is all that follows the question mark
  have hpath : '?' ∉ (filePath level minTxid maxTxid).toList := by
    intro hmem
    rw [htext] at hmem
    rcases List.mem_append.mp hmem with hmem | hmem
    · rcases List.mem_append.mp hmem with h | h
      · exact absurd h (by decide)
      · exact not_mem_of_digits (digits_decimal _) (by decide) h
    · rcases List.mem_cons.mp hmem with h | h
      · exact absurd h (by decide)
      · exact not_mem_formatFilename _ _ (by decide) (by decide) h
  have hget := @handleGet_file bucket.client _ _ _ hauth hlevel minTxid maxTxid offset size
  unfold fileTarget
  by_cases hrange : offset > 0 ∨ size > 0
  · rw [if_pos hrange]
    apply answer_query hpath
    rw [String.ofList_toList]
    exact hget
  · -- without a range the target is the path
    rw [rangeQuery, if_neg hrange] at hget
    rw [if_neg hrange, List.append_nil]
    apply answer_path hpath
    rw [String.ofList_toList]
    exact hget

/-- A listing on the wire. -/
def listing (infos : List FileEntry) : Bytes := utf8 (infos.flatMap FileEntry.listingLine)

/-- A listing is taken only whole. -/
theorem listingBody_text (ctx : String) {body : List Char} (hlen : (utf8 body).length ≤ maxListing)
    (harrived : arrived.data <+: utf8 body) :
    let resp : TransportResponse := ⟨200, (HttpResponse.text 200 body).framed,
      bodyReader (HttpResponse.text 200 body).framed arrived⟩
    ((arrived.data = utf8 body ∧ HttpReplicaClient.listingBody ctx resp = .ok body) ∨
        ∃ e, HttpReplicaClient.listingBody ctx resp = .error e) ∧
      (arrived.data = utf8 body → arrived.Prompt →
        HttpReplicaClient.listingBody ctx resp = .ok body) := by
  have hlen64 : (utf8 body).length < 2 ^ 64 := hlen.trans_lt (by decide)
  obtain ⟨hlength, hreader⟩ := @framed_text arrived 200 body hlen64
  obtain ⟨clean, hholds, hwhole⟩ := take_holds harrived
  dsimp only
  unfold HttpReplicaClient.listingBody
  dsimp only
  rw [hlength, hreader]
  dsimp only
  rw [if_neg (Nat.not_lt.mpr hlen)]
  constructor
  · rcases BodyReader.delivers.readToEnd (by decide : 0 < copyBuffer) hholds (Nat.lt_succ_self _)
      [] with
      ⟨-, hread⟩ | ⟨e, hread⟩
    · rw [hread]
      dsimp only [List.nil_append]
      by_cases hshort : arrived.data.length = (utf8 body).length
      · have hall := harrived.eq_of_length hshort
        rw [if_neg (not_not.mpr hshort), hall, fromUtf8_utf8]
        exact .inl ⟨rfl, rfl⟩
      · rw [if_pos hshort]
        exact .inr ⟨_, rfl⟩
    · rw [hread]
      exact .inr ⟨_, rfl⟩
  · intro hall hprompt
    rw [hwhole hall] at hholds
    rw [BodyReader.delivers.readToEnd_clean BodyReader.steady (by decide : 0 < copyBuffer) hholds
      hprompt
      (Nat.lt_succ_self _) []]
    dsimp only [List.nil_append]
    rw [if_neg (not_not.mpr (congrArg List.length hall)), hall, fromUtf8_utf8]

/-- The lines of a listing are the files, in their order. -/
theorem filesOf_listing {infos : List FileEntry} (hlevel : ∀ f ∈ infos, f.level = level)
    (hsorted : infos.Pairwise fun f g => f.le g) :
    ((linesOf (infos.flatMap FileEntry.listingLine)).filterMap fun line =>
      parseListingLine line level).mergeSort FileEntry.le = infos.map FileEntry.overHttp := by
  have hparse : (infos.map FileEntry.line).filterMap (fun line => parseListingLine line level)
      = infos.map FileEntry.overHttp := by
    clear hsorted
    induction infos with
    | nil => rfl
    | cons f infos ih =>
        have hf : parseListingLine f.line level = some f.overHttp := by
          have hline := parseListingLine_line f
          rwa [hlevel f (List.mem_cons_self ..)] at hline
        have ih := ih fun g hg => hlevel g (List.mem_cons_of_mem _ hg)
        rw [List.map_cons, List.map_cons, List.filterMap_cons, hf, ← ih]
  have hmap : (infos.map FileEntry.overHttp).Pairwise fun f g => f.le g :=
    List.pairwise_map.mpr (hsorted.imp fun h => h)
  rw [linesOf_listing, hparse, List.mergeSort_of_pairwise hmap]

/-- **A listing over HTTP** is the listing of the backing client, or an error. -/
theorem ltxFiles_remote (hauth : AcceptsToken bucket.opts (bucket.remote authToken).extraHeaders)
    (hlevel : level ≤ 9) {seek : UInt64} {useMetadata : Bool} {infos : List FileEntry}
    (hlist : bucket.client.ltxFiles level seek useMetadata = .ok infos)
    (hlen : (listing infos).length ≤ maxListing) (harrived : arrived.data <+: listing infos) :
    ((arrived.data = listing infos ∧
      (bucket.remote authToken).ltxFiles (bucket.transport arrived) level seek
        useMetadata = .ok (infos.map FileEntry.overHttp)) ∨
      ∃ e, (bucket.remote authToken).ltxFiles (bucket.transport arrived) level seek useMetadata =
        .error e) ∧
    (arrived.data = listing infos → arrived.Prompt →
      (bucket.remote authToken).ltxFiles (bucket.transport arrived)
      level seek useMetadata = .ok (infos.map FileEntry.overHttp)) := by
  obtain ⟨hbody, hprompt⟩ := listingBody_text ("list level " ++ toString level.toNat) hlen harrived
  have hfiles := filesOf_listing (bucket.client.levels _ _ _ _ hlist)
    (bucket.client.sorted _ _ _ _ hlist)
  have hcall : (bucket.remote authToken).ltxFiles (bucket.transport arrived) level seek useMetadata
      = (HttpReplicaClient.listingBody ("list level " ++ toString level.toNat)
          ⟨200, (HttpResponse.text 200 (infos.flatMap FileEntry.listingLine)).framed,
            bodyReader (HttpResponse.text 200 (infos.flatMap FileEntry.listingLine)).framed
              arrived⟩).bind
        fun body => .ok (((linesOf body).filterMap fun line =>
          parseListingLine line level).mergeSort
          FileEntry.le) := by
    unfold HttpReplicaClient.ltxFiles
    dsimp only
    rw [exec_transport, answer_listing hauth hlevel, hlist]
    rfl
  rw [hcall]
  constructor
  · -- either the whole body is there, or the call fails
    rcases hbody with ⟨hall, hok⟩ | ⟨e, he⟩
    · left
      rw [hok]
      exact ⟨hall, congrArg Except.ok hfiles⟩
    · right
      rw [he]
      exact ⟨e, rfl⟩
  · -- with every part there in time the call cannot fail
    intro hall hin
    rw [hprompt hall hin]
    exact congrArg Except.ok hfiles

/-- What opening a file over HTTP comes to when the backing client opens it. -/
theorem openLtxFile_ok (hauth : AcceptsToken bucket.opts (bucket.remote authToken).extraHeaders)
    (hlevel : level ≤ 9) {minTxid maxTxid offset size : UInt64} {file : OpenedFile}
    (hopen : bucket.client.openLtxFile level minTxid maxTxid offset size = .ok file) :
    (bucket.remote authToken).openLtxFile (bucket.transport arrived) level minTxid maxTxid
      offset size
      = if offset = 0 ∧ size = 0 then
          match readToEnd BodyReader.read copyBuffer (arrived.weight + 1)
            (.chunked { inner := arrived }) [] with
          | .error e => .error (transportErr "read file body" e)
          | .ok data => .ok (.spool data)
        else .ok (.body (.chunked { inner := arrived })) := by
  unfold HttpReplicaClient.openLtxFile
  rw [exec_transport, answer_file hauth hlevel, hopen]
  dsimp only [bind, Except.bind]
  rw [framed_reader, if_pos rfl]
  rfl

/-- What opening a file over HTTP comes to when the backing client fails to. -/
theorem openLtxFile_error (hauth : AcceptsToken bucket.opts (bucket.remote authToken).extraHeaders)
    (hlevel : level ≤ 9) {minTxid maxTxid offset size : UInt64} {e : StorageError}
    (hopen : bucket.client.openLtxFile level minTxid maxTxid offset size = .error e) :
    ∃ e', (bucket.remote authToken).openLtxFile (bucket.transport arrived) level minTxid maxTxid
      offset size
        = .error e' ∧
      ((∃ l a b, e' = .notFound l a b) ↔ ∃ l a b, e = .notFound l a b) := by
  have hanswer := answer_file hauth hlevel minTxid maxTxid offset size
  rw [hopen] at hanswer
  unfold HttpReplicaClient.openLtxFile
  rw [exec_transport, hanswer]
  by_cases hmissing : ∃ l a b, e = .notFound l a b
  · obtain ⟨l, a, b, rfl⟩ := hmissing
    exact ⟨_, rfl, iff_of_true ⟨_, _, _, rfl⟩ ⟨_, _, _, rfl⟩⟩
  · -- every other failure is a 500, which is no missing file
    have hserver : (match (Except.error e : Except StorageError OpenedFile) with
        | .ok file =>
            (⟨200, [("content-type", "application/octet-stream")], .reader file⟩ : HttpResponse)
        | .error (.notFound _ _ _) => .error 404 "no such file"
        | .error e => .error 500 ("open: " ++ e.text)) = .error 500 ("open: " ++ e.text) := by
      cases e with
      | notFound l a b => exact absurd ⟨l, a, b, rfl⟩ hmissing
      | _ => rfl
    rw [hserver]
    refine ⟨_, rfl, iff_of_false ?_ hmissing⟩
    rintro ⟨l, a, b, heq⟩
    cases heq

/-- A body that is cut off, or not finished since reading the file failed. -/
theorem cut_of_ending {file : OpenedFile} {status : Nat} {headers : Headers}
    (harrived : arrived.data <+: HttpResponse.wire ⟨status, headers, .reader file⟩)
    (hcut : arrived.data ≠ HttpResponse.wire ⟨status, headers, .reader file⟩ ∨ file.ending ≠ none) :
    arrived.data <+: chunkedBody file.pieces ∧ arrived.data ≠ chunkedBody file.pieces := by
  unfold HttpResponse.wire at harrived hcut
  dsimp only at harrived hcut
  cases hend : file.ending with
  | none =>
      rw [hend, Option.isNone_none, if_pos rfl] at harrived hcut
      exact ⟨harrived, hcut.resolve_right fun h => h rfl⟩
  | some e =>
      rw [hend, Option.isNone_some, if_neg Bool.false_ne_true] at harrived
      refine ⟨harrived.trans (List.prefix_append _ _), fun hall => ?_⟩
      have hlen := harrived.length_le
      rw [hall, chunkedBody, List.length_append] at hlen
      have hfinish : 0 < finish.length := by decide
      omega

/-- A file that arrives whole is the file of the backing client. -/
theorem openLtxFile_whole (hauth : AcceptsToken bucket.opts (bucket.remote authToken).extraHeaders)
    (hlevel : level ≤ 9) {minTxid maxTxid offset size : UInt64} {file : OpenedFile}
    (hopen : bucket.client.openLtxFile level minTxid maxTxid offset size = .ok file)
    (harrived : arrived.data = chunkedBody file.pieces) (hprompt : arrived.Prompt) :
    ∃ r, (bucket.remote authToken).openLtxFile (bucket.transport arrived) level minTxid maxTxid
      offset size = .ok r ∧
      r.Yields file.pieces.flatten := by
  have hholds := chunked_holds file harrived
  rw [openLtxFile_ok hauth hlevel hopen]
  by_cases hwhole : offset = 0 ∧ size = 0
  · have hread := BodyReader.delivers.readToEnd_clean BodyReader.steady (by decide : 0 < copyBuffer)
      hholds hprompt
      (Nat.lt_succ_self arrived.weight) []
    rw [if_pos hwhole, hread]
    exact ⟨_, rfl, LtxReader.yields_of_holds ⟨rfl, rfl⟩ trivial⟩
  · rw [if_neg hwhole]
    exact ⟨_, rfl, LtxReader.yields_of_holds hholds hprompt⟩

/-- A file that does not arrive whole is an error, at once or while it is read. -/
theorem openLtxFile_cut (hauth : AcceptsToken bucket.opts (bucket.remote authToken).extraHeaders)
    (hlevel : level ≤ 9) {minTxid maxTxid offset size : UInt64} {file : OpenedFile}
    (hopen : bucket.client.openLtxFile level minTxid maxTxid offset size = .ok file)
    (harrived : arrived.data <+: chunkedBody file.pieces)
    (hne : arrived.data ≠ chunkedBody file.pieces) :
    if offset = 0 ∧ size = 0 then
      ∃ msg, (bucket.remote authToken).openLtxFile (bucket.transport arrived) level minTxid maxTxid
        offset size
        = .error (.unavailable msg)
    else ∃ r, (bucket.remote authToken).openLtxFile (bucket.transport arrived) level minTxid maxTxid
      offset size
        = .ok r ∧ r.Breaks file.pieces.flatten := by
  obtain ⟨part, hpart, hholds⟩ := chunked_holds_of_cut file harrived hne
  rw [openLtxFile_ok hauth hlevel hopen]
  by_cases hwhole : offset = 0 ∧ size = 0
  · rw [if_pos hwhole, if_pos hwhole]
    rcases BodyReader.delivers.readToEnd (by decide : 0 < copyBuffer) hholds
      (Nat.lt_succ_self arrived.weight) []
      with ⟨hclean, -⟩ | ⟨e, hread⟩
    · cases hclean
    · rw [hread]
      exact ⟨_, rfl⟩
  · rw [if_neg hwhole, if_neg hwhole]
    exact ⟨_, rfl, LtxReader.breaks_of_holds hholds hpart⟩

/-- A file is missing over HTTP if it is missing in the bucket. -/
theorem openLtxFile_notFound_iff
    (hauth : AcceptsToken bucket.opts (bucket.remote authToken).extraHeaders) (hlevel : level ≤ 9)
    (minTxid maxTxid offset size : UInt64) :
    (∃ l a b, (bucket.remote authToken).openLtxFile (bucket.transport arrived) level minTxid maxTxid
      offset size
        = .error (.notFound l a b)) ↔
      ∃ l a b, bucket.client.openLtxFile level minTxid maxTxid offset size =
        .error (.notFound l a b) := by
  cases hopen : bucket.client.openLtxFile level minTxid maxTxid offset size with
  | ok file =>
      rw [openLtxFile_ok hauth hlevel hopen]
      refine iff_of_false ?_ ?_
      · rintro ⟨l, a, b, heq⟩
        split at heq
        · split at heq <;> cases heq
        · cases heq
      · rintro ⟨l, a, b, heq⟩
        cases heq
  | error e =>
      obtain ⟨e', hremote, hiff⟩ :=
        @openLtxFile_error bucket authToken arrived level hauth hlevel _ _ _ _ _ hopen
      rw [hremote]
      simpa using hiff

end

/-- **Listings and reads over HTTP are transparent.** Whatever the bucket holds, the client lists
what the backing client lists, in its order, with the creation times in whole milliseconds since the
epoch as far as 64 bits go, and reads what the backing client reads of every range of every file; a
file is missing exactly if it is missing for the backing client. When less than the whole body of an
answer arrives there is an error: for a listing or a whole file at once, for a range while it is
read. -/
theorem reads_transparent {bucket : MountedBucket} {authToken : Option String}
    (hauth : AcceptsToken bucket.opts (bucket.remote authToken).extraHeaders) {level : UInt8}
    (hlevel : level ≤ 9) (arrived : Source IoError) :
    (∀ seek useMetadata infos, bucket.client.ltxFiles level seek useMetadata = .ok infos →
      let sent := bucket.sent authToken (listingTarget level seek useMetadata)
      let call := (bucket.remote authToken).ltxFiles (bucket.transport arrived) level seek
        useMetadata
      sent.length ≤ maxListing → arrived.data <+: sent →
      (arrived.data = sent → arrived.Prompt → call = .ok (infos.map FileEntry.overHttp)) ∧
      (arrived.data ≠ sent → ∃ e, call = .error e)) ∧
    ∀ minTxid maxTxid offset size,
      let sent := bucket.sent authToken (fileTarget level minTxid maxTxid offset size)
      let call := (bucket.remote authToken).openLtxFile (bucket.transport arrived) level minTxid
        maxTxid offset size
      (∀ file, bucket.client.openLtxFile level minTxid maxTxid offset size = .ok file →
        arrived.data <+: sent →
        (arrived.data = sent → arrived.Prompt → file.ending = none →
          ∃ r, call = .ok r ∧ r.Yields file.pieces.flatten) ∧
        (arrived.data ≠ sent ∨ file.ending ≠ none →
          if offset = 0 ∧ size = 0 then ∃ msg, call = .error (.unavailable msg)
          else ∃ r, call = .ok r ∧ r.Breaks file.pieces.flatten)) ∧
      ((∃ l a b, call = .error (.notFound l a b)) ↔
        ∃ l a b, bucket.client.openLtxFile level minTxid maxTxid offset size =
          .error (.notFound l a b)) := by
  constructor
  · -- the listing: all of the answer, or an error
    intro seek useMetadata infos hlist sent call hlen harrived
    have hsent : sent = listing infos := by
      show bucket.sent authToken (listingTarget level seek useMetadata) = _
      rw [MountedBucket.sent, answer_listing hauth hlevel, hlist]
      rfl
    rw [hsent] at hlen harrived ⊢
    obtain ⟨hresult, hok⟩ := ltxFiles_remote hauth hlevel hlist hlen harrived
    refine ⟨hok, fun hne => ?_⟩
    rcases hresult with ⟨hall, -⟩ | herror
    · exact absurd hall hne
    · exact herror
  · -- the file: all of it, a broken body, or not found
    intro minTxid maxTxid offset size sent call
    refine ⟨fun file hopen harrived => ?_,
      openLtxFile_notFound_iff hauth hlevel minTxid maxTxid offset size⟩
    have hsent : sent = HttpResponse.wire
        ⟨200, [("content-type", "application/octet-stream")], .reader file⟩ := by
      show bucket.sent authToken (fileTarget level minTxid maxTxid offset size) = _
      rw [MountedBucket.sent, answer_file hauth hlevel, hopen]
    rw [hsent] at harrived ⊢
    constructor
    · -- the body as it is framed, to the end
      intro hall hprompt hend
      have hwire : HttpResponse.wire
          ⟨200, [("content-type", "application/octet-stream")], .reader file⟩
          = chunkedBody file.pieces := by
        unfold HttpResponse.wire
        dsimp only
        rw [hend, Option.isNone_none, if_pos rfl]
      exact openLtxFile_whole hauth hlevel hopen (hall.trans hwire) hprompt
    · -- cut by the transport or ended by the storage: both leave a proper front of the body
      intro hcut
      obtain ⟨hfront, hne⟩ := cut_of_ending harrived hcut
      exact openLtxFile_cut hauth hlevel hopen hfront hne

/-! ## A file from the far future -/

/-- Bytes that arrive one by one. -/
def byteByByte (b : Bytes) : Source IoError := ⟨b.map fun x => .piece x [], none⟩

/-- A byte by byte source holds the bytes it is made of. -/
theorem byteByByte_data (b : Bytes) : (byteByByte b).data = b := by
  induction b with
  | nil => rfl
  | cons x b ih => exact congrArg (x :: ·) ih

/-- It never times out. -/
theorem byteByByte_prompt (b : Bytes) : (byteByByte b).Prompt := by
  intro h
  obtain ⟨x, -, hx⟩ := List.mem_map.mp h
  cases hx

/-- The creation time in whole milliseconds, however many. -/
def FileEntry.truncated (f : FileEntry) : FileEntry :=
  { f with
    createdAt := f.createdAt.bind fun t => if 0 ≤ t then some (t / 10 ^ 6 * 10 ^ 6) else none }

/-- A file that was created one second after the milliseconds of 64 bits are over. -/
def farFile : FileEntry := ⟨0, 1, 1, 100, some ((2 ^ 64 + 1000) * 10 ^ 6)⟩

/-- The far bucket lists its file at its level. -/
theorem farFile_levels (level : UInt8) (_ : UInt64) (_ : Bool) (infos : List FileEntry)
    (h : (if level = 0 then .ok [farFile] else .ok [] : Except StorageError (List FileEntry)) =
      .ok infos) :
    ∀ f ∈ infos, f.level = level := by
  split at h
  · cases h
    intro f hf
    rw [List.mem_singleton.mp hf, farFile]
    exact Eq.symm ‹level = 0›
  · cases h
    exact fun f hf => absurd hf List.not_mem_nil

/-- The far bucket's listings are sorted. -/
theorem farFile_sorted (level : UInt8) (_ : UInt64) (_ : Bool) (infos : List FileEntry)
    (h : (if level = 0 then .ok [farFile] else .ok [] : Except StorageError (List FileEntry)) =
      .ok infos) :
    infos.Pairwise fun f g => f.le g := by
  split at h
  · cases h
    exact List.pairwise_singleton _ _
  · cases h
    exact List.Pairwise.nil

/-- A mount without a token over a bucket that holds this file. -/
def farBucket : MountedBucket where
  url := "http://localhost".toList
  opts := {}
  client :=
    { ltxFiles := fun level _ _ => if level = 0 then .ok [farFile] else .ok []
      openLtxFile := fun level minTxid maxTxid _ _ => .error (.notFound level minTxid maxTxid)
      levels := farFile_levels
      sorted := farFile_sorted }
  stream := fun _ => .error 500 ""

/-- The listing of level 0, byte by byte. -/
def farListing : Source IoError := byteByByte (listing [farFile])

/-- The far bucket needs no token. -/
theorem farBucket_accepts : AcceptsToken farBucket.opts (farBucket.remote none).extraHeaders := by
  intro expected h
  cases h

/-- What the far bucket sends for level 0. -/
theorem farBucket_sent : farBucket.sent none (listingTarget 0 0 false) = listing [farFile] := by
  rw [MountedBucket.sent, answer_listing farBucket_accepts (by decide)]
  rfl

/-- The listing is within the client's limit. -/
theorem length_farListing : (listing [farFile]).length ≤ maxListing := by decide +kernel

/-- The far bucket's level 0, listed over HTTP. -/
theorem reads_transparent_far :
    (farBucket.remote none).ltxFiles (farBucket.transport farListing) 0 0 false =
      .ok [farFile.overHttp] := by
  have hall : farListing.data = farBucket.sent none (listingTarget 0 0 false) :=
    (byteByByte_data _).trans farBucket_sent.symm
  have hlen : (farBucket.sent none (listingTarget 0 0 false)).length ≤ maxListing :=
    farBucket_sent ▸ length_farListing
  exact ((reads_transparent farBucket_accepts (by decide : (0 : UInt8) ≤ 9) farListing).1 0 false
    [farFile] rfl hlen
    (hall ▸ List.prefix_rfl)).1 hall (byteByByte_prompt _)

/-- The creation time of the file is not the one the bucket tells, truncated to milliseconds. -/
theorem listing_not_truncated :
    farBucket.client.ltxFiles 0 0 false = .ok [farFile] ∧
      farListing.data = farBucket.sent none (listingTarget 0 0 false) ∧ farListing.Prompt ∧
      farListing.data.length ≤ maxListing ∧
      (farBucket.remote none).ltxFiles (farBucket.transport farListing) 0 0 false ≠
        .ok [farFile.truncated] := by
  have hdata : farListing.data = listing [farFile] := byteByByte_data _
  have hlist : farBucket.client.ltxFiles 0 0 false = .ok [farFile] := rfl
  have hcall := (ltxFiles_remote farBucket_accepts (by decide : (0 : UInt8) ≤ 9) hlist
    length_farListing
    (hdata ▸ List.prefix_rfl)).2 hdata (byteByByte_prompt _)
  refine ⟨rfl, hdata.trans farBucket_sent.symm, byteByByte_prompt _, hdata ▸ length_farListing, ?_⟩
  rw [hcall]
  intro h
  have hne : [farFile].map FileEntry.overHttp ≠ [farFile.truncated] := by decide
  exact hne (Except.ok.inj h)

end Liters
