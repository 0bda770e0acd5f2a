import Liters.Ltx.Lz4f
import Liters.Ltx.PageIndex

/-! # The LTX encoder

The streaming encoder (`encoder.rs`) as a state machine over the bytes written so far. A run of
calls `encode_header`, `encode_page`*, `set_post_apply_checksum`?, `finish` is `encodeFile`;
`encodeFile_eq_ok_iff` says exactly when all of them succeed and which bytes they then produce. -/

namespace Liters

/-- What the encoder expects next. -/
inductive EncoderState where
  | header
  | page
  | closed
  deriving DecidableEq, Repr

/-- An encoder writing to memory: `w` are the bytes written, `hash` the bytes fed to the file
checksum, `index` the span of each page frame, `n` the number of bytes written. -/
structure Encoder where
  w : Bytes := []
  state : EncoderState := .header
  header : Header := {}
  trailer : Trailer := {}
  hash : Bytes := []
  index : SortedMap (Nat × Nat) := .empty
  n : Nat := 0
  prevPgno : Nat := 0

/-- A page as the encoder is given it: its number and its content. -/
abbrev Page := Nat × Bytes

namespace Encoder

/-- Write bytes that are hashed as written. -/
def write (e : Encoder) (b : Bytes) : Encoder :=
  { e with w := e.w ++ b, hash := e.hash ++ b, n := e.n + b.length }

/-- Set the post-apply checksum of the trailer. -/
def setPostApplyChecksum (e : Encoder) (chksum : UInt64) : Encoder :=
  { e with trailer := { e.trailer with postApplyChecksum := chksum } }

/-- Validate and write the file header. -/
def encodeHeader (e : Encoder) (hdr : Header) : Except LtxError Encoder := do
  require (e.state ≠ .closed) (.invalid "ltx encoder closed")
  require (e.state ≠ .page) (.invalid "cannot encode header frame, expected page")
  hdr.validate
  return { ({ e with header := hdr } : Encoder).write hdr.encode with state := .page }

/-- The page-order rules: a snapshot covers the pages one by one, skipping exactly the lock page;
any other file only has to ascend. -/
def checkSequence (hdr : Header) (prevPgno pgno : Nat) : Except LtxError Unit :=
  if hdr.isSnapshot then do
    require (¬ (prevPgno = 0 ∧ pgno ≠ 1))
      (.invalid "snapshot transaction file must start with page number 1")
    if prevPgno = hdr.lockPgno - 1 then
      require (pgno = prevPgno + 2) (.invalid
        s!"nonsequential page numbers in snapshot transaction (skip lock page): {prevPgno},{pgno}")
    else
      require (¬ (prevPgno ≠ 0 ∧ pgno ≠ prevPgno + 1))
        (.invalid s!"nonsequential page numbers in snapshot transaction: {prevPgno},{pgno}")
  else
    require (prevPgno < pgno) (.invalid s!"out-of-order page numbers: {prevPgno},{pgno}")

/-- The encoder after writing one page frame: the hash covers the uncompressed content, the byte
counter the compressed frame. -/
def pushPage (c : Codec) (e : Encoder) (pgno : Nat) (data : Bytes) : Encoder :=
  let offset := e.n
  let e := e.write (PageHeader.encode { pgno })
  let frame := compressFrame c data
  { e with
    w := e.w ++ frame
    hash := e.hash ++ data
    n := e.n + frame.length
    prevPgno := pgno
    index := e.index.insert pgno (offset, e.n + frame.length - offset) }

/-- Write one page frame. -/
def encodePage (c : Codec) (e : Encoder) (pgno : Nat) (data : Bytes) : Except LtxError Encoder := do
  require (e.state ≠ .closed) (.invalid "ltx encoder closed")
  require (e.state ≠ .header) (.invalid "cannot encode page header, expected header")
  require (pgno ≤ e.header.commit.toNat)
    (.invalid s!"page number {pgno} out-of-bounds for commit size {e.header.commit}")
  PageHeader.validate { pgno }
  require (data.length = e.header.pageSize.toNat)
    (.invalid s!"invalid page buffer size: {data.length}, expecting {e.header.pageSize}")
  require (pgno ≠ e.header.lockPgno) (.invalid s!"cannot encode lock page: pgno={pgno}")
  checkSequence e.header e.prevPgno pgno
  return e.pushPage c pgno data

/-- Write the end-of-pages marker, page index and trailer. -/
def finish (c : Codec) (e : Encoder) : Except LtxError (Bytes × Header × Trailer) := do
  require (e.state ≠ .closed) (.invalid "ltx encoder closed")
  require (e.state ≠ .header) (.invalid "cannot close, expected header")
  let e := e.write (PageHeader.encode {})
  let e := e.write (encodePageIndex e.index)
  -- the hash also covers the first trailer field
  let hash := e.hash ++ beBytes 8 e.trailer.postApplyChecksum.toNat
  let trailer := { e.trailer with fileChecksum := checksumFlag ||| c.crc64 hash }
  trailer.validate e.header
  require (¬ (e.header.commit = 0 ∧ trailer.postApplyChecksum ≠ checksumEmpty))
    (.invalid "post-apply checksum must be empty for zero-length database")
  return (e.w ++ trailer.encode, e.header, trailer)

/-- Write the pages of a file in order. -/
def encodePages (c : Codec) : Encoder → List Page → Except LtxError Encoder
  | e, [] => .ok e
  | e, p :: pages => do
      let e ← e.encodePage c p.1 p.2
      encodePages c e pages

end Encoder

/-- A whole run of encoder calls: the header, the pages, an optional post-apply checksum, the
end. -/
def encodeFile (c : Codec) (hdr : Header) (pages : List Page) (post : Option UInt64) :
    Except LtxError (Bytes × Header × Trailer) := do
  let e ← Encoder.encodeHeader {} hdr
  let e ← e.encodePages c pages
  let e := match post with
    | some chksum => e.setPostApplyChecksum chksum
    | none => e
  e.finish c

/-! ## Which page sequences are accepted -/

/-- The page a snapshot has to continue with after `prevPgno`. -/
def nextPgno (lock prevPgno : Nat) : Nat :=
  if prevPgno + 1 = lock then prevPgno + 2 else prevPgno + 1

/-- `pgno` may follow `prevPgno` in a file with this header. -/
def SeqOk (hdr : Header) (prevPgno pgno : Nat) : Prop :=
  if hdr.isSnapshot then pgno = nextPgno hdr.lockPgno prevPgno else prevPgno < pgno

/-- The page `p` may be written after `prevPgno`. -/
structure PageOk (hdr : Header) (prevPgno : Nat) (p : Page) : Prop where
  pos : 0 < p.1
  le_commit : p.1 ≤ hdr.commit.toNat
  size : p.2.length = hdr.pageSize.toNat
  ne_lock : p.1 ≠ hdr.lockPgno
  seq : SeqOk hdr prevPgno p.1

/-- The pages may be written one after the other behind `prevPgno`. -/
def PagesOk (hdr : Header) : Nat → List Page → Prop
  | _, [] => True
  | prevPgno, p :: pages => PageOk hdr prevPgno p ∧ PagesOk hdr p.1 pages

instance (hdr : Header) (prevPgno pgno : Nat) : Decidable (SeqOk hdr prevPgno pgno) :=
  inferInstanceAs
    (Decidable (if hdr.isSnapshot then pgno = nextPgno hdr.lockPgno prevPgno else prevPgno < pgno))

/-- A page is accepted if its number, its length and its place in the sequence are right. -/
theorem pageOk_iff {hdr : Header} {prevPgno : Nat} {p : Page} :
    PageOk hdr prevPgno p ↔ 0 < p.1 ∧ p.1 ≤ hdr.commit.toNat ∧ p.2.length = hdr.pageSize.toNat ∧
      p.1 ≠ hdr.lockPgno ∧ SeqOk hdr prevPgno p.1 := by
  constructor
  · intro h
    exact ⟨h.pos, h.le_commit, h.size, h.ne_lock, h.seq⟩
  · rintro ⟨hpos, hle, hsize, hlock, hseq⟩
    exact ⟨hpos, hle, hsize, hlock, hseq⟩

instance (hdr : Header) (prevPgno : Nat) (p : Page) : Decidable (PageOk hdr prevPgno p) :=
  decidable_of_iff _ pageOk_iff.symm

/-- Whether a sequence of pages is accepted is decidable. -/
instance decidablePagesOk (hdr : Header) : (prevPgno : Nat) → (pages : List Page) →
    Decidable (PagesOk hdr prevPgno pages)
  | _, [] => inferInstanceAs (Decidable True)
  | prevPgno, p :: pages =>
      have := decidablePagesOk hdr p.1 pages
      inferInstanceAs (Decidable (PageOk hdr prevPgno p ∧ PagesOk hdr p.1 pages))

/-- Page numbers grow. -/
theorem SeqOk.lt {hdr : Header} {prevPgno pgno : Nat} (h : SeqOk hdr prevPgno pgno) :
    prevPgno < pgno := by
  rw [SeqOk] at h
  split at h
  · rw [h, nextPgno]
    split <;> omega
  · exact h

/-- A valid header's page size, and the place of its lock page. -/
theorem Header.pageSize_of_validate {hdr : Header} (h : hdr.validate = .ok ()) :
    512 ≤ hdr.pageSize.toNat ∧ hdr.pageSize.toNat ≤ maxPageSize := by
  rw [Header.validate] at h
  by_cases hf : isValidHeaderFlags hdr.flags
  · by_cases hp : isValidPageSize hdr.pageSize.toNat
    · exact isValidPageSize_bounds hp
    · rw [if_neg (by simp [hf]), if_pos (by simp [hp])] at h
      cases h
  · rw [if_pos (by simp [hf])] at h
    cases h

/-- The lock page is never the first one. -/
theorem Header.one_lt_lockPgno {hdr : Header} (h : hdr.validate = .ok ()) : 1 < hdr.lockPgno := by
  obtain ⟨hlo, hhi⟩ := Header.pageSize_of_validate h
  have : 1 ≤ pendingByte / hdr.pageSize.toNat :=
    (Nat.one_le_div_iff (by omega)).mpr (hhi.trans (by decide))
  rw [Header.lockPgno, Liters.lockPgno]
  omega

namespace Encoder

variable {c : Codec}

/-- The page-order check is `SeqOk`, once the lock page lies behind page 1. -/
theorem checkSequence_eq_ok_iff {hdr : Header} {prevPgno pgno : Nat} {u : Unit}
    (hlock : 1 < hdr.lockPgno) :
    checkSequence hdr prevPgno pgno = .ok u ↔ SeqOk hdr prevPgno pgno := by
  rw [checkSequence, SeqOk, nextPgno]
  by_cases hs : hdr.isSnapshot
  · rw [if_pos hs, if_pos hs, bind_eq_ok_iff]
    by_cases hl : prevPgno = hdr.lockPgno - 1
    · simp only [require_eq_ok_iff, if_pos hl, if_pos (show prevPgno + 1 = hdr.lockPgno by omega)]
      constructor
      · rintro ⟨-, -, h⟩; exact h
      · intro h; exact ⟨(), by omega, h⟩
    · simp only [require_eq_ok_iff, if_neg hl,
        if_neg (show ¬ prevPgno + 1 = hdr.lockPgno by omega)]
      constructor
      · rintro ⟨-, h1, h2⟩; omega
      · intro h; exact ⟨(), by omega, by omega⟩
  · rw [if_neg hs, if_neg hs, require_eq_ok_iff]

/-- When a page is accepted, and what the encoder is then. -/
theorem encodePage_eq_ok_iff {e e' : Encoder} {p : Page} (hstate : e.state = .page)
    (hlock : 1 < e.header.lockPgno) :
    e.encodePage c p.1 p.2 = .ok e' ↔
      PageOk e.header e.prevPgno p ∧ e' = e.pushPage c p.1 p.2 := by
  have hvalid : ∀ u, PageHeader.validate { pgno := p.1 } = .ok u ↔ 0 < p.1 := by
    intro u
    rw [PageHeader.validate]
    by_cases h0 : p.1 = 0
    · simp [h0]
    · simp [h0, Nat.pos_of_ne_zero h0]
  rw [encodePage]
  simp only [bind_eq_ok_iff, require_eq_ok_iff, checkSequence_eq_ok_iff hlock, pure_eq_ok,
    Except.ok.injEq, hvalid, exists_const]
  constructor
  · rintro ⟨-, -, hc, hpos, hsz, hl, hseq, rfl⟩
    exact ⟨⟨hpos, hc, hsz, hl, hseq⟩, rfl⟩
  · rintro ⟨hp, rfl⟩
    exact ⟨by simp [hstate], by simp [hstate], hp.le_commit, hp.pos, hp.size, hp.ne_lock, hp.seq,
      rfl⟩

end Encoder

/-! ## What an accepted run writes -/

section Layout

variable (c : Codec)

/-- The frame of a page: its header and its compressed content. -/
def pageFrame (p : Page) : Bytes := PageHeader.encode { pgno := p.1 } ++ compressFrame c p.2

/-- The bytes of a page that the file checksum covers: its header and its content. -/
def hashedPage (p : Page) : Bytes := PageHeader.encode { pgno := p.1 } ++ p.2

/-- The spans of page frames written from byte `n` on, in file order. -/
def frameSpans : Nat → List Page → List (Nat × Nat × Nat)
  | _, [] => []
  | n, p :: pages =>
      (p.1, n, (pageFrame c p).length) :: frameSpans (n + (pageFrame c p).length) pages

/-- The index of page frames written from byte `n` on, on top of `m`. -/
def indexFrom : Nat → SortedMap (Nat × Nat) → List Page → SortedMap (Nat × Nat)
  | _, m, [] => m
  | n, m, p :: pages =>
      indexFrom (n + (pageFrame c p).length) (m.insert p.1 (n, (pageFrame c p).length)) pages

/-- The page index of a file: the frames start behind the header. -/
def fileIndex (pages : List Page) : SortedMap (Nat × Nat) := indexFrom c headerSize .empty pages

/-- Everything of a file in front of its trailer. -/
def fileBody (hdr : Header) (pages : List Page) : Bytes :=
  hdr.encode ++ pages.flatMap (pageFrame c) ++ PageHeader.encode {}
    ++ encodePageIndex (fileIndex c pages)

/-- The bytes a file checksum covers. -/
def fileHash (hdr : Header) (pages : List Page) (post : UInt64) : Bytes :=
  hdr.encode ++ pages.flatMap hashedPage ++ PageHeader.encode {}
    ++ encodePageIndex (fileIndex c pages) ++ beBytes 8 post.toNat

/-- The trailer of a file. -/
def fileTrailer (hdr : Header) (pages : List Page) (post : UInt64) : Trailer where
  postApplyChecksum := post
  fileChecksum := checksumFlag ||| c.crc64 (fileHash c hdr pages post)

/-- The bytes of a file. -/
def fileBytes (hdr : Header) (pages : List Page) (post : UInt64) : Bytes :=
  fileBody c hdr pages ++ (fileTrailer c hdr pages post).encode

/-- The trailer rules of `finish`. -/
def FinishOk (hdr : Header) (pages : List Page) (post : UInt64) : Prop :=
  (fileTrailer c hdr pages post).validate hdr = .ok () ∧
    ¬ (hdr.commit = 0 ∧ post ≠ checksumEmpty)

variable {c}

/-- A file without checksum tracking is accepted unless it empties the database. -/
theorem finishOk_of_noChecksum {hdr : Header} (pages : List Page) (hn : hdr.noChecksum)
    (hcommit : hdr.commit ≠ 0) : FinishOk c hdr pages 0 := by
  have hfile := isFlagged_checksumFlag_or (c.crc64 (fileHash c hdr pages 0))
  refine ⟨?_, fun h => hcommit h.1⟩
  simp [Trailer.validate, fileTrailer, hn, hfile, ne_zero_of_isFlagged hfile]

/-- A file with checksum tracking is accepted with any stored checksum unless it empties the
database. -/
theorem finishOk_of_isFlagged {hdr : Header} (pages : List Page) {post : UInt64}
    (hn : ¬ hdr.noChecksum) (hpost : isFlagged post) (hcommit : hdr.commit ≠ 0) :
    FinishOk c hdr pages post := by
  have hfile := isFlagged_checksumFlag_or (c.crc64 (fileHash c hdr pages post))
  refine ⟨?_, fun h => hcommit h.1⟩
  simp [Trailer.validate, fileTrailer, hn, hfile, ne_zero_of_isFlagged hfile, hpost,
    ne_zero_of_isFlagged hpost]

/-- Without checksum tracking, a file that empties the database is refused: its post-apply checksum
would have to be present and absent. -/
theorem FinishOk.commit_ne_zero {hdr : Header} {pages : List Page} {post : UInt64}
    (h : FinishOk c hdr pages post) (hn : hdr.noChecksum) : hdr.commit ≠ 0 := by
  intro hcommit
  obtain ⟨hval, hempty⟩ := h
  have hpost : post = checksumEmpty := by
    by_contra hne
    exact hempty ⟨hcommit, hne⟩
  have hflag : checksumEmpty ≠ 0 := by decide
  simp [Trailer.validate, fileTrailer, hn, hpost, hflag] at hval

end Layout

namespace Encoder

variable {c : Codec}

/-- The encoder after writing pages it accepts. -/
def pushPages (c : Codec) (e : Encoder) (pages : List Page) : Encoder :=
  pages.foldl (fun e p => e.pushPage c p.1 p.2) e

/-- When a list of pages is accepted, and what the encoder is then. -/
theorem encodePages_eq_ok_iff {pages : List Page} {e e' : Encoder} (hstate : e.state = .page)
    (hlock : 1 < e.header.lockPgno) :
    e.encodePages c pages = .ok e' ↔
      PagesOk e.header e.prevPgno pages ∧ e' = e.pushPages c pages := by
  induction pages generalizing e with
  | nil =>
      simp only [encodePages, PagesOk, pushPages, List.foldl_nil, true_and, Except.ok.injEq]
      exact eq_comm
  | cons p pages ih =>
      rw [encodePages, bind_eq_ok_iff]
      simp only [encodePage_eq_ok_iff hstate hlock, PagesOk]
      have ih' := ih (e := e.pushPage c p.1 p.2) hstate hlock
      constructor
      · rintro ⟨_, ⟨hp, rfl⟩, hrest⟩
        obtain ⟨hps, rfl⟩ := ih'.mp hrest
        exact ⟨⟨hp, hps⟩, rfl⟩
      · rintro ⟨⟨hp, hps⟩, rfl⟩
        exact ⟨_, ⟨hp, rfl⟩, ih'.mpr ⟨hps, rfl⟩⟩

/-- The encoder's fields after a list of pages. -/
theorem pushPages_spec (e : Encoder) (pages : List Page) :
    (e.pushPages c pages).w = e.w ++ pages.flatMap (pageFrame c) ∧
      (e.pushPages c pages).hash = e.hash ++ pages.flatMap hashedPage ∧
      (e.pushPages c pages).state = e.state ∧ (e.pushPages c pages).header = e.header ∧
      (e.pushPages c pages).trailer = e.trailer ∧
      (e.pushPages c pages).index = indexFrom c e.n e.index pages := by
  induction pages generalizing e with
  | nil => simp [pushPages, indexFrom]
  | cons p pages ih =>
      obtain ⟨hw, hhash, hstate, hheader, htrailer, hindex⟩ := ih (e.pushPage c p.1 p.2)
      have hsize : e.n + (PageHeader.encode { pgno := p.1 }).length + (compressFrame c p.2).length
          = e.n + (pageFrame c p).length := by
        rw [pageFrame, List.length_append, Nat.add_assoc]
      refine ⟨?_, ?_, hstate, hheader, htrailer, ?_⟩
      · show ((e.pushPage c p.1 p.2).pushPages c pages).w = _
        rw [hw]
        simp [pushPage, write, pageFrame]
      · show ((e.pushPage c p.1 p.2).pushPages c pages).hash = _
        rw [hhash]
        simp [pushPage, write, hashedPage]
      · show ((e.pushPage c p.1 p.2).pushPages c pages).index = _
        rw [hindex]
        simp only [pushPage, write, hsize, Nat.add_sub_cancel_left, indexFrom]

end Encoder

namespace Encoder

/-- The encoder behind its header. -/
def started (hdr : Header) : Encoder :=
  { ({ header := hdr } : Encoder).write hdr.encode with state := .page }

/-- A fresh encoder accepts exactly the valid headers. -/
theorem encodeHeader_eq_ok_iff {hdr : Header} {e : Encoder} :
    encodeHeader {} hdr = .ok e ↔ hdr.validate = .ok () ∧ e = started hdr := by
  have hclosed : EncoderState.header ≠ .closed := by decide
  have hpage : EncoderState.header ≠ .page := by decide
  rw [encodeHeader, require_pos hclosed, require_pos hpage]
  simp only [ok_bind, bind_eq_ok_iff, pure_eq_ok, Except.ok.injEq]
  constructor
  · rintro ⟨_, hv, rfl⟩
    exact ⟨hv, rfl⟩
  · rintro ⟨hv, rfl⟩
    exact ⟨(), hv, rfl⟩

end Encoder

/-- When a run of encoder calls succeeds, and what it writes. -/
theorem encodeFile_eq_ok_iff {c : Codec} {hdr : Header} {pages : List Page} {post : Option UInt64}
    {r : Bytes × Header × Trailer} :
    encodeFile c hdr pages post = .ok r ↔
      hdr.validate = .ok () ∧ PagesOk hdr 0 pages ∧ FinishOk c hdr pages (post.getD 0) ∧
        r = (fileBytes c hdr pages (post.getD 0), hdr, fileTrailer c hdr pages (post.getD 0)) := by
  rw [encodeFile, bind_eq_ok_iff]
  by_cases hv : hdr.validate = .ok ()
  swap
  · -- an invalid header is refused at once
    refine iff_of_false (fun h => hv ?_) (fun h => hv h.1)
    obtain ⟨e, he, -⟩ := h
    exact (Encoder.encodeHeader_eq_ok_iff.mp he).1
  have hlock := Header.one_lt_lockPgno hv
  set e₁ := Encoder.started hdr with he₁
  obtain ⟨hw, hhash, hstate, hheader, htrailer, hindex⟩ := Encoder.pushPages_spec (c := c) e₁ pages
  have hindex' : (e₁.pushPages c pages).index = fileIndex c pages := by
    rw [hindex, fileIndex]
    show indexFrom c (0 + hdr.encode.length) .empty pages = _
    rw [Nat.zero_add, Header.encode_length]
  simp only [Encoder.encodeHeader_eq_ok_iff, hv, true_and, exists_eq_left, bind_eq_ok_iff]
  rw [← he₁]
  simp only [Encoder.encodePages_eq_ok_iff (e := e₁) rfl hlock]
  -- the optional checksum only touches the trailer
  set e₂ := e₁.pushPages c pages with he₂
  have hpost : (match post with
      | some chksum => e₂.setPostApplyChecksum chksum
      | none => e₂) = { e₂ with trailer := { postApplyChecksum := post.getD 0 } } := by
    cases post with
    | none =>
        show e₂ = { e₂ with trailer := {} }
        have : e₂.trailer = {} := htrailer
        rw [← this]
    | some chksum =>
        have : e₂.trailer = {} := htrailer
        simp only [Encoder.setPostApplyChecksum, this, Option.getD_some]
  have hfinish : ∀ r, (({ e₂ with trailer := { postApplyChecksum := post.getD 0 } } :
        Encoder).finish c
        = .ok r ↔ FinishOk c hdr pages (post.getD 0) ∧
          r = (fileBytes c hdr pages (post.getD 0), hdr,
            fileTrailer c hdr pages (post.getD 0))) := by
    intro r
    have hst : e₂.state = .page := hstate
    rw [Encoder.finish, require_pos (by simp [hst]), require_pos (by simp [hst])]
    simp only [ok_bind, bind_eq_ok_iff, require_eq_ok_iff, Encoder.write, hindex', hw, hhash,
      hheader, pure_eq_ok, Except.ok.injEq, exists_const]
    have e₁w : e₁.w = hdr.encode := List.nil_append _
    have e₁hash : e₁.hash = hdr.encode := List.nil_append _
    have e₁header : e₁.header = hdr := rfl
    rw [e₁w, e₁hash, e₁header]
    constructor
    · rintro ⟨_, hval, hempty, rfl⟩
      exact ⟨⟨hval, hempty⟩, rfl⟩
    · rintro ⟨⟨hval, hempty⟩, rfl⟩
      exact ⟨(), hval, hempty, rfl⟩
  constructor
  · rintro ⟨_, ⟨hpages, rfl⟩, hfin⟩
    rw [hpost, hfinish] at hfin
    exact ⟨hpages, hfin⟩
  · rintro ⟨hpages, hfin⟩
    exact ⟨_, ⟨hpages, rfl⟩, by rw [hpost, hfinish]; exact hfin⟩

/-- The last call of a successful run. -/
theorem Encoder.finish_of_encodeFile {c : Codec} {hdr : Header} {pages : List Page}
    {chksum : UInt64} {r : Bytes × Header × Trailer}
    (h : encodeFile c hdr pages (some chksum) = .ok r) :
    (((started hdr).pushPages c pages).setPostApplyChecksum chksum).finish c = .ok r := by
  have hv := (encodeFile_eq_ok_iff.mp h).1
  rw [encodeFile, bind_eq_ok_iff] at h
  obtain ⟨e, he, h⟩ := h
  obtain ⟨-, rfl⟩ := encodeHeader_eq_ok_iff.mp he
  rw [bind_eq_ok_iff] at h
  obtain ⟨e', he', h⟩ := h
  rw [encodePages_eq_ok_iff rfl (Header.one_lt_lockPgno hv)] at he'
  rwa [he'.2] at h

end Liters
