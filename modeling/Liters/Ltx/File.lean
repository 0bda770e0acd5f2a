import Liters.Foundation.PageImage
import Liters.Ltx.RoundTrip

/-! # LTX files as patches

An `LtxFile` is a file as the encoder produces it without checksum tracking, the only kind the
replication code writes. Its header and pages are those of a successful run, so a file that the
encoder would refuse cannot be built. As a `Patch`, it says what applying it does to a database. -/

namespace Liters

/-- The validation rules of a header without checksum tracking. -/
structure Header.PlainOk (h : Header) : Prop where
  flags : isValidHeaderFlags h.flags
  pageSize : isValidPageSize h.pageSize.toNat
  minTxid : h.minTxid ≠ 0
  maxTxid : h.maxTxid ≠ 0
  order : h.minTxid ≤ h.maxTxid
  walOffset : 0 ≤ h.walOffset
  walSize : 0 ≤ h.walSize
  salt : h.walOffset = 0 → h.walSalt1 = 0 ∧ h.walSalt2 = 0
  size : h.walOffset = 0 → h.walSize = 0
  preApply : h.preApplyChecksum = 0

/-- What a header without checksums must meet to be valid. -/
theorem Header.validate_eq_ok_iff {h : Header} (hn : h.noChecksum) :
    h.validate = .ok () ↔ h.PlainOk := by
  have hpre : (if h.isSnapshot then
        if h.preApplyChecksum != 0 then
          .error (.invalid "pre-apply checksum must be zero on snapshots")
        else .ok ()
      else if h.noChecksum then
        if h.preApplyChecksum != 0 then
          .error (.invalid "pre-apply checksum not allowed")
        else .ok ()
      else if h.preApplyChecksum == 0 then
        .error (.invalid "pre-apply checksum required on non-snapshot files")
      else if !isFlagged h.preApplyChecksum then
        .error (.invalid "invalid pre-apply checksum format")
      else .ok () : Except LtxError Unit) = .ok () ↔ h.preApplyChecksum = 0 := by
    by_cases hs : h.isSnapshot
    · simp [hs]
    · simp [hs, hn]
  rw [Header.validate]
  simp only [ite_error_eq_ok_iff, hpre]
  constructor
  · rintro ⟨h1, h2, h3, h4, h5, h6, h7, h8, h9, h10⟩
    exact ⟨by simpa using h1, by simpa using h2, by simpa using h3, by simpa using h4,
      UInt64.not_lt.mp h5, Int64.not_lt.mp h6, Int64.not_lt.mp h7,
      fun h0 => by simpa [h0] using h8, fun h0 => by simpa [h0] using h9, h10⟩
  · intro hok
    refine ⟨by simpa using hok.flags, by simpa using hok.pageSize, by simpa using hok.minTxid,
      by simpa using hok.maxTxid, UInt64.not_lt.mpr hok.order, Int64.not_lt.mpr hok.walOffset,
      Int64.not_lt.mpr hok.walSize, fun hb => ?_, fun hb => ?_, hok.preApply⟩
    · simp only [Bool.and_eq_true, Bool.or_eq_true, bne_iff_ne, beq_iff_eq] at hb
      rcases hb with ⟨h1 | h2, h0⟩
      · exact h1 (hok.salt h0).1
      · exact h2 (hok.salt h0).2
    · simp only [Bool.and_eq_true, bne_iff_ne, beq_iff_eq] at hb
      exact hb.2 (hok.size hb.1)

/-- A file of an encoder run without checksum tracking. -/
structure LtxFile where
  hdr : Header
  pages : List Page
  valid : hdr.validate = .ok ()
  pagesOk : PagesOk hdr 0 pages
  noChecksum : hdr.noChecksum
  commit_ne_zero : hdr.commit ≠ 0

namespace LtxFile

variable {c : Codec}

/-- The bytes of the file. -/
def bytes (c : Codec) (f : LtxFile) : Bytes := fileBytes c f.hdr f.pages 0

/-- The trailer of the file. -/
def trailer (c : Codec) (f : LtxFile) : Trailer := fileTrailer c f.hdr f.pages 0

/-- What applying the file does. -/
def patch (f : LtxFile) : Patch Bytes where
  commit := f.hdr.commit.toNat
  page? p := f.pages.lookup p

/-- The page no file holds. -/
def lock (f : LtxFile) : Nat := f.hdr.lockPgno

/-- Writing a file succeeds and produces its bytes. -/
theorem encodeFile_eq (f : LtxFile) :
    encodeFile c f.hdr f.pages none = .ok (f.bytes c, f.hdr, f.trailer c) :=
  encodeFile_eq_ok_iff.mpr
    ⟨f.valid, f.pagesOk, finishOk_of_noChecksum f.pages f.noChecksum f.commit_ne_zero, rfl⟩

/-- Setting a zero post-apply checksum changes nothing. -/
theorem encodeFile_zero (f : LtxFile) :
    encodeFile c f.hdr f.pages (some 0) = .ok (f.bytes c, f.hdr, f.trailer c) :=
  encodeFile_eq_ok_iff.mpr
    ⟨f.valid, f.pagesOk, finishOk_of_noChecksum f.pages f.noChecksum f.commit_ne_zero, rfl⟩

/-- The page numbers of a file are positive, within its commit and never the lock page. -/
theorem mem_pages {f : LtxFile} {p : Page} (h : p ∈ f.pages) :
    0 < p.1 ∧ p.1 ≤ f.hdr.commit.toNat ∧ p.2.length = f.hdr.pageSize.toNat ∧ p.1 ≠ f.lock := by
  obtain ⟨_, -, hok⟩ := f.pagesOk.mem h
  exact ⟨hok.pos, hok.le_commit, hok.size, hok.ne_lock⟩

/-- The pages of a file are in order. -/
theorem pages_ascending (f : LtxFile) : f.pages.Pairwise (fun a b => a.1 < b.1) :=
  f.pagesOk.ascending.2

/-- A page of a file and its lookup are the same thing. -/
theorem mem_pages_iff {f : LtxFile} {p : Nat} {d : Bytes} :
    (p, d) ∈ f.pages ↔ f.patch.page? p = some d :=
  SortedMap.mem_entries_iff (m := ⟨f.pages, f.pages_ascending⟩)

/-- The header rules a file satisfies. -/
theorem plainOk (f : LtxFile) : f.hdr.PlainOk := (Header.validate_eq_ok_iff f.noChecksum).mp f.valid

end LtxFile

/-! ## Reading files back -/

section
variable {c : Codec}

/-- The bytes of a file behind its end marker. -/
def LtxFile.tail (c : Codec) (f : LtxFile) : Bytes :=
  encodePageIndex (fileIndex c f.pages) ++ (f.trailer c).encode

/-- A file is its header, its page frames, an empty page header and its tail. -/
theorem LtxFile.bytes_eq (f : LtxFile) :
    f.bytes c = f.hdr.encode
      ++ (f.pages.flatMap (pageFrame c) ++ (PageHeader.encode {} ++ f.tail c)) := by
  simp [LtxFile.bytes, fileBytes, fileBody, LtxFile.tail, LtxFile.trailer]

/-- The decoder of `f` behind the pages `read`, with the pages `q` to come. -/
def LtxFile.decAt (c : Codec) (f : LtxFile) (read q : List Page) : Decoder :=
  .afterPages c f.hdr read (q.flatMap (pageFrame c) ++ (PageHeader.encode {} ++ f.tail c))

/-- Behind its page block a file closes with its own trailer and index. -/
theorem LtxFile.finish_afterBlock (f : LtxFile) :
    (Decoder.afterBlock c f.hdr f.pages (f.tail c)).finish c
      = .ok ([], f.hdr, f.trailer c, (fileIndex c f.pages).mapVal
          (fun s => ⟨0, f.hdr.minTxid, f.hdr.maxTxid, s.1, s.2⟩)) :=
  Decoder.finish_afterBlock f.valid f.pagesOk fun _ hn => absurd f.noChecksum hn

/-- The page loop reads the pages of a file and the end of its block. -/
theorem Decoder.decodePages_pages (hc : c.Lawful) {hdr : Header} {prevPgno : Nat}
    {pages : List Page} (hpages : PagesOk hdr prevPgno pages) (before : List Page) (rest : Bytes)
    {fuel : Nat} (hfuel : pages.length < fuel) :
    Decoder.decodePages c fuel
        (.afterPages c hdr before (pages.flatMap (pageFrame c) ++ (PageHeader.encode {} ++ rest)))
      = .ok (pages, .afterBlock c hdr (before ++ pages) rest) := by
  have hheader : ∀ r, (Decoder.afterPages c hdr before r).header = hdr := fun _ => rfl
  induction pages generalizing prevPgno before fuel with
  | nil =>
      obtain ⟨fuel, rfl⟩ : ∃ k, fuel = k + 1 := ⟨fuel - 1, by omega⟩
      rw [List.flatMap_nil, List.nil_append, Decoder.decodePages, hheader,
        Decoder.decodePage_endMarker, ok_bind, List.append_nil]
  | cons p pages ih =>
      obtain ⟨fuel, rfl⟩ : ∃ k, fuel = k + 1 := ⟨fuel - 1, by omega⟩
      have hrest := ih hpages.2 (before ++ [p]) (Nat.lt_of_succ_lt_succ hfuel) fun _ => rfl
      rw [List.flatMap_cons, List.append_assoc, Decoder.decodePages, hheader,
        Decoder.decodePage_pageFrame hc hpages.1, ok_bind]
      simp only [hrest, ok_bind, pure_eq_ok, List.append_assoc, List.cons_append, List.nil_append]

/-- The pages of a file are no more than its bytes. -/
theorem LtxFile.pages_length_le (f : LtxFile) : f.pages.length ≤ (f.bytes c).length := by
  have hframes : ∀ ps : List Page, ps.length ≤ (ps.flatMap (pageFrame c)).length := by
    intro ps
    induction ps with
    | nil => exact le_rfl
    | cons p ps ih =>
        have hpos : 0 < (pageFrame c p).length := by simp [pageFrame, pageHeaderSize]
        rw [List.flatMap_cons, List.length_append, List.length_cons]
        omega
  have := hframes f.pages
  rw [f.bytes_eq]
  simp only [List.length_append]
  omega

/-- A file reads back as itself. -/
theorem LtxFile.decodeFile_bytes (hc : c.Lawful) (f : LtxFile) :
    decodeFile c (f.bytes c) = .ok (f.hdr, f.pages, f.trailer c, (fileIndex c f.pages).mapVal
      (fun s => ⟨0, f.hdr.minTxid, f.hdr.maxTxid, s.1, s.2⟩)) := by
  have hhead := Decoder.decodeHeader_encode (c := c) f.valid
    (f.pages.flatMap (pageFrame c) ++ (PageHeader.encode {} ++ f.tail c))
  have hpages := Decoder.decodePages_pages hc f.pagesOk [] (f.tail c)
    (Nat.lt_succ_of_le (f.pages_length_le (c := c)))
  have hopen : Decoder.decodeHeader { r := f.bytes c } = .ok (.afterPages c f.hdr []
      (f.pages.flatMap (pageFrame c) ++ (PageHeader.encode {} ++ f.tail c))) := by
    rw [f.bytes_eq]
    exact hhead
  rw [decodeFile, hopen, ok_bind, hpages, ok_bind, List.nil_append]
  simp only [f.finish_afterBlock, ok_bind, pure_eq_ok]

/-- A file verifies. -/
theorem LtxFile.verifyFile_bytes (hc : c.Lawful) (f : LtxFile) :
    ∃ index, verifyFile c (f.bytes c) = .ok (f.hdr, f.trailer c, index) := by
  refine ⟨(fileIndex c f.pages).mapVal
    (fun s => ⟨0, f.hdr.minTxid, f.hdr.maxTxid, s.1, s.2⟩), ?_⟩
  rw [verifyFile, f.decodeFile_bytes hc, ok_bind]
  rfl

end

/-! ## Building files from page sets -/

/-- Ascending pages with admissible numbers and sizes are accepted in a file that is no snapshot. -/
theorem pagesOk_of_ascending {hdr : Header} {pages : List Page} (hs : hdr.isSnapshot = false)
    (hasc : pages.Pairwise (fun a b => a.1 < b.1))
    (hok : ∀ p ∈ pages, 0 < p.1 ∧ p.1 ≤ hdr.commit.toNat ∧ p.2.length = hdr.pageSize.toNat ∧
      p.1 ≠ hdr.lockPgno)
    {prevPgno : Nat} (hprev : ∀ p ∈ pages, prevPgno < p.1) : PagesOk hdr prevPgno pages := by
  induction pages generalizing prevPgno with
  | nil => trivial
  | cons p pages ih =>
      rw [List.pairwise_cons] at hasc
      obtain ⟨h1, h2, h3, h4⟩ := hok p (List.mem_cons_self ..)
      refine ⟨⟨h1, h2, h3, h4, ?_⟩, ih hasc.2 (fun q hq => hok q (List.mem_cons_of_mem _ hq))
        hasc.1⟩
      rw [SeqOk, if_neg (by simp [hs])]
      exact hprev p (List.mem_cons_self ..)

/-- Ascending pages that are all the pages behind `prevPgno` are accepted in a snapshot. -/
theorem pagesOk_of_complete {hdr : Header} {pages : List Page} (hs : hdr.isSnapshot)
    (hasc : pages.Pairwise (fun a b => a.1 < b.1))
    (hok : ∀ p ∈ pages, 0 < p.1 ∧ p.1 ≤ hdr.commit.toNat ∧ p.2.length = hdr.pageSize.toNat ∧
      p.1 ≠ hdr.lockPgno)
    {prevPgno : Nat} (hprev : ∀ p ∈ pages, prevPgno < p.1)
    (hall : ∀ k, prevPgno < k → k ≤ hdr.commit.toNat → k ≠ hdr.lockPgno → ∃ d, (k, d) ∈ pages) :
    PagesOk hdr prevPgno pages := by
  induction pages generalizing prevPgno with
  | nil => trivial
  | cons p pages ih =>
      rw [List.pairwise_cons] at hasc
      obtain ⟨h1, h2, h3, h4⟩ := hok p (List.mem_cons_self ..)
      have hlt := hprev p (List.mem_cons_self ..)
      -- the page to continue with is present, so it is the first one
      have hfirst : ∀ k, prevPgno < k → k ≤ p.1 → k ≠ hdr.lockPgno → k = p.1 := by
        intro k hk hkp hkl
        obtain ⟨d, hd⟩ := hall k hk (hkp.trans h2) hkl
        rcases List.mem_cons.mp hd with rfl | hd
        · rfl
        · exact absurd (hasc.1 _ hd) (by simp only; omega)
      refine ⟨⟨h1, h2, h3, h4, ?_⟩, ih hasc.2 (fun q hq => hok q (List.mem_cons_of_mem _ hq))
        hasc.1 fun k hk hkc hkl => ?_⟩
      · rw [SeqOk, if_pos hs, nextPgno]
        split
        · rename_i hl
          exact (hfirst (prevPgno + 2) (by omega) (by omega) (by omega)).symm
        · rename_i hl
          exact (hfirst (prevPgno + 1) (by omega) (by omega) hl).symm
      · obtain ⟨d, hd⟩ := hall k (by omega) hkc hkl
        rcases List.mem_cons.mp hd with rfl | hd
        · exact absurd hk (lt_irrefl _)
        · exact ⟨d, hd⟩

/-! ## A database of one page -/

/-- The sample page is accepted wherever its number is. -/
theorem pageOk_unrepeatedPage {hdr : Header} {prevPgno pgno : Nat}
    (hsize : hdr.pageSize.toNat = 512) (hpos : 0 < pgno) (hle : pgno ≤ hdr.commit.toNat)
    (hlock : pgno ≠ hdr.lockPgno) (hseq : SeqOk hdr prevPgno pgno) :
    PageOk hdr prevPgno (pgno, unrepeatedPage) :=
  ⟨hpos, hle, by simp only [unrepeatedPage_length, hsize], hlock, hseq⟩

/-- A transaction number as a file records it. -/
def txidOf (t : Nat) : UInt64 := if UInt64.ofNat t = 0 then 1 else UInt64.ofNat t

/-- A TXID is never zero. -/
theorem txidOf_ne_zero (t : Nat) : txidOf t ≠ 0 := by
  unfold txidOf
  split
  · decide
  · assumption

/-- The range of one TXID is not empty. -/
theorem txidOf_le (t : Nat) : txidOf t ≤ txidOf t := UInt64.le_refl _

/-- A TXID within 64 bits is the number it is made of. -/
theorem toNat_txidOf {t : Nat} (hpos : 1 ≤ t) (hlt : t < 2 ^ 64) : (txidOf t).toNat = t := by
  have hsize : t < UInt64.size := hlt
  have hnat : (UInt64.ofNat t).toNat = t := UInt64.toNat_ofNat_of_lt' hsize
  have hne : UInt64.ofNat t ≠ 0 := fun h => by
    rw [h] at hnat
    exact absurd hnat (by simp; omega)
  rw [txidOf, if_neg hne, hnat]

/-- The header of a file of the transactions `lo, ..., hi` of a database of one page. -/
def onePageRangeHeader (lo hi : UInt64) : Header :=
  { flags := headerFlagNoChecksum, pageSize := 512, commit := 1, minTxid := lo, maxTxid := hi }

/-- The sample file carries no checksums. -/
theorem onePageRangeHeader_noChecksum (lo hi : UInt64) : (onePageRangeHeader lo hi).noChecksum := by
  have hflags : (onePageRangeHeader lo hi).flags = headerFlagNoChecksum := rfl
  rw [Header.noChecksum, hflags]
  decide

/-- Its lock page is far behind its end. -/
theorem onePageRangeHeader_lockPgno (lo hi : UInt64) :
    (onePageRangeHeader lo hi).lockPgno = 2097153 := by
  have hsize : (onePageRangeHeader lo hi).pageSize = 512 := rfl
  rw [Header.lockPgno, hsize]
  decide

/-- Its header is valid for every range of TXIDs. -/
theorem onePageRangeHeader_valid {lo hi : UInt64} (hlo : lo ≠ 0) (hle : lo ≤ hi) :
    (onePageRangeHeader lo hi).validate = .ok () := by
  have hhi : hi ≠ 0 := by
    rintro rfl
    exact hlo (UInt64.le_antisymm hle UInt64.zero_le)
  have hflags : isValidHeaderFlags headerFlagNoChecksum := by decide
  have hsize : isValidPageSize (512 : UInt32).toNat := by decide
  exact (Header.validate_eq_ok_iff (onePageRangeHeader_noChecksum lo hi)).mpr
    ⟨hflags, hsize, hlo, hhi, hle, Int64.le_refl _, Int64.le_refl _, fun _ => ⟨rfl, rfl⟩,
    fun _ => rfl, rfl⟩

/-- A file of the transactions `lo, ..., hi` of a database of one page. -/
def onePageRange (lo hi : UInt64) (hlo : lo ≠ 0) (hle : lo ≤ hi) : LtxFile where
  hdr := onePageRangeHeader lo hi
  pages := [(1, unrepeatedPage)]
  valid := onePageRangeHeader_valid hlo hle
  pagesOk := by
    have hlock := onePageRangeHeader_lockPgno lo hi
    refine ⟨pageOk_unrepeatedPage rfl Nat.one_pos (Nat.le_refl 1) (by rw [hlock]; decide) ?_,
      trivial⟩
    rw [SeqOk, hlock]
    split
    · rfl
    · exact Nat.one_pos
  noChecksum := onePageRangeHeader_noChecksum lo hi
  commit_ne_zero := (by decide : (1 : UInt32) ≠ 0)

/-- It holds the sample page. -/
theorem onePageRange_page (lo hi : UInt64) (hlo : lo ≠ 0) (hle : lo ≤ hi) :
    (onePageRange lo hi hlo hle).patch.page? 1 = some unrepeatedPage := by
  simp [LtxFile.patch, onePageRange]

/-- TXIDs start at 1. -/
theorem one_le_txidOf (t : Nat) : 1 ≤ txidOf t := by
  have hne : (txidOf t).toNat ≠ 0 := fun h => txidOf_ne_zero t (UInt64.toNat_inj.mp h)
  exact UInt64.le_iff_toNat_le.mpr (Nat.one_le_iff_ne_zero.mpr hne)

end Liters
