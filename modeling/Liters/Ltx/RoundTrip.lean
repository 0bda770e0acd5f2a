import Liters.Ltx.Decoder
import Liters.Ltx.LiteralCodec

/-! # The LTX format round-trips

Decoding the bytes of an accepted run of encoder calls gives back the header, the pages, the trailer
and an index of the page frames. The proof follows the decoder through the file:
`Decoder.afterPages` is the decoder behind the header and some pages, and there is one lemma for
each thing it can find next. -/

namespace Liters

variable {c : Codec}

/-! ## Sizes -/

/-- A block is at most its size field longer than its content. -/
theorem compressBlock_length_le (c : Codec) (block : Bytes) :
    (compressBlock c block).length ≤ 4 + block.length := by
  rw [compressBlock]
  split
  · simp
  · simp only [List.length_append, leBytes_length]
    omega

/-- A frame is bounded linearly by its content. -/
theorem compressFrame_length_le (c : Codec) (data : Bytes) :
    (compressFrame c data).length ≤ 15 + 5 * data.length := by
  have hblocks : ∀ blocks : List Bytes, (∀ p ∈ blocks, p ≠ []) →
      (blocks.flatMap (compressBlock c)).length ≤ 5 * blocks.flatten.length := by
    intro blocks hne
    induction blocks with
    | nil => simp
    | cons p blocks ih =>
        have hp : 0 < p.length := List.length_pos_iff.mpr (hne p (List.mem_cons_self ..))
        have hblock := compressBlock_length_le c p
        have hrest := ih fun q hq => hne q (List.mem_cons_of_mem _ hq)
        rw [List.flatMap_cons, List.flatten_cons, List.length_append, List.length_append]
        omega
  have h := hblocks (chunks blockSize data) fun p hp => (mem_chunks (by decide) hp).1
  rw [chunks_flatten (by decide)] at h
  simp only [compressFrame, List.length_append, leBytes_length, List.length_cons, List.length_nil]
  omega

/-- Pages that ascend up to the commit are at most as many. -/
theorem PagesOk.length_le {hdr : Header} {prevPgno : Nat} {pages : List Page}
    (h : PagesOk hdr prevPgno pages) (hprev : prevPgno ≤ hdr.commit.toNat) :
    prevPgno + pages.length ≤ hdr.commit.toNat := by
  induction pages generalizing prevPgno with
  | nil => simpa using hprev
  | cons p pages ih =>
      have hlt := h.1.seq.lt
      have := ih h.2 h.1.le_commit
      rw [List.length_cons]
      omega

/-- Every page of an accepted file is accepted behind some page below it. -/
theorem PagesOk.mem {hdr : Header} {prevPgno : Nat} {pages : List Page} {p : Page}
    (h : PagesOk hdr prevPgno pages) (hp : p ∈ pages) : ∃ q, prevPgno ≤ q ∧ PageOk hdr q p := by
  induction pages generalizing prevPgno with
  | nil => cases hp
  | cons a pages ih =>
      rcases List.mem_cons.mp hp with rfl | hp
      · exact ⟨prevPgno, le_rfl, h.1⟩
      · obtain ⟨q, hq, hok⟩ := ih h.2 hp
        exact ⟨q, h.1.seq.lt.le.trans hq, hok⟩

/-- The pages of an accepted file ascend. -/
theorem PagesOk.ascending {hdr : Header} {prevPgno : Nat} {pages : List Page}
    (h : PagesOk hdr prevPgno pages) :
    (∀ p ∈ pages, prevPgno < p.1) ∧ pages.Pairwise (fun a b => a.1 < b.1) := by
  induction pages generalizing prevPgno with
  | nil => simp
  | cons p pages ih =>
      obtain ⟨hlow, hasc⟩ := ih h.2
      refine ⟨fun a ha => ?_, List.pairwise_cons.mpr ⟨hlow, hasc⟩⟩
      rcases List.mem_cons.mp ha with rfl | ha
      · exact h.1.seq.lt
      · exact h.1.seq.lt.trans (hlow a ha)

/-- An upper bound for the frame of a page with at most the maximum page size. -/
def maxFrameSize : Nat := pageHeaderSize + (15 + 5 * maxPageSize)

/-- A page frame is no longer than the decoder's bound. -/
theorem pageFrame_length_le {p : Page} (h : p.2.length ≤ maxPageSize) :
    (pageFrame c p).length ≤ maxFrameSize := by
  have := compressFrame_length_le c p.2
  rw [pageFrame, List.length_append, PageHeader.encode_length, maxFrameSize]
  omega

/-! ## The index of an accepted file -/

/-- There is one span for each page. -/
theorem mem_frameSpans_fst {n : Nat} {pages : List Page} :
    (frameSpans c n pages).map Prod.fst = pages.map Prod.fst := by
  induction pages generalizing n with
  | nil => rfl
  | cons p pages ih => rw [frameSpans, List.map_cons, List.map_cons, ih]

/-- Indexing ascending pages appends their spans. -/
theorem indexFrom_entries {n : Nat} {m : SortedMap (Nat × Nat)} {pages : List Page}
    (hasc : pages.Pairwise (fun a b => a.1 < b.1))
    (hbelow : ∀ e ∈ m.entries, ∀ p ∈ pages, e.1 < p.1) :
    (indexFrom c n m pages).entries = m.entries ++ frameSpans c n pages := by
  induction pages generalizing n m with
  | nil => simp [indexFrom, frameSpans]
  | cons p pages ih =>
      rw [List.pairwise_cons] at hasc
      have hins := SortedMap.entries_insert_of_lt (m := m) (k := p.1) (n, (pageFrame c p).length)
        (fun e he => hbelow e he p (List.mem_cons_self ..))
      rw [indexFrom, frameSpans, ih hasc.2, hins, List.append_assoc, List.singleton_append]
      intro e he q hq
      rw [hins, List.mem_append, List.mem_singleton] at he
      rcases he with he | rfl
      · exact hbelow e he q (List.mem_cons_of_mem _ hq)
      · exact hasc.1 q hq

/-- The index of a file lists its pages' spans in order. -/
theorem fileIndex_entries {pages : List Page} (hasc : pages.Pairwise (fun a b => a.1 < b.1)) :
    (fileIndex c pages).entries = frameSpans c headerSize pages := by
  have hnone : ∀ e ∈ (SortedMap.empty : SortedMap (Nat × Nat)).entries, ∀ p ∈ pages, e.1 < p.1 :=
    fun e he => nomatch he
  rw [fileIndex, indexFrom_entries hasc hnone]
  rfl

/-- A span in the frame list is the place of its page's frame in the written bytes. -/
theorem mem_frameSpans {n : Nat} {pages : List Page} {e : Nat × Nat × Nat}
    (h : e ∈ frameSpans c n pages) :
    ∃ before p after, pages = before ++ p :: after ∧ e.1 = p.1 ∧
      e.2.1 = n + (before.flatMap (pageFrame c)).length ∧ e.2.2 = (pageFrame c p).length := by
  induction pages generalizing n with
  | nil => cases h
  | cons p pages ih =>
      rcases List.mem_cons.mp h with rfl | h
      · exact ⟨[], p, pages, rfl, rfl, rfl, rfl⟩
      · obtain ⟨before, q, after, rfl, h1, h2, h3⟩ := ih h
        refine ⟨p :: before, q, after, rfl, h1, ?_, h3⟩
        rw [h2, List.flatMap_cons, List.length_append, Nat.add_assoc]

/-- The frames of pages of bounded size. -/
theorem frames_length_le {pages : List Page} (h : ∀ p ∈ pages, p.2.length ≤ maxPageSize) :
    (pages.flatMap (pageFrame c)).length ≤ pages.length * maxFrameSize := by
  induction pages with
  | nil => simp
  | cons p pages ih =>
      have hp := pageFrame_length_le (c := c) (h p (List.mem_cons_self ..))
      have hrest := ih fun q hq => h q (List.mem_cons_of_mem _ hq)
      rw [List.flatMap_cons, List.length_append, List.length_cons, Nat.succ_mul]
      omega

/-- The entries of an accepted file's index fit their wire form. -/
theorem fileIndex_fits {hdr : Header} {pages : List Page} (hv : hdr.validate = .ok ())
    (hpages : PagesOk hdr 0 pages) : ∀ e ∈ (fileIndex c pages).entries, IndexFits e := by
  intro e he
  rw [fileIndex_entries hpages.ascending.2] at he
  obtain ⟨before, p, after, hsplit, h1, h2, h3⟩ := mem_frameSpans he
  have hsize : ∀ q ∈ pages, q.2.length ≤ maxPageSize := by
    intro q hq
    obtain ⟨_, -, hok⟩ := hpages.mem hq
    rw [hok.size]
    exact (Header.pageSize_of_validate hv).2
  have hp : p ∈ pages := by rw [hsplit]; simp
  obtain ⟨_, -, hok⟩ := hpages.mem hp
  have hcommit : hdr.commit.toNat < 2 ^ 32 := hdr.commit.toNat_lt
  have hcount : before.length ≤ hdr.commit.toNat := by
    have := hpages.length_le (Nat.zero_le _)
    rw [hsplit, List.length_append] at this
    omega
  have hframe := pageFrame_length_le (c := c) (hsize p hp)
  have hframes := frames_length_le (c := c)
    fun q (hq : q ∈ before) => hsize q (by rw [hsplit]; simp [hq])
  have hbound : before.length * maxFrameSize ≤ 2 ^ 32 * maxFrameSize :=
    Nat.mul_le_mul_right _ (by omega)
  have hmax : 2 ^ 32 * maxFrameSize ≤ 2 ^ 60 := by decide
  have hone : maxFrameSize ≤ 2 ^ 60 := by decide
  have hhead : headerSize ≤ 2 ^ 60 := by decide
  have hle := hok.le_commit
  refine ⟨h1 ▸ hok.pos, by omega, by omega, by omega⟩

/-! ## The decoder on an accepted file -/

/-- The rolling database checksum behind some pages of a snapshot. -/
def rollingChecksum (c : Codec) (pages : List Page) : UInt64 :=
  pages.foldl (fun a p => xorPageChecksum a (checksumPage c p.1 p.2)) checksumFlag

namespace Decoder

/-- The checksum a decoder has computed behind some pages of a file with this header. -/
def checksumAfter (c : Codec) (hdr : Header) (pages : List Page) : UInt64 :=
  if hdr.noChecksum then 0 else if hdr.isSnapshot then rollingChecksum c pages else checksumFlag

/-- The decoder behind the header and some pages, with `r` still to read. -/
def afterPages (c : Codec) (hdr : Header) (pages : List Page) (r : Bytes) : Decoder where
  r := r
  state := .page
  header := hdr
  chksum := checksumAfter c hdr pages
  hash := hdr.encode ++ pages.flatMap hashedPage

/-- The decoder behind the end marker of the page block. -/
def afterBlock (c : Codec) (hdr : Header) (pages : List Page) (r : Bytes) : Decoder where
  r := r
  state := .close
  header := hdr
  chksum := checksumAfter c hdr pages
  hash := hdr.encode ++ pages.flatMap hashedPage ++ PageHeader.encode {}

/-- A valid header is read back. -/
theorem decodeHeader_encode {hdr : Header} (hv : hdr.validate = .ok ()) (rest : Bytes) :
    decodeHeader { r := hdr.encode ++ rest } = .ok (afterPages c hdr [] rest) := by
  rw [decodeHeader, readOrEof_append _ _ (Header.encode_length hdr)]
  simp only [ok_bind, Header.decode_encode, hv, pure_eq_ok, afterPages,
    checksumAfter, rollingChecksum, List.foldl_nil, ite_self, List.flatMap_nil, List.append_nil,
    List.nil_append]

/-- The next frame of an accepted file is read back as its page. -/
theorem decodePage_pageFrame (hc : c.Lawful) {hdr : Header} {prevPgno : Nat} {pages : List Page}
    {p : Page} (hp : PageOk hdr prevPgno p) (rest : Bytes) :
    (afterPages c hdr pages (pageFrame c p ++ rest)).decodePage c hdr.pageSize.toNat
      = .ok (some ({ pgno := p.1 }, p.2), afterPages c hdr (pages ++ [p]) rest) := by
  have hlt : p.1 < 2 ^ 32 := lt_of_le_of_lt hp.le_commit hdr.commit.toNat_lt
  have hne : p.1 ≠ 0 := hp.pos.ne'
  -- the page header, then the frame with the page itself
  have hdec : PageHeader.decode (PageHeader.encode { pgno := p.1 }) = .ok { pgno := p.1 } := by
    have := PageHeader.decode_encode_append { pgno := p.1 } [] hlt (Nat.two_pow_pos 16)
    rwa [List.append_nil] at this
  have hzero : (PageHeader.isZero { pgno := p.1 }) = false := by
    simp [PageHeader.isZero, hne]
  have hval : PageHeader.validate { pgno := p.1 } = .ok () := by
    simp [PageHeader.validate, hne]
  have hframe := decompressFrame_compressFrame hc p.2 rest
  rw [hp.size] at hframe
  have hlock : (p.1 != hdr.lockPgno) = true := by simpa using hp.ne_lock
  -- the decoder sums what the encoder summed
  have hsum : (if (hdr.isSnapshot && !hdr.noChecksum && p.1 != hdr.lockPgno) = true then
      xorPageChecksum (checksumAfter c hdr pages) (checksumPage c p.1 p.2)
      else checksumAfter c hdr pages) = checksumAfter c hdr (pages ++ [p]) := by
    rw [hlock, Bool.and_true]
    by_cases hn : hdr.noChecksum
    · simp [checksumAfter, hn]
    · by_cases hs : hdr.isSnapshot
      · simp [checksumAfter, hn, hs, rollingChecksum]
      · simp [checksumAfter, hn, hs]
  rw [afterPages, decodePage]
  simp only [pageFrame, List.append_assoc]
  rw [readOrEof_append _ _ (PageHeader.encode_length _)]
  simp only [require_pos, ok_bind, hdec, hzero, hval, hframe, hsum, pure_eq_ok, afterPages,
    Bool.false_eq_true, if_false, List.flatMap_append, List.flatMap_cons, List.flatMap_nil,
    List.append_nil, hashedPage]

/-- The end marker ends the page block. -/
theorem decodePage_endMarker (c : Codec) (hdr : Header) (pages : List Page) (rest : Bytes) :
    (afterPages c hdr pages (PageHeader.encode {} ++ rest)).decodePage c hdr.pageSize.toNat
      = .ok (none, afterBlock c hdr pages rest) := by
  have hdec : PageHeader.decode (PageHeader.encode {}) = .ok {} := by decide
  have hzero : PageHeader.isZero {} = true := by decide
  rw [afterPages, decodePage]
  simp only [require_pos, ok_bind]
  rw [readOrEof_append _ _ (PageHeader.encode_length _)]
  simp only [ok_bind, hdec, hzero, if_true, afterBlock]

/-- Reading as many pages as were written and once more returns them and the end of the block. -/
theorem decodeN_pages (hc : c.Lawful) {hdr : Header} {prevPgno : Nat} {pages : List Page}
    (hpages : PagesOk hdr prevPgno pages) (before : List Page) (rest : Bytes) :
    decodeN c (pages.length + 1)
        (afterPages c hdr before (pages.flatMap (pageFrame c) ++ (PageHeader.encode {} ++ rest)))
      = .ok (pages.map (fun p => some ({ pgno := p.1 }, p.2)) ++ [none],
          afterBlock c hdr (before ++ pages) rest) := by
  induction pages generalizing prevPgno before with
  | nil =>
      rw [List.flatMap_nil, List.nil_append, List.length_nil, decodeN]
      simp only [show ∀ r, (afterPages c hdr before r).header = hdr from fun _ => rfl]
      rw [decodePage_endMarker]
      simp only [ok_bind, decodeN, pure_eq_ok, List.map_nil, List.nil_append, List.append_nil]
  | cons p pages ih =>
      rw [List.flatMap_cons, List.length_cons, decodeN, List.append_assoc]
      simp only [show ∀ r, (afterPages c hdr before r).header = hdr from fun _ => rfl]
      rw [decodePage_pageFrame hc hpages.1]
      simp only [ok_bind]
      rw [ih hpages.2]
      simp only [ok_bind, pure_eq_ok, List.map_cons, List.cons_append, List.append_assoc,
        List.nil_append]

/-- Behind the page block, the index and the trailer of the file are read and pass every check. -/
theorem finish_afterBlock {hdr : Header} {pages : List Page} {post : UInt64}
    (hv : hdr.validate = .ok ()) (hpages : PagesOk hdr 0 pages)
    (hpost : hdr.isSnapshot → ¬ hdr.noChecksum → post = rollingChecksum c pages) :
    (afterBlock c hdr pages
        (encodePageIndex (fileIndex c pages) ++ (fileTrailer c hdr pages post).encode)).finish c
      = .ok ([], hdr, fileTrailer c hdr pages post,
          (fileIndex c pages).mapVal (fun s => ⟨0, hdr.minTxid, hdr.maxTxid, s.1, s.2⟩)) := by
  set trailer := fileTrailer c hdr pages post with htrailer
  set index := encodePageIndex (fileIndex c pages) with hindex
  have hlen : trailerSize ≤ (index ++ trailer.encode).length := by
    rw [List.length_append, Trailer.encode_length]
    omega
  -- everything but the file checksum is hashed, which is what the encoder hashed
  have hhashed : (index ++ trailer.encode).take ((index ++ trailer.encode).length - checksumSize)
      = index ++ beBytes 8 post.toNat := by
    have : index ++ trailer.encode
        = (index ++ beBytes 8 post.toNat) ++ beBytes 8 trailer.fileChecksum.toNat := by
      rw [Trailer.encode, List.append_assoc]
      rfl
    rw [this, List.length_append, beBytes_length, checksumSize, Nat.add_sub_cancel,
      List.take_left]
  have hfile : checksumFlag ||| c.crc64 (hdr.encode ++ pages.flatMap hashedPage
      ++ PageHeader.encode {} ++ (index ++ beBytes 8 post.toNat)) = trailer.fileChecksum := by
    rw [htrailer, fileTrailer, fileHash, hindex]
    simp only [List.append_assoc]
  have hroll : ¬ (hdr.isSnapshot ∧ ¬ hdr.noChecksum ∧
      trailer.postApplyChecksum ≠ checksumAfter c hdr pages) := by
    rintro ⟨hs, hn, hne⟩
    refine hne ?_
    rw [checksumAfter, if_neg hn, if_pos hs, ← hpost hs hn]
    rfl
  have hstate : DecoderState.close ≠ DecoderState.closed := by decide
  rw [afterBlock, finish]
  simp only [require_pos hstate, require_pos, require_pos hlen, ok_bind, hhashed]
  rw [hindex, decodePageIndex_encodePageIndex _ _ _ _ _ (fileIndex_fits hv hpages)]
  simp only [ok_bind, Trailer.encode_length, require_pos, Trailer.decode_encode]
  rw [← hindex, require_pos hfile, ok_bind, require_pos hroll]
  rfl

end Decoder

/-- A page frame fetched through the index decodes to its page. -/
theorem decodePageData_pageFrame (hc : c.Lawful) {hdr : Header} {prevPgno : Nat} {p : Page}
    (hp : PageOk hdr prevPgno p) :
    decodePageData c (pageFrame c p) hdr.pageSize.toNat = .ok ({ pgno := p.1 }, p.2) := by
  have hlt : p.1 < 2 ^ 32 := lt_of_le_of_lt hp.le_commit hdr.commit.toNat_lt
  have hzero : (PageHeader.isZero { pgno := p.1 }) = false := by
    simp [PageHeader.isZero, hp.pos.ne']
  have hdrop : (pageFrame c p).drop pageHeaderSize = compressFrame c p.2 := by
    rw [pageFrame, ← PageHeader.encode_length { pgno := p.1 }, List.drop_left]
  have hframe := decompressFrame_compressFrame hc p.2 []
  rw [hp.size, List.append_nil] at hframe
  rw [decodePageData, hdrop, pageFrame,
    PageHeader.decode_encode_append _ _ hlt (Nat.two_pow_pos 16)]
  simp only [ok_bind, hzero, Bool.false_eq_true, if_false, hframe, pure_eq_ok]

/-- The bytes of a file between its header and its end marker are its frames. -/
theorem readAt_fileBytes {hdr : Header} {before after : List Page} {p : Page} {post : UInt64} :
    readAt (fileBytes c hdr (before ++ p :: after) post)
        (headerSize + (before.flatMap (pageFrame c)).length) (pageFrame c p).length
      = pageFrame c p := by
  have hshape : fileBytes c hdr (before ++ p :: after) post
      = (hdr.encode ++ before.flatMap (pageFrame c)) ++ pageFrame c p
        ++ (after.flatMap (pageFrame c) ++ PageHeader.encode {}
          ++ encodePageIndex (fileIndex c (before ++ p :: after))
          ++ (fileTrailer c hdr (before ++ p :: after) post).encode) := by
    simp [fileBytes, fileBody]
  have hpre : headerSize + (before.flatMap (pageFrame c)).length
      = (hdr.encode ++ before.flatMap (pageFrame c)).length := by
    rw [List.length_append, Header.encode_length]
  rw [hshape, hpre]
  exact readAt_segment _ _ _ rfl

/-- **The LTX format round-trips.** If a run of encoder calls succeeds (and a checksummed snapshot
was given the checksum of its pages), decoding its bytes yields the header, the pages in order, the
end of the page block and then the trailer and a page index. The index lists exactly the pages
written, the span of each entry is the frame of its page, and the frame alone decodes to the
page. -/
theorem decode_encodeFile (hc : c.Lawful) {hdr hdr' : Header} {pages : List Page}
    {post : Option UInt64} {bytes : Bytes} {trailer : Trailer}
    (henc : encodeFile c hdr pages post = .ok (bytes, hdr', trailer))
    (hpost : hdr.isSnapshot → ¬ hdr.noChecksum → post.getD 0 = rollingChecksum c pages) :
    ∃ d d' : Decoder, ∃ index : SortedMap PageIndexElem,
      Decoder.decodeHeader { r := bytes } = .ok d ∧ d.header = hdr ∧ hdr' = hdr ∧
      d.decodeN c (pages.length + 1)
        = .ok (pages.map (fun p => some ({ pgno := p.1 }, p.2)) ++ [none], d') ∧
      d'.finish c = .ok ([], hdr, trailer, index) ∧
      index.keys = pages.map Prod.fst ∧
      ∀ pgno e, index.find? pgno = some e → ∃ data, (pgno, data) ∈ pages ∧
        readAt bytes e.offset e.size = pageFrame c (pgno, data) ∧
        decodePageData c (readAt bytes e.offset e.size) hdr.pageSize.toNat
          = .ok ({ pgno }, data) := by
  obtain ⟨hv, hpages, -, hr⟩ := encodeFile_eq_ok_iff.mp henc
  simp only [Prod.mk.injEq] at hr
  obtain ⟨hbytes, hhdr, htrailer⟩ := hr
  rw [hbytes, htrailer]
  have hshape : fileBytes c hdr pages (post.getD 0)
      = hdr.encode ++ (pages.flatMap (pageFrame c) ++ (PageHeader.encode {}
        ++ (encodePageIndex (fileIndex c pages)
          ++ (fileTrailer c hdr pages (post.getD 0)).encode))) := by
    simp [fileBytes, fileBody]
  refine ⟨_, _, _, by rw [hshape]; exact Decoder.decodeHeader_encode (c := c) hv _, rfl, hhdr,
    Decoder.decodeN_pages hc hpages [] _, Decoder.finish_afterBlock hv hpages hpost, ?_, ?_⟩
  · -- the index lists the pages in the order they were written
    rw [SortedMap.keys, SortedMap.mapVal, List.map_map,
      ← mem_frameSpans_fst (c := c) (n := headerSize), ← fileIndex_entries hpages.ascending.2]
    rfl
  · -- an entry points at the frame that was written for its page
    intro pgno e he
    rw [List.nil_append, ← SortedMap.mem_entries_iff, SortedMap.mapVal, List.mem_map] at he
    obtain ⟨s, hs, hse⟩ := he
    simp only [Prod.mk.injEq] at hse
    obtain ⟨rfl, rfl⟩ := hse
    rw [fileIndex_entries hpages.ascending.2] at hs
    obtain ⟨before, p, after, rfl, h1, h2, h3⟩ := mem_frameSpans hs
    have hp : p ∈ before ++ p :: after := by simp
    obtain ⟨_, -, hok⟩ := hpages.mem hp
    have hread : readAt (fileBytes c hdr (before ++ p :: after) (post.getD 0)) s.2.1 s.2.2
        = pageFrame c p := by
      rw [h2, h3]
      exact readAt_fileBytes
    refine ⟨p.2, h1 ▸ hp, ?_, ?_⟩
    · rw [hread, h1]
    · rw [hread, h1]
      exact decodePageData_pageFrame hc hok

/-- A page without a repeated four-byte group: steps of one, then steps of three. -/
def unrepeatedPage : Bytes :=
  (List.range 512).map fun i => UInt8.ofNat (if i < 256 then i else (i - 256) * 3)

/-- The sample page has 512 bytes. -/
theorem unrepeatedPage_length : unrepeatedPage.length = 512 := by simp [unrepeatedPage]

/-- Another page, counting down. -/
def reversedPage : Bytes := unrepeatedPage.reverse

/-- So has the reversed one. -/
theorem reversedPage_length : reversedPage.length = 512 := by
  rw [reversedPage, List.length_reverse, unrepeatedPage_length]

/-- The header of a checksummed snapshot of two 512-byte pages. -/
def snapshotHeader : Header :=
  { pageSize := 512, commit := 2, minTxid := 1, maxTxid := 1, timestamp := 1700000000000 }

/-- The round trip of a checksummed snapshot of two pages: the index finds the frame of the second
one, which decodes alone. -/
theorem decode_encodeFile_twoPages :
    ∃ bytes trailer d d' index,
      encodeFile literalCodec snapshotHeader [(1, unrepeatedPage), (2, reversedPage)]
          (some (rollingChecksum literalCodec [(1, unrepeatedPage), (2, reversedPage)]))
        = .ok (bytes, snapshotHeader, trailer) ∧
      Decoder.decodeHeader { r := bytes } = .ok d ∧
      d.decodeN literalCodec 3
        = .ok ([some ({ pgno := 1 }, unrepeatedPage), some ({ pgno := 2 }, reversedPage), none],
          d') ∧
      d'.finish literalCodec = .ok ([], snapshotHeader, trailer, index) ∧ index.keys = [1, 2] ∧
      ∃ e, index.find? 2 = some e ∧
        decodePageData literalCodec (readAt bytes e.offset e.size) 512 =
          .ok ({ pgno := 2 }, reversedPage) := by
  have hlength := unrepeatedPage_length
  have hlength' := reversedPage_length
  -- only the lengths of the pages matter
  generalize unrepeatedPage = page at hlength ⊢
  generalize reversedPage = page' at hlength' ⊢
  have hcommit : 2 ≤ snapshotHeader.commit.toNat := by decide
  have hlock : 1 ≠ snapshotHeader.lockPgno ∧ 2 ≠ snapshotHeader.lockPgno := by decide
  have hpages : PagesOk snapshotHeader 0 [(1, page), (2, page')] :=
    ⟨⟨Nat.one_pos, Nat.le_of_succ_le hcommit, hlength, hlock.1, rfl⟩,
      ⟨Nat.two_pos, hcommit, hlength', hlock.2, rfl⟩, trivial⟩
  have hflag : isFlagged (rollingChecksum literalCodec [(1, page), (2, page')]) :=
    isFlagged_checksumFlag_or _
  have hfin : FinishOk literalCodec snapshotHeader [(1, page), (2, page')]
      (rollingChecksum literalCodec [(1, page), (2, page')]) :=
    finishOk_of_isFlagged _ (by decide) hflag (by decide)
  have henc : encodeFile literalCodec snapshotHeader [(1, page), (2, page')]
      (some (rollingChecksum literalCodec [(1, page), (2, page')])) = .ok _ :=
    encodeFile_eq_ok_iff.mpr ⟨by decide, hpages, hfin, rfl⟩
  have hpost : snapshotHeader.isSnapshot → ¬ snapshotHeader.noChecksum →
      (some (rollingChecksum literalCodec [(1, page), (2, page')])).getD 0
        = rollingChecksum literalCodec [(1, page), (2, page')] := fun _ _ => Option.getD_some
  obtain ⟨d, d', index, hheader, -, -, hread, hfinish, hkeys, hindex⟩ :=
    decode_encodeFile literalCodec_lawful henc hpost
  have htwo : (index.find? 2).isSome :=
    SortedMap.mem_keys_iff.mp (hkeys ▸ List.mem_cons_of_mem _ (List.mem_singleton_self 2))
  obtain ⟨e, he⟩ := Option.isSome_iff_exists.mp htwo
  obtain ⟨data, hdata, -, hdecode⟩ := hindex 2 e he
  obtain rfl : data = page' := by simpa using hdata
  exact ⟨_, _, d, d', index, henc, hheader, hread, hfinish, hkeys, e, he, hdecode⟩

end Liters
