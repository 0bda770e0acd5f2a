import Liters.Writer.SnapshotLevel

/-! # A snapshot is the whole database

What a sync writes when `verify` asks for a snapshot: all pages of the database, each in its latest
committed version. That is so for every WAL that is read from the top; a snapshot that resumes in
the middle takes the pages of the frames before it from the database file. -/

namespace Liters

namespace WalReader

open LogEntry

variable {rd : WalReader} {wal : Bytes}

/-! ## The page map of any frames -/

/-- The pages of a finished scan, whatever its frames carry. -/
theorem Scan.Of.find?_pageMap {log : List LogEntry} {s : Scan} (h : Scan.Of log s)
    (frameSize pgno : Nat) :
    (s.pageMap frameSize).pages.find? pgno
      = if pgno ≤ ((committed log).getLast?.map LogEntry.commit).getD 0 then
        latest (committed log) pgno
        else none := by
  have hfind : (s.m.filterKeys fun pgno => pgno ≤ s.commit).find? pgno
      = if pgno ≤ ((committed log).getLast?.map LogEntry.commit).getD 0 then
        latest (committed log) pgno
        else none := by
    rw [SortedMap.find?_filterKeys, h.m, h.commit]
    simp only [decide_eq_true_eq]
  unfold Scan.pageMap
  by_cases hnil : (s.m.filterKeys fun pgno => pgno ≤ s.commit).entries = []
  · have hnone : (s.m.filterKeys fun pgno => pgno ≤ s.commit).find? pgno = none := by
      refine Option.eq_none_iff_forall_not_mem.mpr fun offset hoffset => ?_
      have hmem := SortedMap.mem_entries_iff.mpr hoffset
      rw [hnil] at hmem
      cases hmem
    rw [if_pos hnil, ← hfind, hnone]
    rfl
  · rw [if_neg hnil]
    exact hfind

/-- The size of a finished scan: that of the last commit if a page of the database was committed. -/
theorem Scan.Of.commit_pageMap {log : List LogEntry} {s : Scan} (h : Scan.Of log s)
    (frameSize : Nat) {last : LogEntry} (hlast : (committed log).getLast? = some last) :
    (s.pageMap frameSize).commit
      = if ∃ e ∈ committed log, e.key ≤ last.commit then last.commit else 0 := by
  have hcommit : s.commit = last.commit := by
    rw [h.commit, hlast]
    rfl
  -- the commit is kept if and only if a page of the map is within it
  have hiff : (s.m.filterKeys fun pgno => pgno ≤ s.commit).entries ≠ [] ↔
      ∃ e ∈ committed log, e.key ≤ last.commit := by
    constructor
    · intro hne
      obtain ⟨⟨k, v⟩, hkv⟩ := List.exists_mem_of_ne_nil _ hne
      rw [SortedMap.mem_entries_iff, SortedMap.find?_filterKeys, h.m, hcommit] at hkv
      split at hkv
      · rename_i hle
        obtain ⟨e, he, rfl, -⟩ := exists_of_latest hkv
        exact ⟨e, he, by simpa using hle⟩
      · cases hkv
    · rintro ⟨e, he, hle⟩
      have hsome : latest (committed log) e.key ≠ none := by
        rw [Ne, latest_eq_none_iff, not_not]
        exact List.mem_map_of_mem he
      obtain ⟨v, hv⟩ := Option.ne_none_iff_exists'.mp hsome
      have hfind : (s.m.filterKeys fun pgno => pgno ≤ s.commit).find? e.key = some v := by
        rw [SortedMap.find?_filterKeys, h.m, hcommit, if_pos (by simpa using hle), hv]
      exact List.ne_nil_of_mem (SortedMap.mem_entries_iff.mpr hfind)
  unfold Scan.pageMap
  by_cases hex : ∃ e ∈ committed log, e.key ≤ last.commit
  · rw [if_neg (hiff.mpr hex), if_pos hex]
    exact hcommit
  · rw [if_pos (not_not.mp (mt hiff.mp hex)), if_neg hex]

/-- The page map from the top is that of a scan of the frames. -/
theorem exists_scan_of_new (hnew : new wal = .ok rd) :
    ∃ s, Scan.Of (rd.frames maxOffset) s ∧ rd.pageMap.1 = s.pageMap rd.frameSize := by
  have hlength : rd.chainLength maxOffset < rd.r.length + 1 + 0 :=
    Nat.lt_succ_of_le (Nat.findGreatest_le _)
  have hscan := scanLoop_atSlot (Nat.zero_le _) hlength {}
  rw [atSlot_zero_of_new hnew] at hscan
  refine ⟨_, Scan.of_foldl _, ?_⟩
  show (scanLoop maxOffset (rd.r.length + 1) rd {}).1.pageMap rd.frameSize = _
  rw [hscan]
  rfl

end WalReader

namespace Local

open WalReader LogEntry

/-! ## What a snapshot holds -/

/-- The size of the committed database: that of the last committed frame, or that of the database
file. -/
def committedSize (rd : WalReader) (pageSize : Nat) (files : Files) : Nat :=
  ((committed (rd.frames maxOffset)).getLast?.map LogEntry.commit).getD (files.db.length / pageSize)

/-- The latest committed version of a page: that of its last committed frame, or that of the
database file. -/
def committedPage (rd : WalReader) (pageSize : Nat) (files : Files) (pgno : Nat) : Bytes :=
  ((latest (committed (rd.frames maxOffset)) pgno).map fun offset =>
    readAt files.wal (offset + walFrameHeaderSize) rd.pageSize).getD
      (readAt files.db ((pgno - 1) * pageSize) pageSize)

/-- A file with all pages of the committed database but the lock page, each once and in its latest
version. -/
structure WholeDatabase (rd : WalReader) (pageSize : Nat) (files : Files) (f : LtxFile) : Prop where
  commit : f.hdr.commit.toNat = committedSize rd pageSize files
  pgnos : f.pages.map Prod.fst = snapshotPgnos (lockPgno pageSize) f.hdr.commit.toNat
  page : ∀ p ∈ f.pages, p.2 = committedPage rd pageSize files p.1

/-- When a snapshot is read from the top of a WAL of this database: where the resume point is left
at the end of the newest L0 file, the frame in front of it does not carry the salts of that file. -/
structure ReadsWhole (rd : WalReader) (pageSize : Nat) (files : Files) (newest : Option LtxFile) :
    Prop where
  pageSize_eq : rd.pageSize = pageSize
  gone : ∀ ltx, newest = some ltx → SnapshotsAtEnd ltx files.wal (walFrameHeaderSize + pageSize) →
    saltsAt (readAt files.wal (ltx.walEnd - (walFrameHeaderSize + pageSize)) walFrameHeaderSize) 8 ≠
      ltx.walSalts
  /-- Some committed page is within the size that is committed last, unless the database file has
  that size. -/
  within : ∀ last, (committed (rd.frames maxOffset)).getLast? = some last →
    (∃ e ∈ committed (rd.frames maxOffset), e.key ≤ last.commit) ∨
      files.db.length / pageSize = last.commit
  /-- Without a commit the number of pages of the database file has 32 bits. -/
  small : committed (rd.frames maxOffset) = [] → files.db.length / pageSize < 2 ^ 32

section
variable {c : Codec} {pageSize : Nat} {files : Files} {state : SyncState} {newest : Option LtxFile}
  {pos : Nat}
  {info : SyncInfo} {now : Int64} {outcome : SyncOutcome} {l0 : Option LtxFile} {rd : WalReader}

/-- A snapshot reads from the top unless it resumes behind a frame of the newest L0 file. -/
theorem openReader_of_snapshot (hnew : new files.wal = .ok rd)
    (hreads : ReadsWhole rd pageSize files newest)
    (hverify : verify newest files.wal pageSize state = .ok info) (hsnap : info.snapshotting = true)
    {rd' : WalReader} {offset : Nat} (hopen : openReader files.wal info = .ok (rd', offset)) :
    rd' = rd := by
  rcases openReader_eq_ok hnew hopen with ⟨htop, -⟩ | ⟨-, hne, hwith⟩
  · exact htop
  · exfalso
    obtain ⟨hle, hsalts⟩ := withOffset_eq_ok hnew hwith
    have hframe : rd.frameSize = walFrameHeaderSize + pageSize := by
      rw [frameSize, hreads.pageSize_eq]
    cases newest with
    | none =>
        cases hverify
        exact hne rfl
    | some ltx =>
        rcases verify_cases hverify with ⟨hfalse, -⟩ | ⟨-, htop | ⟨hend, hinfo, hlong | hat⟩⟩
        · rw [hsnap] at hfalse
          cases hfalse
        · exact hne htop
        · rw [hend] at hle
          exact absurd hlong (Nat.not_lt.mpr hle)
        · rw [hend, hinfo, hframe] at hsalts
          exact hreads.gone ltx rfl hat hsalts

/-- The size that a snapshot from the top gets. -/
theorem committedSize_eq (hnew : new files.wal = .ok rd)
    (hreads : ReadsWhole rd pageSize files newest) :
    (if 0 < rd.pageMap.1.commit then rd.pageMap.1.commit else dbPages files.db pageSize)
        = committedSize rd pageSize files ∧ committedSize rd pageSize files < 2 ^ 32 := by
  obtain ⟨s, hs, hpm⟩ := exists_scan_of_new hnew
  unfold committedSize
  cases hlast : (committed (rd.frames maxOffset)).getLast? with
  -- no commit in the WAL: the size of the database file counts
  | none =>
      have hnil := List.getLast?_eq_none_iff.mp hlast
      have hsmall := hreads.small hnil
      have hzero : rd.pageMap.1.commit = 0 := by
        rw [hpm, Scan.pageMap]
        split
        · rfl
        · show s.commit = 0
          rw [hs.commit, hlast]
          rfl
      rw [hzero, if_neg (Nat.lt_irrefl 0)]
      exact ⟨Nat.mod_eq_of_lt hsmall, hsmall⟩
  -- the last commit tells the size, if a page of the map shows it
  | some last =>
      have hne := commit_of_getLast? hlast
      have hlt : last.commit < 2 ^ 32 := by
        obtain ⟨i, -, rfl⟩ := List.mem_map.mp
          ((committed_isPrefixOf _).subset (List.mem_of_getLast? hlast))
        exact beField_lt _ _
      have hcommit := hs.commit_pageMap rd.frameSize hlast
      rw [← hpm] at hcommit
      refine ⟨?_, hlt⟩
      rw [hcommit]
      by_cases hex : ∃ e ∈ committed (rd.frames maxOffset), e.key ≤ last.commit
      · rw [if_pos hex, if_pos (Nat.pos_of_ne_zero hne)]
        rfl
      · -- else the file itself has this size already
        rw [if_neg hex, if_neg (Nat.lt_irrefl 0)]
        have hsize := (hreads.within last hlast).resolve_left hex
        rw [dbPages, hsize]
        exact Nat.mod_eq_of_lt hlt

/-- What a snapshot from the top reads of a page within the size. -/
theorem committedPage_eq (hnew : new files.wal = .ok rd) (hps : rd.pageSize = pageSize) {p : Nat}
    {data : Bytes} (hle : p ≤ committedSize rd pageSize files)
    (h : sourcePage shortRead shortRead pageSize rd.pageMap.1 files p = .ok data) :
    data = committedPage rd pageSize files p := by
  obtain ⟨s, hs, hpm⟩ := exists_scan_of_new hnew
  have hfind : rd.pageMap.1.pages.find? p = latest (committed (rd.frames maxOffset)) p := by
    rw [hpm, hs.find?_pageMap]
    cases hlast : (committed (rd.frames maxOffset)).getLast? with
    | none =>
        rw [List.getLast?_eq_none_iff.mp hlast, latest_nil]
        exact ite_self _
    | some last =>
        rw [committedSize, hlast] at hle
        exact if_pos hle
  unfold sourcePage at h
  rw [hfind] at h
  unfold committedPage
  cases hlatest : latest (committed (rd.frames maxOffset)) p with
  | none =>
      rw [hlatest] at h
      exact readOr_eq_ok h
  | some offset =>
      rw [hlatest] at h
      rw [readOr_eq_ok h, hps]
      rfl

/-- **A snapshot is the whole committed database**: where `verify` asks for a snapshot that is read
from the top, a sync that succeeds writes every page but the lock page once, each in its latest
committed version. -/
theorem snapshot_wholeDatabase (hnew : new files.wal = .ok rd)
    (hreads : ReadsWhole rd pageSize files newest)
    (hverify : verify newest files.wal pageSize state = .ok info) (hsnap : info.snapshotting = true)
    (hsync : sync c pageSize files state pos info now = .ok (outcome, l0)) :
    ∃ f, l0 = some f ∧ WholeDatabase rd pageSize files f := by
  obtain ⟨rd', offset, size, hopen, -, -, hcases⟩ := sync_cases hsync
  obtain rfl := openReader_of_snapshot hnew hreads hverify hsnap hopen
  obtain ⟨hsize, hlt⟩ := committedSize_eq hnew hreads
  rcases hcases with ⟨hfalse, -⟩ | ⟨f, hf, -, hhdr, ⟨-, hpages⟩ | ⟨hfalse, -⟩⟩
  · rw [hsnap] at hfalse
    cases hfalse
  · rw [hsize] at hhdr hpages
    have hcommit : f.hdr.commit.toNat = committedSize rd' pageSize files := by
      rw [hhdr]
      exact UInt32.toNat_ofNat_of_lt' hlt
    obtain ⟨hpgnos, hread⟩ := readPages_eq_ok hpages
    refine ⟨f, hf, hcommit, by rw [hcommit, hpgnos], fun p hp => ?_⟩
    have hmem : p.1 ∈ snapshotPgnos (lockPgno pageSize) (committedSize rd' pageSize files) := by
      rw [← hpgnos]
      exact List.mem_map_of_mem hp
    have hle := (List.mem_range'_1.mp (List.mem_filter.mp hmem).1).2
    exact committedPage_eq hnew hreads.pageSize_eq (by omega) (hread p hp)
  · rw [hsnap] at hfalse
    cases hfalse

/-- The committed version of a page that the page map has. -/
theorem committedPage_of_find? (hnew : new files.wal = .ok rd) {p offset : Nat}
    (hfind : rd.pageMap.1.pages.find? p = some offset) :
    committedPage rd pageSize files p =
      readAt files.wal (offset + walFrameHeaderSize) rd.pageSize := by
  obtain ⟨s, hs, hpm⟩ := exists_scan_of_new hnew
  rw [hpm, hs.find?_pageMap] at hfind
  split at hfind
  · rw [committedPage, hfind]
    rfl
  · cases hfind

end

/-! ## The first snapshot, and one that resumes in the middle -/

/-- What `verify` answers without an L0 file. -/
def firstInfo : SyncInfo where
  offset := walHeaderSize
  salt1 := 0
  salt2 := 0
  reason := some "first sync, no local position"

/-- The L0 file of a first sync. -/
def wholeL0 : LtxFile where
  hdr := l0Header 512 2 1 32 1072 0 sampleReader
  pages := [(1, filled 0), (2, filled 1)]
  valid := by decide
  pagesOk := by decide +kernel
  noChecksum := by decide
  commit_ne_zero := by decide

/-- The newest L0 file of a history that went on differently from the second frame of the WAL on:
its WAL had the same salts. -/
def forkedL0 : LtxFile where
  hdr := l0Header 512 2 5 568 536 0 leftReader
  pages := [(2, filled 5)]
  valid := by decide
  pagesOk := by decide +kernel
  noChecksum := by decide
  commit_ne_zero := by decide

/-- The files of this history: nothing of the WAL is in the database file yet. -/
def forkedFiles : Files := ⟨filled 0 ++ filled 0, leftWal⟩

/-- The page map behind the end of the newest L0 file. -/
def middleMap : PageMap := ⟨SortedMap.empty.insert 2 1104, 1640, 2⟩

/-- The snapshot that is written. -/
def middleL0 : LtxFile where
  hdr := l0Header 512 2 6 1104 536 0 (leftReader.atSlot 2)
  pages := [(1, filled 0), (2, filled 3)]
  valid := by decide +kernel
  pagesOk := by decide +kernel
  noChecksum := by decide
  commit_ne_zero := by decide

/-- Where `verify` leaves the resume point. -/
def middleInfo : SyncInfo where
  offset := 1104
  salt1 := 7
  salt2 := 9
  reason := some "last page does not exist in last ltx file, wal overwritten by another process"

/-- What the files hold, by evaluation. -/
structure ForkedWorld : Prop where
  sampleMap : sampleReader.pageMap.1 = bothMap
  opened : openReader sampleWal firstInfo = .ok (sampleReader, 32)
  pages : l0Pages true 512 ⟨[], sampleWal⟩ 2 bothMap = .ok wholeL0.pages
  verify : verify (some forkedL0) leftWal 512 {} = .ok middleInfo
  middle : openReader leftWal middleInfo = .ok (leftReader.atSlot 2, 1104)
  middleMap : (leftReader.atSlot 2).pageMap.1 = middleMap
  middlePages : l0Pages true 512 forkedFiles 2 Local.middleMap = .ok middleL0.pages

/-- The forked sample is in good order. -/
theorem forkedWorld : ForkedWorld where
  sampleMap := by decide +kernel
  opened := by decide +kernel
  pages := by decide +kernel
  verify := by decide +kernel
  middle := by decide +kernel
  middleMap := by decide +kernel
  middlePages := by decide +kernel

/-- The sample WAL is read whole. -/
theorem readsWhole_sampleReader : ReadsWhole sampleReader 512 ⟨[], sampleWal⟩ none where
  pageSize_eq := rfl
  gone ltx hltx := by cases hltx
  within last hlast := by
    rw [frames_sampleReader] at hlast ⊢
    cases hlast
    exact .inl (by decide)
  small _ := by decide

/-- A first sync of the sample database. -/
theorem snapshot_wholeDatabase_first :
    verify none sampleWal 512 {} = .ok firstInfo ∧
      (∃ outcome, sync literalCodec 512 ⟨[], sampleWal⟩ {} 0 firstInfo 0 =
        .ok (outcome, some wholeL0)) ∧
      WholeDatabase sampleReader 512 ⟨[], sampleWal⟩ wholeL0 := by
  have hpm := forkedWorld.sampleMap
  obtain ⟨outcome, hsync, -⟩ :=
    @sync_eq_ok literalCodec 512 ⟨[], sampleWal⟩ {} 0 firstInfo 0 sampleReader 32
    1072 wholeL0 forkedWorld.opened (by rw [hpm]; decide) (by decide)
      (by rw [hpm]; exact forkedWorld.pages)
    (by rw [hpm]; rfl)
  obtain ⟨f, hf, hwhole⟩ :=
    @snapshot_wholeDatabase literalCodec 512 ⟨[], sampleWal⟩ {} none 0 firstInfo 0 outcome
    (some wholeL0) sampleReader new_sampleWal readsWhole_sampleReader rfl rfl hsync
  cases hf
  exact ⟨rfl, ⟨outcome, hsync⟩, hwhole⟩

/-- Behind a frame that carries the salts of the newest L0 file but another page, the snapshot
resumes in the middle: its first page is that of the database file, which the WAL has a later
version of. -/
theorem forked_snapshot_not_whole :
    new forkedFiles.wal = .ok leftReader ∧
    verify (some forkedL0) forkedFiles.wal 512 {} = .ok middleInfo ∧
      middleInfo.snapshotting = true ∧
      (∃ outcome, sync literalCodec 512 forkedFiles {} 5 middleInfo 0 =
        .ok (outcome, some middleL0)) ∧
      ¬ WholeDatabase leftReader 512 forkedFiles middleL0 := by
  have hpm := forkedWorld.middleMap
  obtain ⟨outcome, hsync, -⟩ :=
    @sync_eq_ok literalCodec 512 forkedFiles {} 5 middleInfo 0 (leftReader.atSlot 2)
    1104 536 middleL0 forkedWorld.middle (by rw [hpm]; decide) (by decide)
    (by rw [hpm]; exact forkedWorld.middlePages) (by rw [hpm]; rfl)
  refine ⟨nextWorld.newLeft, forkedWorld.verify, rfl, ⟨outcome, hsync⟩, fun hwhole => ?_⟩
  have hpage := hwhole.page (1, filled 0) (List.mem_cons_self ..)
  have hfind : leftReader.pageMap.1.pages.find? 1 = some 32 := by
    have hmap : leftReader.pageMap.1 = leftEndMap := nextWorld.leftEndMap
    rw [hmap]
    rfl
  have hfirst := nextWorld.firstPage
  have hcommitted : committedPage leftReader 512 forkedFiles 1 = readAt leftWal 56 512 :=
    @committedPage_of_find? 512 forkedFiles leftReader nextWorld.newLeft 1 32 hfind
  rw [hcommitted, hfirst] at hpage
  exact filled_ne (by decide) hpage

end Local

end Liters
