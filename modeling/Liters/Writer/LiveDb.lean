import Liters.Wal.Rewrite
import Liters.Writer.SnapshotLevel

/-! # A database in use

What applications do with a database while a writer keeps L0 files of it: they commit behind the
committed part of the WAL, checkpoints copy its pages into the database file, and once the file
holds the whole database the WAL may be restarted with salts that were never used, over the slots
from the first one on, or cut. `Tracked` says how the L0 files stand to the files of the database;
every step keeps it. -/

namespace Liters

namespace Local

open WalReader LogEntry

/-- A page of a database file. -/
def pageAt (pageSize : Nat) (db : Bytes) (pgno : Nat) : Bytes :=
  readAt db ((pgno - 1) * pageSize) pageSize

/-- A database in use. -/
structure LiveDb where
  files : Files
  /-- The database at the start of the WAL. -/
  base : Image Bytes
  /-- The salts of this WAL and of those before it. -/
  seen : List (Nat × Nat)
  /-- The local L0 files. -/
  chain : List LtxFile
  state : SyncState
  /-- Something was committed since the last sync. -/
  unsynced : Bool
  /-- Some of it was committed before the start of this WAL. -/
  missed : Bool

/-- The committed database. -/
def LiveDb.database (d : LiveDb) : Image Bytes :=
  match WalReader.new d.files.wal with
  | .ok rd => rd.stateAt d.base maxOffset
  | .error _ => d.base

/-- A checkpoint: each page of the database file is as it was or as in the committed database, and
so is its size. -/
structure Copied (pageSize : Nat) (img : Image Bytes) (db db' : Bytes) : Prop where
  page : ∀ p, 0 < p → p ≤ img.size →
    pageAt pageSize db' p = pageAt pageSize db p ∨ pageAt pageSize db' p = img.page p
  size : dbPages db' pageSize = dbPages db pageSize ∨ dbPages db' pageSize = img.size

/-- The database file is the whole committed database. -/
structure Flushed (pageSize : Nat) (img : Image Bytes) (db : Bytes) : Prop where
  page : ∀ p, 0 < p → p ≤ img.size → pageAt pageSize db p = img.page p
  size : dbPages db pageSize = img.size

/-- A WAL as SQLite writes it over a database, of whose frames none carries page zero or the lock
page. -/
structure WrittenPlain (rd : WalReader) (pageSize : Nat) (base : Image Bytes) : Prop
    extends WrittenOver rd pageSize base where
  plain : ∀ e ∈ rd.frames maxOffset, 0 < e.key ∧ e.key ≠ lockPgno pageSize

/-- A transaction is committed behind the committed part of a WAL: the bytes before it and behind it
stay. -/
structure CommitsBehind (pageSize : Nat) (base : Image Bytes) (wal wal' : Bytes)
    (rd rd' : WalReader) : Prop where
  before : new wal = .ok rd
  after : new wal' = .ok rd'
  kept : wal'.take rd.committedEnd = wal.take rd.committedEnd
  stale : wal'.drop rd'.committedEnd = wal.drop rd'.committedEnd
  grown : rd.committedEnd < rd'.committedEnd
  written : WrittenPlain rd' pageSize base
  length : wal'.length < 2 ^ 63

/-- A transaction is committed into a restarted WAL, from the first slot on: the bytes behind it
stay. -/
structure CommitsOver (pageSize : Nat) (base : Image Bytes) (wal wal' : Bytes) (rd' : WalReader) :
    Prop where
  after : new wal' = .ok rd'
  stale : wal'.drop rd'.committedEnd = wal.drop rd'.committedEnd
  commits : walHeaderSize < rd'.committedEnd
  written : WrittenPlain rd' pageSize base
  length : wal'.length < 2 ^ 63

/-- What applications do: commit, checkpoint, commit into a restarted WAL, and cut the WAL. -/
inductive AppAct where
  | commit
  | checkpoint
  | restart
  | truncate
deriving DecidableEq

/-- A transaction is committed. -/
def AppAct.commits : AppAct → Bool
  | .commit | .restart => true
  | .checkpoint | .truncate => false

/-- The WAL is started over. -/
def AppAct.resets : AppAct → Bool
  | .restart | .truncate => true
  | .commit | .checkpoint => false

/-- What each of them makes of the database. -/
inductive AppStep (pageSize : Nat) (d : LiveDb) : AppAct → LiveDb → Prop where
  | commit {rd rd' : WalReader} {wal' : Bytes}
      (h : CommitsBehind pageSize d.base d.files.wal wal' rd rd') :
      AppStep pageSize d .commit { d with files := ⟨d.files.db, wal'⟩, unsynced := true }
  | checkpoint {db' : Bytes} (hcopied : Copied pageSize d.database d.files.db db') :
      AppStep pageSize d .checkpoint { d with files := ⟨db', d.files.wal⟩ }
  | restart {rd' : WalReader} {wal' : Bytes} (hflushed : Flushed pageSize d.database d.files.db)
      (h : CommitsOver pageSize d.database d.files.wal wal' rd')
        (hfresh : (rd'.salt1, rd'.salt2) ∉ d.seen) :
      AppStep pageSize d .restart { d with
        files := ⟨d.files.db, wal'⟩, base := d.database, seen := (rd'.salt1, rd'.salt2) :: d.seen,
        unsynced := true, missed := d.missed || d.unsynced }
  | truncate (hflushed : Flushed pageSize d.database d.files.db) :
      AppStep pageSize d .truncate { d with
        files := ⟨d.files.db, []⟩, base := d.database, missed := d.missed || d.unsynced }

/-! ## The L0 files and the files of the database -/

/-- How the newest L0 file stands to the WAL. -/
structure EndsIn (pageSize : Nat) (d : LiveDb) (ltx : LtxFile) : Prop where
  seen : ltx.walSalts ∈ d.seen
  aligned : ∃ n, ltx.walEnd = walHeaderSize + n * (walFrameHeaderSize + pageSize)
  /-- A frame with its salts in front of its end is the last one it was made of. -/
  last : walHeaderSize + (walFrameHeaderSize + pageSize) ≤ ltx.walEnd → ∀ frame,
    readAt d.files.wal (ltx.walEnd - (walFrameHeaderSize + pageSize))
      (walFrameHeaderSize + pageSize) = frame →
    frame.length = walFrameHeaderSize + pageSize → saltsAt frame 8 = ltx.walSalts →
    (beField frame 0, frame.drop walFrameHeaderSize) ∈ ltx.pages
  /-- While the WAL has its salts, it ends at the header or at the end of a commit, where the fold
  is the database. -/
  same : ∀ rd, new d.files.wal = .ok rd → saltsAt d.files.wal 16 = ltx.walSalts →
    (ltx.walEnd = walHeaderSize ∨
      ∃ i, rd.slotStart i < rd.committedEnd ∧ (rd.entryAt i).commit ≠ 0 ∧
        ltx.walEnd = rd.slotStart (i + 1)) ∧
    Image.AgreeOff (lockPgno pageSize) (fold pageSize d.chain) (rd.stateAt d.base ltx.walEnd)
  /-- Another WAL has commits of its own; if nothing was missed, the fold is the database at its
  start. -/
  other : ∀ rd, new d.files.wal = .ok rd → saltsAt d.files.wal 16 ≠ ltx.walSalts →
    walHeaderSize < rd.committedEnd ∧
      (d.missed = false → Image.AgreeOff (lockPgno pageSize) (fold pageSize d.chain) d.base)

/-- The L0 files are made of this database. -/
structure Tracked (pageSize : Nat) (d : LiveDb) : Prop where
  written : ∀ rd, new d.files.wal = .ok rd → WrittenPlain rd pageSize d.base
  salts : ∀ rd, new d.files.wal = .ok rd → (rd.salt1, rd.salt2) ∈ d.seen
  length : d.files.wal.length < 2 ^ 63
  locked : ∀ rd, new d.files.wal = .ok rd → LockedOff rd d.base rd.committedEnd fun _ => d.files
  newest : ∀ ltx, d.chain.getLast? = some ltx → EndsIn pageSize d ltx
  caught : d.unsynced = false →
    Image.AgreeOff (lockPgno pageSize) (fold pageSize d.chain) d.database

/-- The database is what its WAL makes of its base. -/
theorem LiveDb.database_eq {d : LiveDb} {rd : WalReader} (hnew : new d.files.wal = .ok rd) :
    d.database = rd.stateAt d.base maxOffset := by
  rw [database, hnew]

/-- Without a header there is no reader. -/
theorem new_nil (rd : WalReader) : new [] ≠ .ok rd := by
  intro h
  cases h

section
variable {pageSize : Nat} {d : LiveDb}

/-- The end of an L0 file is the end of a slot of the WAL or the header. -/
theorem EndsIn.slot {ltx : LtxFile} (h : EndsIn pageSize d ltx) {rd : WalReader}
    (hps : rd.pageSize = pageSize)
    (hle : walHeaderSize + (walFrameHeaderSize + pageSize) ≤ ltx.walEnd) :
    ∃ i, ltx.walEnd = rd.slotStart (i + 1) ∧
      ltx.walEnd - (walFrameHeaderSize + pageSize) = rd.slotStart i := by
  obtain ⟨n, hn⟩ := h.aligned
  rcases n with _ | i
  · rw [Nat.zero_mul] at hn
    have : 0 < walFrameHeaderSize := by decide
    omega
  · have hend : ltx.walEnd = rd.slotStart (i + 1) := by rw [hn, slotStart, frameSize, hps]
    refine ⟨i, hend, ?_⟩
    rw [hend, slotStart_succ, frameSize, hps, Nat.add_sub_cancel]

/-- What a frame header of the WAL says, read with its page. -/
theorem saltsAt_frame (rd : WalReader) (i : Nat) :
    saltsAt (readAt rd.r (rd.slotStart i) rd.frameSize) 8
      = (beField (rd.slotHdr i) 8, beField (rd.slotHdr i) 12) := by
  have hfield : ∀ pos, pos + 4 ≤ walFrameHeaderSize →
      beField (readAt rd.r (rd.slotStart i) rd.frameSize) pos = beField (rd.slotHdr i) pos := by
    intro pos hpos
    have hle : pos + 4 ≤ rd.frameSize := Nat.le_add_right_of_le hpos
    rw [beField, beField, slotHdr, readAt_readAt _ hle, readAt_readAt _ hpos]
  rw [saltsAt, hfield 8 (by decide), hfield 12 (by decide)]

/-- A frame that was written over with other salts, or that stayed. -/
theorem EndsIn.last_of_rewritten {ltx : LtxFile} (h : EndsIn pageSize d ltx) {wal' : Bytes}
    {rd' : WalReader} (hnew' : new wal' = .ok rd') (hps : rd'.pageSize = pageSize)
    (hother : (rd'.salt1, rd'.salt2) ≠ ltx.walSalts)
    {low : Nat} (hlow : wal'.take low = d.files.wal.take low)
    (hover : ∀ i, low ≤ rd'.slotStart i ∨ rd'.slotStart (i + 1) ≤ low)
    (hstale : wal'.drop rd'.committedEnd = d.files.wal.drop rd'.committedEnd)
    (hle : walHeaderSize + (walFrameHeaderSize + pageSize) ≤ ltx.walEnd) (frame : Bytes)
    (hframe : readAt wal' (ltx.walEnd - (walFrameHeaderSize + pageSize))
      (walFrameHeaderSize + pageSize) = frame)
    (hlength : frame.length = walFrameHeaderSize + pageSize)
    (hsalts : saltsAt frame 8 = ltx.walSalts) :
    (beField frame 0, frame.drop walFrameHeaderSize) ∈ ltx.pages := by
  obtain ⟨i, hend, hprev⟩ := h.slot hps hle
  have hsize : walFrameHeaderSize + pageSize = rd'.frameSize := by rw [frameSize, hps]
  refine h.last hle frame ?_ hlength hsalts
  rw [← hframe, hprev]
  by_cases hin : rd'.slotStart i < rd'.committedEnd
  · rcases hover i with hover | hkept
    · -- a frame of the WAL as it is now has its salts
      have hlinked := linked_of_committedEnd hin
      have hnow := saltsAt_frame rd' i
      rw [r_of_new hnew', ← hsize, ← hprev, hframe, hsalts, hlinked.salts] at hnow
      exact absurd hnow.symm hother
    · refine (readAt_congr_take hlow ?_).symm
      rw [hsize, ← slotStart_succ]
      exact hkept
  · exact (readAt_congr_drop hstale (Nat.not_lt.mp hin) _).symm

/-! ## Every step keeps track -/

/-- The pages that a database file which is the whole database shares with it. -/
theorem Flushed.lockedOff {files : Files} {img : Image Bytes} {rd : WalReader} {endOffset : Nat}
    (h : Flushed pageSize img files.db) (hps : rd.pageSize = pageSize) (hr : rd.r = files.wal) :
    LockedOff rd img endOffset fun _ => files where
  wal _ := by rw [hr]
  page _ p hpos _ hle _ _ := hps ▸ h.page p hpos hle
  size _ _ := hps ▸ h.size

section
variable {wal' : Bytes} {rd rd' : WalReader}
  (h : CommitsBehind pageSize d.base d.files.wal wal' rd rd')
include h

/-- Commits keep the page size. -/
theorem CommitsBehind.pageSize_eq (hbefore : WrittenPlain rd pageSize d.base) :
    rd'.pageSize = rd.pageSize :=
  h.written.pageSize_eq.trans hbefore.pageSize_eq.symm

/-- They keep the committed part of the WAL. -/
theorem CommitsBehind.r_kept : rd'.r.take rd.committedEnd = rd.r.take rd.committedEnd := by
  rw [r_of_new h.before, r_of_new h.after, h.kept]

/-- They keep the salts. -/
theorem CommitsBehind.salts_eq : (rd'.salt1, rd'.salt2) = (rd.salt1, rd.salt2) := by
  rw [new_congr h.before h.after (take_congr_of_le h.kept (Nat.le_add_right _ _))]

/-- They keep them in the WAL's header. -/
theorem CommitsBehind.saltsAt_eq : saltsAt wal' 16 = saltsAt d.files.wal 16 := by
  have hafter : (rd'.salt1, rd'.salt2) = saltsAt (⟨d.files.db, wal'⟩ : Files).wal 16 :=
    saltsAt_of_new h.after
  rw [← saltsAt_of_new h.before, ← h.salts_eq, hafter]

/-- There is one reader of a WAL. -/
theorem CommitsBehind.reader_eq {reader : WalReader} (hreader : new wal' = .ok reader) :
    reader = rd' := by
  rw [h.after] at hreader
  exact (Except.ok.inj hreader).symm

/-- The pages of the database file that the WAL does not carry are as they were. -/
theorem CommitsBehind.lockedOff (hbefore : WrittenPlain rd pageSize d.base)
    (hlocked : LockedOff rd d.base rd.committedEnd fun _ => d.files) :
    LockedOff rd' d.base rd'.committedEnd fun _ => ⟨d.files.db, wal'⟩ := by
  have hps := h.pageSize_eq hbefore
  obtain ⟨more, hmore⟩ := committed_frames_grown hps h.r_kept h.grown.le
  have huntil := pageMapUntil_committedEnd h.before hbefore.pgno_le
  have huntil' := pageMapUntil_committedEnd h.after h.written.pgno_le
  have hstate : rd.stateAt d.base rd.committedEnd = rd.stateAt d.base maxOffset :=
    congrArg (rd.overlay d.base) huntil
  have hstate' : rd'.stateAt d.base rd'.committedEnd = rd'.stateAt d.base maxOffset :=
    congrArg (rd'.overlay d.base) huntil'
  refine ⟨fun _ =>
    by rw [r_of_new h.after], fun m p hpos hlock hbase hsize hfind => ?_, fun hempty => ?_⟩
  · -- the page was not in the old map either, and the file still has it
    rw [huntil'] at hfind
    rw [hstate'] at hsize
    rw [h.written.pageSize_eq] at hlock
    obtain ⟨hnone, hle⟩ := find?_eq_none_of_grown h.before h.after hbefore.pgno_le h.written.pgno_le
      h.written.grows.later hmore hlock hbase hsize hfind
    have hpage := hlocked.page m p hpos (by rwa [hbefore.pageSize_eq]) hbase (by rwa [hstate])
      (by rwa [huntil])
    rw [hps]
    exact hpage
  · -- something is committed now
    rw [huntil'] at hempty
    rcases pageMap_end h.after h.written.pgno_le with ⟨-, -, hend⟩ | ⟨last, -, hne, -⟩
    · have hlow : walHeaderSize ≤ rd.committedEnd := Nat.le_add_right _ _
      have hgrown := h.grown
      omega
    · rw [hempty] at hne
      exact absurd rfl hne

/-- The last frame of the newest L0 file stays, or is written over. -/
theorem CommitsBehind.last (hbefore : WrittenPlain rd pageSize d.base) {ltx : LtxFile}
    (hends : EndsIn pageSize d ltx)
    (hle : walHeaderSize + (walFrameHeaderSize + pageSize) ≤ ltx.walEnd) (frame : Bytes)
    (hframe : readAt wal' (ltx.walEnd - (walFrameHeaderSize + pageSize))
      (walFrameHeaderSize + pageSize) = frame)
    (hlength : frame.length = walFrameHeaderSize + pageSize)
    (hsalts : saltsAt frame 8 = ltx.walSalts) :
    (beField frame 0, frame.drop walFrameHeaderSize) ∈ ltx.pages := by
  -- the salts are those of the WAL, or of one before it
  by_cases hown : saltsAt d.files.wal 16 = ltx.walSalts
  · -- it lies in the committed part
    refine hends.last hle frame ?_ hlength hsalts
    obtain ⟨hat, -⟩ := hends.same rd h.before hown
    have hin : ltx.walEnd ≤ rd.committedEnd := by
      rcases hat with htop | ⟨j, hj, -, hend⟩
      · rw [htop]
        exact Nat.le_add_right _ _
      · rw [hend]
        exact slotStart_strictMono.monotone (slotStart_strictMono.lt_iff_lt.mp hj)
    rw [← hframe]
    exact (readAt_congr_take h.kept (by omega)).symm
  · have hother : (rd'.salt1, rd'.salt2) ≠ ltx.walSalts := by
      rw [h.salts_eq, saltsAt_of_new h.before]
      exact hown
    refine hends.last_of_rewritten h.after h.written.pageSize_eq hother h.kept (fun i => ?_) h.stale
      hle frame hframe
      hlength hsalts
    rw [committedEnd, ← slotStart_congr (h.pageSize_eq hbefore)]
    rcases Nat.lt_or_ge i (committed (rd.frames maxOffset)).length with hlt | hge
    · exact .inr (slotStart_strictMono.monotone hlt)
    · exact .inl (slotStart_strictMono.monotone hge)

/-- A commit at which the newest L0 file ends stays, with the database there. -/
theorem CommitsBehind.same (hbefore : WrittenPlain rd pageSize d.base) {ltx : LtxFile}
    (hends : EndsIn pageSize d ltx) (hown : saltsAt d.files.wal 16 = ltx.walSalts) :
    (ltx.walEnd = walHeaderSize ∨
      ∃ i, rd'.slotStart i < rd'.committedEnd ∧ (rd'.entryAt i).commit ≠ 0 ∧
        ltx.walEnd = rd'.slotStart (i + 1)) ∧
    Image.AgreeOff (lockPgno pageSize) (fold pageSize d.chain) (rd'.stateAt d.base ltx.walEnd) := by
  have hps := h.pageSize_eq hbefore
  obtain ⟨hat, hfold⟩ := hends.same rd h.before hown
  -- nothing or something of this WAL was synced
  rcases hat with htop | ⟨i, hi, hcommit, hend⟩
  · have hafter : rd'.stateAt d.base walHeaderSize = d.base :=
      @stateAt_walHeaderSize ⟨d.files.db, wal'⟩ rd' d.base h.after
    rw [htop, stateAt_walHeaderSize h.before] at hfold
    rw [htop, hafter]
    exact ⟨.inl rfl, hfold⟩
  · -- the commit that was synced last lies in the part that is kept
    have hin' : rd'.slotStart i < rd'.committedEnd := by
      rw [slotStart_congr hps]
      exact hi.trans h.grown
    have hlast : rd.slotStart (i + 1) ≤ rd.committedEnd :=
      slotStart_strictMono.monotone (slotStart_strictMono.lt_iff_lt.mp hi)
    have hlt : i < rd.chainLength maxOffset :=
      Nat.lt_of_lt_of_le (slotStart_strictMono.lt_iff_lt.mp hi) (committed_frames maxOffset).2
    have hlt' : i < rd'.chainLength maxOffset :=
      Nat.lt_of_lt_of_le (slotStart_strictMono.lt_iff_lt.mp hin') (committed_frames maxOffset).2
    have hkept := take_congr_of_le h.r_kept hlast
    have hentry : rd'.entryAt i = rd.entryAt i := by
      have hentries := congrArg (fun l => l[i]?) (entries_congr hps hkept)
      simpa [entries] using hentries
    refine ⟨.inr ⟨i, hin', by rwa [hentry], by rw [hend, slotStart_congr hps]⟩, ?_⟩
    rw [hend] at hfold ⊢
    rw [stateAt_congr h.before h.after hps hbefore.pgno_le hlt hlt' hkept]
    exact hfold

/-- A commit behind the committed part. -/
theorem Tracked.commit (htracked : Tracked pageSize d) :
    Tracked pageSize { d with files := ⟨d.files.db, wal'⟩, unsynced := true } := by
  have hbefore := htracked.written rd h.before
  refine ⟨?_, ?_, h.length, ?_, ?_, fun hfalse => by cases hfalse⟩
  · intro reader hreader
    rw [h.reader_eq hreader]
    exact h.written
  · intro reader hreader
    rw [h.reader_eq hreader, h.salts_eq]
    exact htracked.salts rd h.before
  · intro reader hreader
    rw [h.reader_eq hreader]
    exact h.lockedOff hbefore (htracked.locked rd h.before)
  · intro ltx hltx
    have hends := htracked.newest ltx hltx
    refine ⟨hends.seen, hends.aligned, h.last hbefore hends, ?_, ?_⟩
    · intro reader hreader hown
      rw [h.reader_eq hreader]
      exact h.same hbefore hends (h.saltsAt_eq.symm.trans hown)
    · intro reader hreader hother
      rw [h.reader_eq hreader]
      obtain ⟨hlow, hfold⟩ := hends.other rd h.before (h.saltsAt_eq ▸ hother)
      exact ⟨hlow.trans h.grown, hfold⟩

end

/-- A checkpoint changes only pages that the WAL carries. -/
theorem Tracked.checkpoint (h : Tracked pageSize d) {db' : Bytes}
    (hcopied : Copied pageSize d.database d.files.db db') :
    Tracked pageSize { d with files := ⟨db', d.files.wal⟩ } := by
  refine ⟨h.written, h.salts, h.length, fun rd hnew => ?_, fun ltx hltx => ?_, h.caught⟩
  · -- a checkpoint writes committed pages only
    have hlocked := h.locked rd hnew
    have hwritten := h.written rd hnew
    have huntil := pageMapUntil_committedEnd hnew hwritten.pgno_le
    have hstate : rd.stateAt d.base rd.committedEnd = rd.stateAt d.base maxOffset :=
      congrArg (rd.overlay d.base) huntil
    have hdatabase : d.database = rd.stateAt d.base maxOffset := LiveDb.database_eq hnew
    rw [hdatabase, ← hwritten.pageSize_eq] at hcopied
    refine ⟨hlocked.wal, fun m p hpos hlock hbase hsize hfind => ?_, fun hempty m => ?_⟩
    · have hpage := hlocked.page m p hpos hlock hbase hsize hfind
      rcases hcopied.page p hpos (hstate ▸ hsize) with hsame | hcommitted
      · exact hsame.trans hpage
      · -- a page that the WAL does not carry is the one it started with
        refine hcommitted.trans ?_
        rw [huntil] at hfind
        show (rd.overlay d.base rd.pageMap.1).page p = _
        unfold overlay
        split
        · rfl
        · simp only [Image.apply, l0Patch, hfind, Option.map_none, Option.getD_none, if_pos hbase]
    · have hbase : rd.stateAt d.base maxOffset = d.base := by
        rw [← hstate, stateAt, hempty, overlay_empty]
      rcases hcopied.size with hsame | hcommitted
      · exact hsame.trans (hlocked.size hempty m)
      · rw [hbase] at hcommitted
        exact hcommitted
  · -- the WAL stays, so what is known of the newest file stays
    have hends := h.newest ltx hltx
    exact ⟨hends.seen, hends.aligned, hends.last, hends.same, hends.other⟩

/-- A commit into a restarted WAL. -/
theorem Tracked.restart (h : Tracked pageSize d) {rd' : WalReader} {wal' : Bytes}
    (hflushed : Flushed pageSize d.database d.files.db)
    (hover : CommitsOver pageSize d.database d.files.wal wal' rd')
    (hfresh : (rd'.salt1, rd'.salt2) ∉ d.seen) :
    Tracked pageSize { d with
      files := ⟨d.files.db, wal'⟩, base := d.database, seen := (rd'.salt1, rd'.salt2) :: d.seen,
      unsynced := true, missed := d.missed || d.unsynced } := by
  have honly : ∀ {reader : WalReader}, new wal' = .ok reader → reader = rd' := by
    intro reader hreader
    rw [hover.after] at hreader
    exact (Except.ok.inj hreader).symm
  have hheader : (rd'.salt1, rd'.salt2) = saltsAt (⟨d.files.db, wal'⟩ : Files).wal 16 :=
    saltsAt_of_new hover.after
  refine ⟨?_, ?_, hover.length, ?_, ?_, fun hfalse => by cases hfalse⟩
  · intro reader hreader
    rw [honly hreader]
    exact hover.written
  · intro reader hreader
    rw [honly hreader]
    exact List.mem_cons_self ..
  · intro reader hreader
    rw [honly hreader]
    exact @Flushed.lockedOff _ ⟨d.files.db, wal'⟩ _ _ _ hflushed hover.written.pageSize_eq
      (r_of_new hover.after)
  · intro ltx hltx
    have hends := h.newest ltx hltx
    -- the salts of the file were seen
    have hother : (rd'.salt1, rd'.salt2) ≠ ltx.walSalts := fun heq => hfresh (heq ▸ hends.seen)
    refine ⟨List.mem_cons_of_mem _ hends.seen, hends.aligned, ?_, ?_, ?_⟩
    · exact hends.last_of_rewritten hover.after hover.written.pageSize_eq hother
        (show wal'.take 0 = _ from rfl)
        (fun i => .inl (Nat.zero_le _)) hover.stale
    · intro reader hreader hown
      exact absurd (hheader.trans hown) hother
    · intro reader hreader _
      rw [honly hreader]
      refine ⟨hover.commits, fun hmissed => h.caught ?_⟩
      exact (Bool.or_eq_false_iff.mp hmissed).2

/-- The WAL is cut. -/
theorem Tracked.truncate (h : Tracked pageSize d) :
    Tracked pageSize { d with
      files := ⟨d.files.db, []⟩, base := d.database, missed := d.missed || d.unsynced } := by
  refine ⟨fun rd hnew => absurd hnew (new_nil rd), fun rd hnew => absurd hnew (new_nil rd),
    Nat.two_pow_pos 63, fun rd hnew => absurd hnew (new_nil rd), fun ltx hltx => ?_, h.caught⟩
  have hends := h.newest ltx hltx
  refine ⟨hends.seen, hends.aligned, ?_, fun rd hnew => absurd hnew (new_nil rd),
    fun rd hnew => absurd hnew (new_nil rd)⟩
  intro _ frame hframe hlength
  rw [← hframe, readAt_length] at hlength
  have hpos : 0 < walFrameHeaderSize := by decide
  rw [List.length_nil, Nat.zero_sub] at hlength
  omega

/-- **Every step of an application keeps track.** -/
theorem Tracked.appStep {d' : LiveDb} {act : AppAct} (h : Tracked pageSize d)
    (hstep : AppStep pageSize d act d') :
    Tracked pageSize d' := by
  cases hstep with
  | commit hbehind => exact h.commit hbehind
  | checkpoint hcopied => exact h.checkpoint hcopied
  | restart hflushed hover hfresh => exact h.restart hflushed hover hfresh
  | truncate => exact h.truncate

/-! ## What a sync finds -/

/-- The WAL is taken for the one behind the newest L0 file: it is cut as expected, or it has other
salts, the last frame of the file is still in its slot and no third salts are in front of it. -/
def TakenForNext (pageSize : Nat) (d : LiveDb) : Prop :=
  ∃ ltx, d.chain.getLast? = some ltx ∧
    (d.files.wal.length < ltx.walEnd ∧ d.state.syncedToWalEnd = true ∨
      saltsAt d.files.wal 16 ≠ ltx.walSalts ∧
        lastPageMatch ltx d.files.wal (ltx.walEnd - (walFrameHeaderSize + pageSize))
          (walFrameHeaderSize + pageSize)
          = .ok true ∧
        detectFullCheckpoint d.files.wal [saltsAt d.files.wal 16, ltx.walSalts] = .ok false)

/-- A reader needs the header. -/
theorem length_of_new {wal : Bytes} {rd : WalReader} (hnew : new wal = .ok rd) :
    walHeaderSize ≤ wal.length := by
  unfold new at hnew
  obtain ⟨_, hlength, -⟩ := bind_eq_ok_iff.mp hnew
  rw [require_eq_ok_iff, readAt_length] at hlength
  omega

/-- A sync that reads the WAL has opened it. -/
theorem new_of_openReader {wal : Bytes} {info : SyncInfo} {r : WalReader × Nat}
    (h : openReader wal info = .ok r) :
    ∃ rd, new wal = .ok rd := by
  cases hnew : new wal with
  | ok rd => exact ⟨rd, rfl⟩
  | error e =>
      exfalso
      have htop : ((ofWal (new wal)).map fun rd => (rd, walHeaderSize)) ≠ .ok r := by
        rw [hnew]
        exact fun heq => by cases heq
      unfold openReader at h
      split at h
      · exact htop h
      · split at h
        · rename_i rd hwith
          unfold withOffset at hwith
          obtain ⟨_, -, hwith⟩ := bind_eq_ok_iff.mp hwith
          rw [hnew] at hwith
          cases hwith
        · exact htop h
        · cases h

section
variable {rd : WalReader} (h : Tracked pageSize d) (hnew : new d.files.wal = .ok rd)
include h hnew

/-- The newest L0 file ends in the WAL that has its salts. -/
theorem Tracked.endsInWal : EndsInWal rd d.base d.chain := by
  intro ltx hltx hown
  rw [r_of_new hnew] at hown
  rw [(h.written rd hnew).pageSize_eq]
  obtain ⟨hat, hfold⟩ := (h.newest ltx hltx).same rd hnew hown
  refine ⟨hat.imp_right ?_, hfold⟩
  rintro ⟨i, hi, hcommit, hend⟩
  have hlt : i < rd.chainLength maxOffset :=
    Nat.lt_of_lt_of_le (slotStart_strictMono.lt_iff_lt.mp hi) (committed_frames maxOffset).2
  exact ⟨i, hlt, hcommit, hend⟩

/-- A WAL that has the salts of the newest L0 file is not shorter than that file says. -/
theorem Tracked.walEnd_le {ltx : LtxFile} (hltx : d.chain.getLast? = some ltx)
    (hown : saltsAt d.files.wal 16 = ltx.walSalts) : ltx.walEnd ≤ d.files.wal.length := by
  obtain ⟨hat, -⟩ := (h.newest ltx hltx).same rd hnew hown
  rcases hat with htop | ⟨i, hi, -, hend⟩
  · rw [htop]
    exact length_of_new hnew
  · rw [hend, ← r_of_new hnew]
    exact (linked_of_committedEnd hi).complete

/-- What is missed is noticed. -/
theorem Tracked.nothingMissed (hnoticed : d.missed = true → ¬ TakenForNext pageSize d) :
    NothingMissed rd d.base d.state d.chain := by
  intro ltx hltx hnext
  have hframe : rd.frameSize = walFrameHeaderSize + pageSize := by
    rw [frameSize, (h.written rd hnew).pageSize_eq]
  rw [r_of_new hnew, hframe] at hnext
  rw [(h.written rd hnew).pageSize_eq]
  have htaken : TakenForNext pageSize d := ⟨ltx, hltx, hnext⟩
  have hmissed : d.missed = false := by
    cases hm : d.missed with
    | false => rfl
    | true => exact absurd htaken (hnoticed hm)
  have hother : saltsAt d.files.wal 16 ≠ ltx.walSalts := by
    rcases hnext with ⟨hshort, -⟩ | ⟨hother, -⟩
    · exact fun hown => absurd hshort (Nat.not_lt.mpr (h.walEnd_le hnew hltx hown))
    · exact hother
  exact ((h.newest ltx hltx).other rd hnew hother).2 hmissed

/-- Where a snapshot is asked for behind the last frame of the newest L0 file, that frame is
gone. -/
theorem Tracked.frameGone : FrameGone rd d.chain := by
  intro ltx hltx hat
  have hends := h.newest ltx hltx
  have hps := (h.written rd hnew).pageSize_eq
  have hframe : rd.frameSize = walFrameHeaderSize + pageSize := by rw [frameSize, hps]
  have hr := r_of_new hnew
  have hpos : 0 < walFrameHeaderSize := by decide
  cases hat with
  | reset hone hother =>
      -- the first slot was written over
      rw [hr] at hother
      obtain ⟨hlow, -⟩ := hends.other rd hnew hother
      rw [← @slotStart_zero rd] at hlow
      have hslot : ltx.walEnd - rd.frameSize = rd.slotStart 0 := by
        rw [hone, slotStart_zero, Nat.add_sub_cancel]
      have hsalts := (linked_of_committedEnd hlow).salts
      rw [saltsAt_of_new hnew] at hsalts
      rw [hslot]
      exact fun heq => hother (hsalts.symm.trans heq)
  | missing hfar hlast =>
      intro heq
      rw [hframe] at hfar hlast heq
      rw [hr] at hlast heq
      have hread : saltsAt (readAt d.files.wal (ltx.walEnd - (walFrameHeaderSize + pageSize))
          (walFrameHeaderSize + pageSize)) 8 = ltx.walSalts := by
        obtain ⟨i, -, hprev⟩ := hends.slot hps hfar.le
        have hboth := saltsAt_frame rd i
        rw [hr, hframe] at hboth
        rw [hprev] at heq ⊢
        rw [hboth, ← heq, slotHdr, hr]
        rfl
      unfold lastPageMatch at hlast
      dsimp only at hlast
      rw [if_neg (by omega)] at hlast
      split at hlast
      · cases hlast
      · rename_i hlength
        rw [if_neg (not_not.mpr hread)] at hlast
        have hfull : (readAt d.files.wal (ltx.walEnd - (walFrameHeaderSize + pageSize))
            (walFrameHeaderSize + pageSize)).length = walFrameHeaderSize + pageSize := by
          rw [readAt_length] at hlength ⊢
          omega
        have hmem := hends.last hfar.le _ rfl hfull hread
        rw [decide_eq_true hmem] at hlast
        cases hlast

end

/-- **A sync catches up**: it leads to the committed database if what was missed is noticed. -/
theorem Tracked.sync {c : Codec} {now : Int64} {outcome : Local.SyncOutcome} {l0 : Option LtxFile}
    (h : Tracked pageSize d) (hnoticed : d.missed = true → ¬ TakenForNext pageSize d)
    (hsync : verifyAndSync c pageSize d.files d.state d.chain now = .ok (outcome, l0)) :
    Image.AgreeOff (lockPgno pageSize) (fold pageSize (d.chain ++ l0.toList)) d.database := by
  obtain ⟨info, -, hsync'⟩ := bind_eq_ok_iff.mp hsync
  obtain ⟨_, _, _, hopen, -⟩ := sync_cases hsync'
  obtain ⟨rd, hnew⟩ := new_of_openReader hopen
  have hwritten := h.written rd hnew
  rw [LiveDb.database_eq hnew]
  exact (@verifyAndSync_spec c pageSize d.files d.state now outcome l0 rd d.base (fun _ => d.files)
    d.chain hnew
    hwritten.pageSize_eq hwritten.grows hwritten.pgno_le (h.endsInWal hnew)
      (h.nothingMissed hnew hnoticed)
    (h.frameGone hnew) rfl hsync fun _ => h.locked rd hnew).2

end

end Local

end Liters
