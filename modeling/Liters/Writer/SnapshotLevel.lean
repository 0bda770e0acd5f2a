import Liters.Ltx.LiteralCodec
import Liters.Writer.LocalSync

/-! # Snapshots at level 9

`snapshot_with` (`compaction.rs`): a sync, then all pages of the database as of the end of that
sync, while the application goes on committing. Every read after the sync finds the files of a
moment of its own. -/

namespace Liters

namespace WalReader

/-- What `read_frame` makes of a frame header and a page. -/
def frameOf (rd : WalReader) (hdr data : Bytes) : Option WalFrame × WalReader :=
  if hdr.length ≠ walFrameHeaderSize then (none, rd)
  else if data.length ≠ rd.pageSize then (none, rd)
  else if rd.salt1 ≠ beField hdr 8 ∨ rd.salt2 ≠ beField hdr 12 then (none, rd)
  else
    let chksum := walChecksum rd.bigEndian (walChecksum rd.bigEndian rd.chksum (hdr.take 8)) data
    if chksum ≠ storedChecksum hdr 16 then (none, { rd with chksum })
    else (some ⟨beField hdr 0, beField hdr 4⟩, { rd with chksum, frameN := rd.frameN + 1 })

/-- The loop of `page_map_until` over a file that is written to: the header and the page of each
frame are read at moments of their own. -/
def scanLive (wal : Nat → Bytes) (endOffset : Nat) : Nat → Nat → WalReader → Scan → Scan × WalReader
  | 0, _, rd, s => (s, rd)
  | fuel + 1, m, rd, s =>
      if endOffset ≤ rd.nextStart then (s, rd)
      else
        match rd.frameOf (readAt (wal m) rd.nextStart walFrameHeaderSize)
            (readAt (wal (m + 1)) (rd.nextStart + walFrameHeaderSize) rd.pageSize) with
        | (none, rd) => (s, rd)
        | (some frame, rd) => scanLive wal endOffset fuel (m + 2) rd (s.frame frame rd.offset)

/-- `page_map_until` over a file that is written to. Every frame takes up some bytes before the
end. -/
def pageMapLive (wal : Nat → Bytes) (rd : WalReader) (endOffset : Nat) : PageMap × WalReader :=
  let (s, rd') := scanLive wal endOffset (endOffset + 1) 0 rd {}
  (s.pageMap rd.frameSize, rd')

/-- Reading a frame is checking the bytes that stand there. -/
theorem readFrame_eq_frameOf (rd : WalReader) :
    rd.readFrame = rd.frameOf (readAt rd.r rd.nextStart walFrameHeaderSize)
      (readAt rd.r (rd.nextStart + walFrameHeaderSize) rd.pageSize) := rfl

/-- What is read does not depend on the file behind the reader. -/
theorem frameOf_withR (rd : WalReader) (r hdr data : Bytes) :
    ({ rd with r } : WalReader).frameOf hdr data
      = ((rd.frameOf hdr data).1, { (rd.frameOf hdr data).2 with r }) := by
  unfold frameOf
  dsimp only
  split
  · rfl
  · split
    · rfl
    · split
      · rfl
      · split <;> rfl

/-- A frame is read into a reader of the same file. -/
theorem frameOf_snd (rd : WalReader) (hdr data : Bytes) :
    (rd.frameOf hdr data).2.r = rd.r ∧ (rd.frameOf hdr data).2.pageSize = rd.pageSize := by
  unfold frameOf
  dsimp only
  split
  · exact ⟨rfl, rfl⟩
  · split
    · exact ⟨rfl, rfl⟩
    · split
      · exact ⟨rfl, rfl⟩
      · split <;> exact ⟨rfl, rfl⟩

/-- **A scan of a file that is written to** finds what stands in it for good: up to the start of a
slot, all that is read is the same at every moment. -/
theorem scanLive_eq_scanLoop {wal : Nat → Bytes} {endOffset k : Nat} (r : Bytes) {rd : WalReader}
    (hend : endOffset = rd.slotStart k) (hwal : ∀ m, (wal m).take endOffset = rd.r.take endOffset)
    (fuel m : Nat) (s : Scan) :
    (scanLive wal endOffset fuel m { rd with r } s).1 = (scanLoop endOffset fuel rd s).1 := by
  induction fuel generalizing m rd s with
  | zero => rfl
  | succ fuel ih =>
      have hnext : ({ rd with r } : WalReader).nextStart = rd.nextStart := rfl
      rw [scanLive, scanLoop, hnext]
      by_cases hdone : endOffset ≤ rd.nextStart
      · rw [if_pos hdone, if_pos hdone]
      · rw [if_neg hdone, if_neg hdone]
        -- the whole frame lies before the end
        have hstart : rd.nextStart = rd.slotStart rd.frameN := rfl
        have hlt : rd.frameN < k := by
          rw [hend, hstart, Nat.not_le] at hdone
          exact slotStart_strictMono.lt_iff_lt.mp hdone
        have hle : rd.nextStart + rd.frameSize ≤ endOffset := by
          rw [hend, hstart, ← slotStart_succ]
          exact slotStart_strictMono.monotone hlt
        have hsize : rd.frameSize = walFrameHeaderSize + rd.pageSize := rfl
        have hhdr : readAt (wal m) rd.nextStart walFrameHeaderSize =
            readAt rd.r rd.nextStart walFrameHeaderSize :=
          readAt_congr_take (hwal m) (by omega)
        have hdata : readAt (wal (m + 1)) (rd.nextStart + walFrameHeaderSize) rd.pageSize
            = readAt rd.r (rd.nextStart + walFrameHeaderSize) rd.pageSize :=
          readAt_congr_take (hwal (m + 1)) (by omega)
        have hps : ({ rd with r } : WalReader).pageSize = rd.pageSize := rfl
        rw [hps, hhdr, hdata, frameOf_withR, readFrame_eq_frameOf]
        obtain ⟨hr, hpage⟩ := frameOf_snd rd (readAt rd.r rd.nextStart walFrameHeaderSize)
          (readAt rd.r (rd.nextStart + walFrameHeaderSize) rd.pageSize)
        generalize rd.frameOf (readAt rd.r rd.nextStart walFrameHeaderSize)
          (readAt rd.r (rd.nextStart + walFrameHeaderSize) rd.pageSize) = read at hr hpage
        obtain ⟨frame, rd'⟩ := read
        dsimp only at hr hpage
        cases frame with
        | none => rfl
        | some frame =>
            have hend' : endOffset = rd'.slotStart k := by
              rw [hend, slotStart, slotStart, frameSize, frameSize, hpage]
            exact ih hend' (fun m => by rw [hr, hwal m]) (m + 2) (s.frame frame rd'.offset)

/-- Two files that begin with the same header are read by the same reader. -/
theorem new_congr {wal wal' : Bytes} {rd rd' : WalReader} (hnew : new wal = .ok rd)
    (hnew' : new wal' = .ok rd') (h : wal'.take walHeaderSize = wal.take walHeaderSize) :
    rd' = { rd with r := wal' } := by
  have hhdr : readAt wal' 0 walHeaderSize = readAt wal 0 walHeaderSize :=
    readAt_congr_take h (by decide)
  unfold new at hnew hnew'
  rw [hhdr] at hnew'
  obtain ⟨-, -, hnew⟩ := bind_eq_ok_iff.mp hnew
  obtain ⟨bigEndian, hbig, hnew⟩ := bind_eq_ok_iff.mp hnew
  obtain ⟨-, -, hnew⟩ := bind_eq_ok_iff.mp hnew
  obtain ⟨-, -, hnew⟩ := bind_eq_ok_iff.mp hnew
  obtain ⟨-, -, hnew'⟩ := bind_eq_ok_iff.mp hnew'
  obtain ⟨bigEndian', hbig', hnew'⟩ := bind_eq_ok_iff.mp hnew'
  obtain ⟨-, -, hnew'⟩ := bind_eq_ok_iff.mp hnew'
  obtain ⟨-, -, hnew'⟩ := bind_eq_ok_iff.mp hnew'
  rw [hbig] at hbig'
  cases hbig'
  cases hnew
  cases hnew'
  rfl

/-- The live page map up to the start of a slot is the one of the file. -/
theorem pageMapLive_eq {wal : Nat → Bytes} {top top' : Bytes} {rd rd' : WalReader} {k : Nat}
    (hnew : new top = .ok rd) (hnew' : new top' = .ok rd')
    (htop : top'.take (rd.slotStart k) = rd.r.take (rd.slotStart k))
    (hwal : ∀ m, (wal m).take (rd.slotStart k) = rd.r.take (rd.slotStart k)) :
    (pageMapLive wal rd' (rd.slotStart k)).1 = (rd.pageMapUntil (rd.slotStart k)).1 := by
  have hle : walHeaderSize ≤ rd.slotStart k := Nat.le_add_right _ _
  have hhdr : top'.take walHeaderSize = top.take walHeaderSize := by
    have := congrArg (List.take walHeaderSize) htop
    rwa [List.take_take, List.take_take, Nat.min_eq_left hle, r_of_new hnew] at this
  have hrd := new_congr hnew hnew' hhdr
  have hsize : rd'.frameSize = rd.frameSize := by rw [hrd]; rfl
  -- both scans have fuel for the whole chain
  have hchain : rd.chainLength (rd.slotStart k) < rd.slotStart k + 1 + 0 := by
    by_contra hlt
    have hlast := (@chain_chainLength rd (rd.slotStart k) (rd.slotStart k) (by omega)).2
    have hself : rd.slotStart k ≤ rd.slotStart (rd.slotStart k) := by
      show _ ≤ walHeaderSize + rd.slotStart k * rd.frameSize
      exact Nat.le_add_left_of_le (Nat.le_mul_of_pos_right _ frameSize_pos)
    exact absurd hlast (Nat.not_lt.mpr hself)
  have hlength : rd.chainLength (rd.slotStart k) < rd.r.length + 1 + 0 :=
    Nat.lt_succ_of_le (Nat.findGreatest_le _)
  have hfuel := scanLoop_atSlot (Nat.zero_le _) hchain {}
  have hfuel' := scanLoop_atSlot (Nat.zero_le _) hlength {}
  rw [atSlot_zero_of_new hnew] at hfuel hfuel'
  have hlive : (pageMapLive wal rd' (rd.slotStart k)).1
      = (scanLive wal (rd.slotStart k) (rd.slotStart k + 1) 0 rd' {}).1.pageMap rd'.frameSize := rfl
  have huntil : (rd.pageMapUntil (rd.slotStart k)).1
      = (scanLoop (rd.slotStart k) (rd.r.length + 1) rd {}).1.pageMap rd.frameSize := rfl
  rw [hlive, huntil, hsize, hrd, scanLive_eq_scanLoop top' rfl hwal, hfuel, ← hfuel']

end WalReader

namespace Local

open WalReader LogEntry

/-- The header of a snapshot. -/
def snapshotHeader (pageSize commit txid : Nat) (now : Int64) (pm : PageMap) (rd : WalReader) :
    Header where
  flags := headerFlagNoChecksum
  pageSize := UInt32.ofNat pageSize
  commit := UInt32.ofNat commit
  minTxid := 1
  maxTxid := UInt64.ofNat txid
  timestamp := now
  walOffset := Int64.ofNat rd.offset
  walSize := Int64.ofNat (pm.maxOffset - rd.offset)
  walSalt1 := if rd.offset = 0 then 0 else UInt32.ofNat rd.salt1
  walSalt2 := if rd.offset = 0 then 0 else UInt32.ofNat rd.salt2

/-- A snapshot carries no checksums. -/
theorem snapshotHeader_noChecksum (pageSize commit txid : Nat) (now : Int64) (pm : PageMap)
    (rd : WalReader) :
    (snapshotHeader pageSize commit txid now pm rd).noChecksum := by
  show (headerFlagNoChecksum &&& headerFlagNoChecksum != 0) = true
  decide

/-- `write_snapshot_pages`, with the files of a moment for each page. -/
def writeSnapshotPages (pageSize : Nat) (live : Nat → Files) (commit : Nat) (pm : PageMap) :
    Except SyncError (List Page) :=
  readPages (fun pgno => sourcePage
      (fun _ => .other ("short wal read for page " ++ toString pgno))
      (fun _ => .other ("short db read for page " ++ toString pgno)) pageSize pm (live pgno) pgno)
    (snapshotPgnos (lockPgno pageSize) commit)

/-- The file that `snapshot_with` makes behind its sync, which ended at `syncedEnd`: the size of the
database file, the header of the WAL, its frames and then the pages are read one after the other. -/
def snapshotFile (c : Codec) (pageSize : Nat) (live : Nat → Files) (syncedEnd txid : Nat)
    (now : Int64) :
    Except SyncError LtxFile := do
  let commitFallback := dbPages (live 0).db pageSize
  let rd ← ofWal (new (live 1).wal)
  let (pm, rd) := pageMapLive (fun m => (live (m + 2)).wal) rd syncedEnd
  let commit := if 0 < pm.commit then pm.commit else commitFallback
  -- two reads for each frame, the one behind the last included
  let pages ← writeSnapshotPages pageSize (fun pgno => live (2 * rd.frameN + 4 + pgno)) commit pm
  encodeLtx c (snapshotHeader pageSize commit txid now pm rd) (snapshotHeader_noChecksum ..) pages

/-- `snapshot_with`, for the L0 files as the lineage check leaves them: the snapshot with its
position, and the L0 files after the sync. The files are `live 0` during the sync and `live (m + 1)`
at the `m`th read behind it; `upload` and `put` are what came of uploading the L0 files and the
snapshot. -/
def snapshotWith (c : Codec) (pageSize : Nat) (live : Nat → Files) (state : SyncState)
    (chain : List LtxFile) (upload put : Except SyncError Unit) (now now' : Int64) :
    Except SyncError (Option (Nat × LtxFile) × List LtxFile) := do
  let (outcome, l0) ← verifyAndSync c pageSize (live 0) state chain now
  let () ← upload
  let txid := outcome.pos.getD (posOf chain)
  if txid = 0 then return (none, chain ++ l0.toList)
  else
    let file ← snapshotFile c pageSize (fun m => live (m + 1)) outcome.newWalSize txid now'
    let () ← put
    return (some (txid, file), chain ++ l0.toList)

/-! ## The snapshot is the state it is labelled with -/

/-- A snapshot of the transactions up to `txid` that is the fold of the L0 files up to there. -/
structure LabelledExactly (pageSize : Nat) (txid : Nat) (file : LtxFile) (chain : List LtxFile) :
    Prop where
  minTxid : file.hdr.minTxid = 1
  maxTxid : file.hdr.maxTxid.toNat = txid
  pos : posOf chain = txid
  commit : file.hdr.commit.toNat = (fold pageSize chain).size
  pgnos : file.pages.map Prod.fst = snapshotPgnos (lockPgno pageSize) file.hdr.commit.toNat
  page : ∀ p, 0 < p → p ≤ file.hdr.commit.toNat → p ≠ lockPgno pageSize →
    file.patch.page? p = some ((fold pageSize chain).page p)

/-- A WAL as SQLite writes it over a database: it has the page size of the database, a commit frame
is within the size it commits, and a database that grows gets every page it grows by but the lock
page. -/
structure WrittenOver (rd : WalReader) (pageSize : Nat) (base : Image Bytes) : Prop where
  pageSize_eq : rd.pageSize = pageSize
  grows : GrowsFrom (lockPgno pageSize) base.size (rd.frames maxOffset)
  pgno_le : ∀ e ∈ rd.frames maxOffset, e.commit ≠ 0 → e.key ≤ e.commit

section
variable {c : Codec} {pageSize : Nat} {live : Nat → Files} {rd : WalReader} {base : Image Bytes}
  {state : SyncState} {chain : List LtxFile}

/-- **The file that is made behind a sync** holds the committed database at the end of the sync. -/
theorem snapshotFile_spec {wal : Bytes} {txid : Nat} {now : Int64} {file : LtxFile}
    (hnew : new wal = .ok rd) (hwritten : WrittenOver rd pageSize base)
    (hlocked : LockedOff rd base rd.committedEnd live)
    (h : snapshotFile c pageSize live rd.committedEnd txid now = .ok file) :
    file.hdr.minTxid = 1 ∧ file.hdr.maxTxid = UInt64.ofNat txid ∧
      file.hdr.commit.toNat = (rd.stateAt base maxOffset).size ∧
      file.pages.map Prod.fst = snapshotPgnos (lockPgno pageSize) file.hdr.commit.toNat ∧
      ∀ p, 0 < p → p ≤ (rd.stateAt base maxOffset).size → p ≠ lockPgno pageSize →
        file.patch.page? p = some ((rd.stateAt base maxOffset).page p) := by
  obtain ⟨rfl, hgrow, hpgno⟩ := hwritten
  unfold snapshotFile at h
  obtain ⟨rd', hnew', h⟩ := bind_eq_ok_iff.mp h
  -- the page map of a moving file is the one the sync went by
  have hpm : (pageMapLive (fun m => (live (m + 2)).wal) rd' rd.committedEnd).1 = rd.pageMap.1 := by
    rw [← pageMapUntil_committedEnd hnew hpgno]
    exact pageMapLive_eq hnew (ofWal_eq_ok hnew') (hlocked.wal 1) fun m => hlocked.wal (m + 2)
  generalize pageMapLive (fun m => (live (m + 2)).wal) rd' rd.committedEnd = scanned at h hpm
  obtain ⟨pm, rd''⟩ := scanned
  dsimp only at hpm
  subst hpm
  obtain ⟨pages, hpages, h⟩ := bind_eq_ok_iff.mp h
  obtain ⟨hhdr, rfl⟩ := encodeLtx_eq_ok h
  obtain ⟨hsize, hlt⟩ := snapshotSize_eq hnew hpgno hlocked 0
  rw [hsize] at hhdr hpages
  have hcommit : file.hdr.commit.toNat = (rd.stateAt base maxOffset).size := by
    rw [hhdr]
    exact UInt32.toNat_ofNat_of_lt' hlt
  refine ⟨by rw [hhdr]; rfl, by rw [hhdr]; rfl, hcommit, ?_, fun p hpos hle hlock => ?_⟩
  · rw [hcommit]
    exact (readPages_eq_ok hpages).1
  · exact patch_of_sourcePages hnew hgrow hpgno hlocked _ _ _ hpages hpos hle hlock

/-- A number of pages that does not fit a header is not encoded. -/
theorem lt_of_snapshotPgnos {hdr : Header} {commit : Nat} {pages : List Page}
    (hok : PagesOk hdr 0 pages)
    (hpgnos : pages.map Prod.fst = snapshotPgnos (lockPgno pageSize) commit) :
    commit < 2 ^ 32 := by
  by_contra hlarge
  have hlock : lockPgno pageSize ≤ pendingByte + 1 := Nat.succ_le_succ (Nat.div_le_self ..)
  have hsmall : pendingByte + 1 < 2 ^ 32 := by decide
  -- the last page number is more than the header can say
  have hmem : commit ∈ pages.map Prod.fst := by
    rw [hpgnos]
    exact List.mem_filter.mpr ⟨List.mem_range'_1.mpr (by omega), decide_eq_true (by omega)⟩
  obtain ⟨p, hp, hpgno⟩ := List.mem_map.mp hmem
  obtain ⟨_, -, hpage⟩ := hok.mem hp
  have hle := hpage.le_commit
  have hlt := UInt32.toNat_lt hdr.commit
  omega

/-- **The file that is made holds every page**, whatever the files were at the moments they were
read. -/
theorem snapshotFile_complete {syncedEnd txid : Nat} {now : Int64} {file : LtxFile}
    (h : snapshotFile c pageSize live syncedEnd txid now = .ok file) :
    file.hdr.minTxid = 1 ∧ file.hdr.maxTxid = UInt64.ofNat txid ∧
    file.hdr.pageSize = UInt32.ofNat pageSize ∧
      file.pages.map Prod.fst = snapshotPgnos (lockPgno pageSize) file.hdr.commit.toNat := by
  unfold snapshotFile at h
  obtain ⟨rd, -, h⟩ := bind_eq_ok_iff.mp h
  generalize pageMapLive (fun m => (live (m + 2)).wal) rd syncedEnd = scanned at h
  obtain ⟨pm, rd'⟩ := scanned
  dsimp only at h
  generalize (if 0 < pm.commit then pm.commit else dbPages (live 0).db pageSize) = commit at h
  obtain ⟨pages, hpages, h⟩ := bind_eq_ok_iff.mp h
  obtain ⟨hhdr, rfl⟩ := encodeLtx_eq_ok h
  have hpgnos := (readPages_eq_ok hpages).1
  have hcommit : file.hdr.commit = UInt32.ofNat commit := by rw [hhdr]; rfl
  have hlt := lt_of_snapshotPgnos file.pagesOk hpgnos
  refine ⟨by rw [hhdr]; rfl, by rw [hhdr]; rfl, by rw [hhdr]; rfl, ?_⟩
  rw [hcommit, UInt32.toNat_ofNat_of_lt' hlt]
  exact hpgnos

/-- The position after a sync is the transaction of the newest L0 file. -/
theorem pos_of_verifyAndSync {files : Files} {now : Int64} {outcome : SyncOutcome}
    {l0 : Option LtxFile} (h : verifyAndSync c pageSize files state chain now = .ok (outcome, l0)) :
    outcome.pos.getD (posOf chain) = posOf (chain ++ l0.toList) ∧
    posOf (chain ++ l0.toList) < 2 ^ 64 := by
  obtain ⟨info, -, hsync⟩ := bind_eq_ok_iff.mp h
  obtain ⟨rd, offset, size, -, -, -, hcases⟩ := sync_cases hsync
  have hlt : ∀ chain : List LtxFile, posOf chain < 2 ^ 64 := by
    intro chain
    rw [posOf]
    cases chain.getLast? with
    | none => exact Nat.two_pow_pos 64
    | some f => exact UInt64.toNat_lt _
  refine ⟨?_, hlt _⟩
  rcases hcases with ⟨-, -, rfl, hpos⟩ | ⟨f, rfl, hpos, hhdr, -⟩
  · rw [hpos, Option.toList_none, List.append_nil]
    rfl
  · have hnewest : posOf (chain ++ [f]) = f.hdr.maxTxid.toNat := by
      rw [posOf, List.getLast?_concat]
      rfl
    rw [hpos, Option.toList_some, hnewest, Option.getD_some]
    -- the transaction of a valid file is not zero, so it did not wrap around
    have hmax : f.hdr.maxTxid = UInt64.ofNat (posOf chain + 1) := by rw [hhdr]; rfl
    have hne := f.plainOk.maxTxid
    rw [hmax] at hne ⊢
    have hle : posOf chain + 1 ≤ 2 ^ 64 := hlt chain
    rcases Nat.lt_or_eq_of_le hle with hlt' | heq
    · exact (UInt64.toNat_ofNat_of_lt' hlt').symm
    · rw [heq] at hne
      exact absurd rfl hne

/-- **A snapshot is the state it is labelled with**, whatever the application commits meanwhile and
whatever the advisory offset is: if the newest L0 file ends in the WAL, nothing was missed where the
WAL is taken for the next one, and the frame in front of the resume point is gone where a snapshot
starts there. -/
theorem snapshotWith_labelledExactly {upload put : Except SyncError Unit} {now now' : Int64}
    {txid : Nat} {file : LtxFile} {chain' : List LtxFile} (hnew : new (live 0).wal = .ok rd)
    (hwritten : WrittenOver rd pageSize base) (hends : EndsInWal rd base chain)
    (hlocked : ∀ outcome l0, verifyAndSync c pageSize (live 0) state chain now = .ok (outcome, l0) →
      Locked rd base outcome.newWalSize live)
    (hmissed : NothingMissed rd base state chain) (hgone : FrameGone rd chain)
    (h : snapshotWith c pageSize live state chain upload put now now' =
      .ok (some (txid, file), chain')) :
    LabelledExactly pageSize txid file chain' := by
  unfold snapshotWith at h
  -- the sync in front of the snapshot, which brings the fold up to the database
  obtain ⟨⟨outcome, l0⟩, hsync, h⟩ := bind_eq_ok_iff.mp h
  obtain ⟨-, -, h⟩ := bind_eq_ok_iff.mp h
  have hlock := hlocked outcome l0 hsync
  obtain ⟨hend, hfold⟩ := verifyAndSync_spec hnew hwritten.pageSize_eq hwritten.grows
    hwritten.pgno_le hends
    hmissed hgone rfl hsync fun hend => (hend ▸ hlock).off
  obtain ⟨hpos, hlt⟩ := pos_of_verifyAndSync hsync
  dsimp only at h
  rw [hpos] at h
  -- no position, no snapshot
  split at h
  · cases h
  · obtain ⟨file', hfile, h⟩ := bind_eq_ok_iff.mp h
    obtain ⟨-, -, h⟩ := bind_eq_ok_iff.mp h
    cases h
    rw [hend] at hfile hlock
    -- the files are still locked while the snapshot is read
    have hlater : Locked rd base rd.committedEnd (fun m => live (m + 1)) :=
      ⟨fun m => hlock.wal (m + 1), fun m => hlock.page (m + 1),
        fun hempty m => hlock.size hempty (m + 1)⟩
    obtain ⟨hmin, hmax, hcommit, hpgnos, hpage⟩ := snapshotFile_spec hnew hwritten hlater.off hfile
    refine ⟨hmin, ?_, rfl, hcommit.trans hfold.1.symm, hpgnos, fun p hp hle hplock => ?_⟩
    · rw [hmax]
      exact UInt64.toNat_ofNat_of_lt' hlt
    · rw [hcommit] at hle
      rw [hpage p hp hle hplock, hfold.2 p hp (by rwa [hfold.1]) hplock]

end

/-! ## Two databases -/

section
variable {c : Codec} {pageSize : Nat} {files : Files} {live : Nat → Files}

/-- A file with the header and the pages of a run is its result. -/
theorem encodeLtx_eq {hdr : Header} {hn : hdr.noChecksum} {pages : List Page} {f : LtxFile}
    (hhdr : f.hdr = hdr) (hpages : f.pages = pages) : encodeLtx c hdr hn pages = .ok f := by
  subst hhdr hpages
  unfold encodeLtx
  split
  · rename_i e herr
    rw [LtxFile.encodeFile_eq] at herr
    cases herr
  · rfl

/-- A sync that writes a file. -/
theorem sync_eq_ok {state : SyncState} {pos : Nat} {info : SyncInfo} {now : Int64} {rd : WalReader}
    {offset size : Nat} {f : LtxFile} (hopen : openReader files.wal info = .ok (rd, offset))
    (hsize : consumedSize rd.pageMap.1 offset = .ok size) (hwork : size ≠ 0)
    (hpages : l0Pages info.snapshotting pageSize files
      (if 0 < rd.pageMap.1.commit then rd.pageMap.1.commit else dbPages files.db pageSize)
        rd.pageMap.1
      = .ok f.pages)
    (hhdr : f.hdr = l0Header pageSize
      (if 0 < rd.pageMap.1.commit then rd.pageMap.1.commit else dbPages files.db pageSize)
      (pos + 1) offset size
      now rd) :
    ∃ outcome, sync c pageSize files state pos info now = .ok (outcome, some f) ∧
      outcome.pos = some (pos + 1) ∧ outcome.newWalSize = offset + size := by
  unfold sync
  rw [hopen, ok_bind]
  dsimp only
  rw [hsize, ok_bind, if_neg (fun h => hwork h.2), hpages, ok_bind, encodeLtx_eq hhdr rfl]
  exact ⟨_, rfl, rfl, rfl⟩

/-- A snapshot that is written. -/
theorem snapshotFile_eq_ok {syncedEnd txid : Nat} {now : Int64} {rd rd' : WalReader} {pm : PageMap}
    {f : LtxFile} (hnew : new (live 1).wal = .ok rd)
    (hscan : pageMapLive (fun m => (live (m + 2)).wal) rd syncedEnd = (pm, rd'))
    (hpages : writeSnapshotPages pageSize (fun pgno => live (2 * rd'.frameN + 4 + pgno))
      (if 0 < pm.commit then pm.commit else dbPages (live 0).db pageSize) pm = .ok f.pages)
    (hhdr : f.hdr = snapshotHeader pageSize
      (if 0 < pm.commit then pm.commit else dbPages (live 0).db pageSize) txid now pm rd') :
    snapshotFile c pageSize live syncedEnd txid now = .ok f := by
  unfold snapshotFile
  rw [hnew, ofWal, ok_bind, hscan]
  dsimp only
  rw [hpages, ok_bind, encodeLtx_eq hhdr rfl]

end

/-- A page of one byte. -/
def filled (b : UInt8) : Bytes := List.replicate 512 b

/-- Pages of different bytes differ. -/
theorem filled_ne {a b : UInt8} (h : a ≠ b) : filled a ≠ filled b := by
  intro heq
  exact h (List.cons.inj heq).1

/-- The database before its first commit. -/
def emptyBase : Image Bytes := ⟨0, fun _ => zeroPage 512⟩

/-- The WAL of a new database: two commits that were synced, and one behind them that was not. -/
def leftWal : Bytes := walBytes true 512 7 9
    [(⟨1, 1⟩, filled 1), (⟨2, 2⟩, filled 2), (⟨2, 2⟩, filled 3)]

/-- A reader at the top of it. -/
def leftReader : WalReader where
  r := leftWal
  bigEndian := true
  pageSize := 512
  salt1 := 7
  salt2 := 9
  chksum := storedChecksum leftWal 24

/-- The WAL after a checkpoint of all of it: restarted, with one commit in the first slot. -/
def nextWal : Bytes := walBytes true 512 8 10 [(⟨1, 2⟩, filled 4)] ++ leftWal.drop 568

/-- A reader at the top of it. -/
def nextReader : WalReader where
  r := nextWal
  bigEndian := true
  pageSize := 512
  salt1 := 8
  salt2 := 10
  chksum := storedChecksum nextWal 24

/-- The files after the checkpoint and the commit. -/
def nextFiles : Files := ⟨filled 1 ++ filled 3, nextWal⟩

/-- The page map of the restarted WAL. -/
def nextMap : PageMap := ⟨SortedMap.empty.insert 1 32, 568, 2⟩

/-- The L0 file of the two commits that were synced. -/
def leftL0 : LtxFile where
  hdr := l0Header 512 2 1 32 1072 0 leftReader
  pages := [(1, filled 1), (2, filled 2)]
  valid := by decide
  pagesOk := by decide +kernel
  noChecksum := by decide
  commit_ne_zero := by decide

/-- The L0 file of the restarted WAL. -/
def nextL0 : LtxFile where
  hdr := l0Header 512 2 2 32 536 0 nextReader
  pages := [(1, filled 4)]
  valid := by decide
  pagesOk := by decide +kernel
  noChecksum := by decide
  commit_ne_zero := by decide

/-- The snapshot behind it. -/
def nextSnapshot : LtxFile where
  hdr := snapshotHeader 512 2 2 0 nextMap (nextReader.atSlot 1)
  pages := [(1, filled 4), (2, filled 3)]
  valid := by decide +kernel
  pagesOk := by decide +kernel
  noChecksum := by decide
  commit_ne_zero := by decide

/-- The page map of the commits that were synced. -/
def leftMap : PageMap := ⟨(SortedMap.empty.insert 1 32).insert 2 568, 1104, 2⟩

/-- The page map of all commits of the left WAL. -/
def leftEndMap : PageMap := ⟨(SortedMap.empty.insert 1 32).insert 2 1104, 1640, 2⟩

/-- What the two WALs hold, by evaluation. -/
structure NextWorld : Prop where
  newLeft : new leftWal = .ok leftReader
  newNext : new nextWal = .ok nextReader
  kept : nextWal.drop 568 = leftWal.drop 568
  leftMap : (leftReader.pageMapUntil leftL0.walEnd).1 = leftMap
  leftEndMap : (leftReader.pageMapUntil maxOffset).1 = leftEndMap
  firstPage : readAt leftWal 56 512 = filled 1
  syncedPage : readAt leftWal 592 512 = filled 2
  lastPage : readAt leftWal 1128 512 = filled 3
  dbPage : readAt nextFiles.db ((2 - 1) * nextReader.pageSize) nextReader.pageSize = filled 3
  nextMap : nextReader.pageMap.1 = nextMap
  nextMapUntil : (nextReader.pageMapUntil 568).1 = Local.nextMap
  live : pageMapLive (fun _ => nextWal) nextReader 568 = (Local.nextMap, nextReader.atSlot 1)
  chain : nextReader.Chain maxOffset 1
  chainEnd : ¬ (nextReader.Linked 1 ∧ nextReader.slotStart 1 < maxOffset)
  entry : nextReader.entryAt 0 = ⟨1, 32, 2⟩
  salts : saltsAt nextReader.r 16 ≠ leftL0.walSalts
  found : lastPageMatch leftL0 nextWal (leftL0.walEnd - nextReader.frameSize) nextReader.frameSize =
    .ok true
  verify : verify (some leftL0) nextWal 512 {}
    = .ok { offset := 32, salt1 := 8, salt2 := 10, snapshotting := false }
  opened : openReader nextWal { offset := 32, salt1 := 8, salt2 := 10, snapshotting := false }
    = .ok (nextReader, 32)
  pages : l0Pages false 512 nextFiles 2 Local.nextMap = .ok nextL0.pages
  snapshot : writeSnapshotPages 512 (fun _ => nextFiles) 2 Local.nextMap = .ok nextSnapshot.pages

/-- The sample WALs are in good order. -/
theorem nextWorld : NextWorld where
  newLeft := by decide +kernel
  newNext := by decide +kernel
  kept := by decide +kernel
  leftMap := by decide +kernel
  leftEndMap := by decide +kernel
  firstPage := by decide +kernel
  syncedPage := by decide +kernel
  lastPage := by decide +kernel
  dbPage := by decide +kernel
  nextMap := by decide +kernel
  nextMapUntil := by decide +kernel
  live := by decide +kernel
  chain := by decide +kernel
  chainEnd := by decide +kernel
  entry := by decide +kernel
  salts := by decide +kernel
  found := by decide +kernel
  verify := by decide +kernel
  opened := by decide +kernel
  pages := by decide +kernel
  snapshot := by decide +kernel

/-- The database that the left WAL leaves behind. -/
def nextBase : Image Bytes := leftReader.stateAt emptyBase maxOffset

/-- The base of the next WAL. -/
theorem nextBase_page : nextBase.size = 2 ∧ nextBase.page 1 = filled 1 ∧
    nextBase.page 2 = filled 3 := by
  have hone : (leftReader.stateAt emptyBase maxOffset).page 1 = readAt leftWal 56 512 :=
    stateAt_page nextWorld.leftEndMap (show leftEndMap.pages.find? 1 = some 32 from rfl)
  have htwo : (leftReader.stateAt emptyBase maxOffset).page 2 = readAt leftWal 1128 512 :=
    stateAt_page nextWorld.leftEndMap (show leftEndMap.pages.find? 2 = some 1104 from rfl)
  rw [nextBase, hone, htwo, nextWorld.firstPage, nextWorld.lastPage]
  exact ⟨stateAt_size nextWorld.leftEndMap (by decide), rfl, rfl⟩

/-- What the file left behind holds. -/
theorem fold_leftL0 : (fold 512 [leftL0]).size = 2 ∧ (fold 512 [leftL0]).page 1 = filled 1 ∧
    (fold 512 [leftL0]).page 2 = filled 2 := ⟨rfl, rfl, rfl⟩

/-- What the next one makes of it. -/
theorem fold_nextL0 : (fold 512 [leftL0, nextL0]).page 2 = filled 2 := rfl

/-- A page of a database of two pages is one of these. -/
theorem eq_one_or_two {p : Nat} (hpos : 0 < p) (hle : p ≤ 2) : p = 1 ∨ p = 2 := by omega

/-- The fold is the committed database at the end that the newest L0 file records. -/
theorem fold_leftL0_agrees :
    Image.AgreeOff (lockPgno 512) (fold 512 [leftL0])
      (leftReader.stateAt emptyBase leftL0.walEnd) := by
  obtain ⟨hsize, hone, htwo⟩ := fold_leftL0
  refine ⟨hsize.trans (stateAt_size nextWorld.leftMap (by decide)).symm, fun p hpos hle _ => ?_⟩
  rw [hsize] at hle
  rcases eq_one_or_two hpos hle with rfl | rfl
  · have hpage : (leftReader.stateAt emptyBase leftL0.walEnd).page 1 = readAt leftWal 56 512 :=
      stateAt_page nextWorld.leftMap (show leftMap.pages.find? 1 = some 32 from rfl)
    rw [hone, hpage, nextWorld.firstPage]
  · have hpage : (leftReader.stateAt emptyBase leftL0.walEnd).page 2 = readAt leftWal 592 512 :=
      stateAt_page nextWorld.leftMap (show leftMap.pages.find? 2 = some 568 from rfl)
    rw [htwo, hpage, nextWorld.syncedPage]

/-- The next WAL has one frame. -/
theorem chainLength_nextReader : nextReader.chainLength maxOffset = 1 :=
  chainLength_eq nextWorld.chain nextWorld.chainEnd

/-- That frame. -/
theorem frames_nextReader : nextReader.frames maxOffset = [⟨1, 32, 2⟩] := by
  rw [frames, chainLength_nextReader, ← nextWorld.entry]
  rfl

/-- It is written over its base. -/
theorem writtenOver_nextReader : WrittenOver nextReader 512 nextBase where
  pageSize_eq := rfl
  grows := by
    rw [frames_nextReader]
    refine ⟨?_, grows_of_key ?_⟩
    · intro front y rest hlog _ _ k hlow hhigh _
      have hy : y ∈ [(⟨1, 32, 2⟩ : LogEntry)] := by
        rw [hlog]
        simp
      rw [List.mem_singleton.mp hy] at hhigh
      rw [nextBase_page.1] at hlow
      exact absurd hhigh (Nat.not_le.mpr hlow)
    · simp only [List.forall_mem_singleton]
      omega
  pgno_le := by
    rw [frames_nextReader]
    decide

/-- The lock keeps the files as they are. -/
theorem locked_nextFiles : Locked nextReader nextBase 568 fun _ => nextFiles where
  wal _ := rfl
  page m p hpos hle _ hfind := by
    obtain ⟨hsize, -, htwo⟩ := nextBase_page
    rw [hsize] at hle
    rw [nextWorld.nextMapUntil] at hfind
    rcases eq_one_or_two hpos hle with rfl | rfl
    · cases hfind
    · rw [htwo]
      exact nextWorld.dbPage
  size hempty := by
    rw [nextWorld.nextMapUntil] at hempty
    cases hempty

/-- The snapshot of the next database. -/
theorem snapshotWith_nextFiles :
    snapshotWith literalCodec 512 (fun _ => nextFiles) {} [leftL0] (.ok ()) (.ok ()) 0 0
      = .ok (some (2, nextSnapshot), [leftL0, nextL0]) := by
  have hpos : posOf [leftL0] = 1 := by decide
  obtain ⟨outcome, hsync, hoc, hend⟩ :=
    @sync_eq_ok literalCodec 512 nextFiles {} 1 _ 0 nextReader 32 536 nextL0
    nextWorld.opened (by rw [nextWorld.nextMap]; decide) (by decide)
      (by rw [nextWorld.nextMap]; exact nextWorld.pages)
    (by rw [nextWorld.nextMap]; rfl)
  have hverify : verifyAndSync literalCodec 512 nextFiles {} [leftL0] 0 =
      .ok (outcome, some nextL0) := by
    show verify (some leftL0) nextWal 512 {} >>= _ = _
    rw [nextWorld.verify, ok_bind, hpos]
    exact hsync
  have hfile : snapshotFile literalCodec 512 (fun _ => nextFiles) 568 2 0 = .ok nextSnapshot :=
    snapshotFile_eq_ok nextWorld.newNext nextWorld.live nextWorld.snapshot rfl
  unfold snapshotWith
  rw [hverify, ok_bind]
  dsimp only
  rw [ok_bind, hoc, hend, Option.getD_some, if_neg (by decide)]
  rw [hfile]
  rfl

/-- The WAL of two transactions after a third one. -/
def grownWal : Bytes :=
  walBytes true 512 7 9 [(⟨1, 1⟩, filled 0), (⟨2, 2⟩, filled 1), (⟨1, 2⟩, filled 3)]

/-- The files of a database that is written to: after the sync its first page is checkpointed and a
third transaction is committed. -/
def growingFiles : Nat → Files
  | 0 => ⟨[], sampleWal⟩
  | _ + 1 => ⟨filled 0, grownWal⟩

/-- The L0 file of the first transaction. -/
def firstL0 : LtxFile where
  hdr := l0Header 512 1 1 32 536 0 sampleReader
  pages := [(1, filled 0)]
  valid := by decide
  pagesOk := by decide +kernel
  noChecksum := by decide
  commit_ne_zero := by decide

/-- The L0 file of the second one. -/
def secondL0 : LtxFile where
  hdr := l0Header 512 2 2 568 536 0 (sampleReader.atSlot 1)
  pages := [(2, filled 1)]
  valid := by decide
  pagesOk := by decide +kernel
  noChecksum := by decide
  commit_ne_zero := by decide

/-- The page map of both. -/
def bothMap : PageMap := ⟨(SortedMap.empty.insert 1 32).insert 2 568, 1104, 2⟩

/-- The snapshot of both. -/
def bothSnapshot : LtxFile where
  hdr := snapshotHeader 512 2 2 0 bothMap ({ sampleReader with r := grownWal }.atSlot 2)
  pages := [(1, filled 0), (2, filled 1)]
  valid := by decide +kernel
  pagesOk := by decide +kernel
  noChecksum := by decide
  commit_ne_zero := by decide

/-- The sample WAL is written over an empty base. -/
theorem writtenOver_sampleReader : WrittenOver sampleReader 512 emptyBase where
  pageSize_eq := rfl
  grows := by
    rw [frames_sampleReader]
    refine ⟨?_, grows_of_key ?_⟩
    · intro front y rest hlog hfront hy k hlow hhigh _
      -- the first frame commits the first page
      cases front with
      | nil =>
          cases hlog
          have hk : k = 1 := by
            change 0 < k at hlow
            change k ≤ 1 at hhigh
            omega
          rw [hk]
          decide
      | cons e front =>
          rw [List.cons_append, List.cons.injEq] at hlog
          have := hfront e (List.mem_cons_self ..)
          rw [← hlog.1] at this
          cases this
    · simp only [List.forall_mem_cons, List.not_mem_nil]
      grind
  pgno_le := pgno_le_sampleReader

/-- The page map of the first transaction. -/
def firstMap : PageMap := ⟨SortedMap.empty.insert 1 32, 568, 1⟩

/-- The page map of the second one. -/
def secondMap : PageMap := ⟨SortedMap.empty.insert 2 568, 1104, 2⟩

/-- What the files hold, by evaluation. -/
structure GrowingWorld : Prop where
  firstMap : (sampleReader.pageMapUntil 568).1 = firstMap
  firstPage : readAt sampleWal 56 512 = filled 0
  commits : (sampleReader.entryAt 0).commit ≠ 0
  salts : saltsAt sampleReader.r 16 = firstL0.walSalts
  long : firstL0.walEnd ≤ sampleReader.r.length
  verify : verify (some firstL0) sampleWal 512 {}
    = .ok { offset := 568, salt1 := 7, salt2 := 9, snapshotting := false }
  opened : openReader sampleWal { offset := 568, salt1 := 7, salt2 := 9, snapshotting := false }
    = .ok (sampleReader.atSlot 1, 568)
  secondMap : (sampleReader.atSlot 1).pageMap.1 = secondMap
  pages : l0Pages false 512 (growingFiles 0) 2 Local.secondMap = .ok secondL0.pages
  newGrown : new grownWal = .ok { sampleReader with r := grownWal }
  live : pageMapLive (fun _ => grownWal) { sampleReader with r := grownWal } 1104
    = (bothMap, { sampleReader with r := grownWal }.atSlot 2)
  snapshot : writeSnapshotPages 512 (fun pgno => growingFiles (2 * 2 + 4 + pgno + 1)) 2 bothMap
    = .ok bothSnapshot.pages
  kept : grownWal.take 1104 = sampleWal.take 1104
  bothMap : (sampleReader.pageMapUntil 1104).1 = bothMap

/-- The growing sample is in good order. -/
theorem growingWorld : GrowingWorld where
  firstMap := by decide +kernel
  firstPage := by decide +kernel
  commits := by decide +kernel
  salts := by decide +kernel
  long := by decide +kernel
  verify := by decide +kernel
  opened := by decide +kernel
  secondMap := by decide +kernel
  pages := by decide +kernel
  newGrown := by decide +kernel
  live := by decide +kernel
  snapshot := by decide +kernel
  kept := by decide +kernel
  bothMap := by decide +kernel

/-- The first local file ends in the WAL. -/
theorem endsInWal_firstL0 : EndsInWal sampleReader emptyBase [firstL0] := by
  intro ltx hltx _
  obtain rfl : firstL0 = ltx := Option.some.inj hltx
  refine ⟨.inr ⟨0, by rw [chainLength_sampleReader]; decide, growingWorld.commits, by decide⟩, ?_⟩
  have hend : firstL0.walEnd = 568 := by decide
  rw [hend]
  refine ⟨(stateAt_size growingWorld.firstMap (by decide)).symm, fun p hpos hle _ => ?_⟩
  have hone : p = 1 := by
    change p ≤ 1 at hle
    omega
  have hpage : (sampleReader.stateAt emptyBase 568).page 1 = readAt sampleWal 56 512 :=
    stateAt_page growingWorld.firstMap (show firstMap.pages.find? 1 = some 32 from rfl)
  rw [hone, hpage, growingWorld.firstPage]
  rfl

/-- The second one follows it. -/
theorem verifyAndSync_firstL0 :
    ∃ outcome, verifyAndSync literalCodec 512 (growingFiles 0) {} [firstL0] 0 =
      .ok (outcome, some secondL0) ∧
      outcome.pos = some 2 ∧ outcome.newWalSize = 1104 := by
  have hpm := growingWorld.secondMap
  have hpos : posOf [firstL0] = 1 := by decide
  obtain ⟨outcome, hsync, hoc, hend⟩ := @sync_eq_ok literalCodec 512 (growingFiles 0) {} 1 _ 0
    (sampleReader.atSlot 1) 568 536 secondL0 growingWorld.opened (by rw [hpm]; decide) (by decide)
    (by rw [hpm]; exact growingWorld.pages) (by rw [hpm]; rfl)
  refine ⟨outcome, ?_, hoc, hend⟩
  show verify (some firstL0) sampleWal 512 {} >>= _ = _
  rw [growingWorld.verify, ok_bind, hpos]
  exact hsync

/-- The snapshot of the growing database. -/
theorem snapshotWith_growingFiles :
    snapshotWith literalCodec 512 growingFiles {} [firstL0] (.ok ()) (.ok ()) 0 0
      = .ok (some (2, bothSnapshot), [firstL0, secondL0]) := by
  obtain ⟨outcome, hverify, hoc, hend⟩ := verifyAndSync_firstL0
  have hfile : snapshotFile literalCodec 512 (fun m => growingFiles (m + 1)) 1104 2 0 =
      .ok bothSnapshot :=
    @snapshotFile_eq_ok literalCodec 512 (fun m => growingFiles (m + 1)) 1104 2 0 _ _ _ bothSnapshot
      growingWorld.newGrown growingWorld.live growingWorld.snapshot rfl
  unfold snapshotWith
  rw [hverify, ok_bind]
  dsimp only
  rw [ok_bind, hoc, hend, Option.getD_some, if_neg (by decide), hfile]
  rfl

/-- The lock keeps what is committed. -/
theorem locked_growingFiles : Locked sampleReader emptyBase 1104 growingFiles where
  wal m := by
    cases m with
    | zero => rfl
    | succ m => exact growingWorld.kept
  page m p hpos hle := absurd hle (Nat.not_le.mpr hpos)
  size hempty := by
    rw [growingWorld.bothMap] at hempty
    cases hempty

/-- Its snapshot is labelled exactly. -/
theorem snapshotWith_labelledExactly_growing :
    snapshotWith literalCodec 512 growingFiles {} [firstL0] (.ok ()) (.ok ()) 0 0
        = .ok (some (2, bothSnapshot), [firstL0, secondL0]) ∧
      LabelledExactly 512 2 bothSnapshot [firstL0, secondL0] := by
  have hsalts := growingWorld.salts
  have hlong := growingWorld.long
  have hnew : new (growingFiles 0).wal = .ok sampleReader := new_sampleWal
  refine ⟨snapshotWith_growingFiles, ?_⟩
  refine snapshotWith_labelledExactly hnew writtenOver_sampleReader endsInWal_firstL0 ?_ ?_ ?_
    snapshotWith_growingFiles
  · intro outcome l0 hsync
    obtain ⟨outcome', hverify, -, hend⟩ := verifyAndSync_firstL0
    rw [hverify] at hsync
    cases hsync
    rw [hend]
    exact locked_growingFiles
  · intro ltx hltx hnext
    cases hltx
    rcases hnext with ⟨hshort, -⟩ | ⟨hne, -⟩
    · exact absurd hshort (Nat.not_lt.mpr hlong)
    · exact absurd hsalts hne
  · intro ltx hltx hat
    cases hltx
    cases hat with
    | reset hone hne => exact absurd hsalts hne
    | missing hfar hlast => exact absurd hfar (by decide)

/-- Where the WAL was restarted behind a commit that was not synced, and the restarted WAL left the
last synced frame in place, it is taken for the next one: the L0 files lack that commit and the
snapshot has it. -/
theorem restarted_snapshot_mislabelled :
    new leftWal = .ok leftReader ∧ new nextWal = .ok nextReader ∧
    nextWal.drop 568 = leftWal.drop 568 ∧
      Image.AgreeOff (lockPgno 512) (fold 512 [leftL0])
        (leftReader.stateAt emptyBase leftL0.walEnd) ∧
      nextBase = leftReader.stateAt emptyBase maxOffset ∧ WrittenOver nextReader 512 nextBase ∧
      EndsInWal nextReader nextBase [leftL0] ∧ Locked nextReader nextBase 568 (fun _ => nextFiles) ∧
      FrameGone nextReader [leftL0] ∧
      snapshotWith literalCodec 512 (fun _ => nextFiles) {} [leftL0] (.ok ()) (.ok ()) 0 0
        = .ok (some (2, nextSnapshot), [leftL0, nextL0]) ∧
      ¬ LabelledExactly 512 2 nextSnapshot [leftL0, nextL0] := by
  refine ⟨nextWorld.newLeft, nextWorld.newNext, nextWorld.kept, fold_leftL0_agrees, rfl,
    writtenOver_nextReader, ?_, locked_nextFiles, ?_, snapshotWith_nextFiles, fun hexact => ?_⟩
  · intro ltx hltx heq
    cases hltx
    exact absurd heq nextWorld.salts
  · intro ltx hltx hat
    cases hltx
    cases hat with
    -- the new WAL is longer than one frame, and the last page is still found in it
    | reset hone => exact absurd hone (by decide)
    | missing hfar hlast =>
        have hboth := nextWorld.found.symm.trans hlast
        cases hboth
  · -- page 2 is the newest one in the snapshot, and an old one in the fold
    have hpage := hexact.page 2 (by decide) (by decide) (by decide)
    rw [fold_nextL0] at hpage
    have hholds : nextSnapshot.patch.page? 2 = some (filled 3) := rfl
    rw [hholds] at hpage
    exact filled_ne (by decide) (Option.some.inj hpage)

end Local

end Liters
