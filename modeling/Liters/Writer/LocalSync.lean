import Liters.Ltx.Compaction
import Liters.Ltx.Snapshot
import Liters.Wal.State
import Liters.Writer.Verify

/-! # From the WAL to an L0 file

`Writer::sync` (`writer.rs`): the committed frames behind the resume point become the next L0 file,
or all pages of the database if a snapshot was asked for. A sync that finds nothing new writes
nothing and reports where the newest L0 file ends. -/

namespace Liters

namespace Local

open WalReader LogEntry

/-- The files of a database. -/
structure Files where
  db : Bytes
  wal : Bytes

/-- What a sync comes to. -/
structure SyncOutcome where
  synced : Bool := false
  pos : Option Nat := none
  newWalSize : Nat
  syncedToWalEnd : Bool
  snapshotted : Bool
  snapshotReason : Option String

/-- A positioned read of a whole buffer. -/
def readOr (b : Bytes) (n offset : Nat) (short : SyncError) : Except SyncError Bytes :=
  if (readAt b offset n).length < n then .error short else .ok (readAt b offset n)

/-- The source of a page of a snapshot: the WAL if it has the page, else the database file. -/
def sourcePage (walShort dbShort : Nat → SyncError) (pageSize : Nat) (pm : PageMap) (files : Files)
    (pgno : Nat) :
    Except SyncError Bytes :=
  match pm.pages.find? pgno with
  | some offset =>
      readOr files.wal pageSize (offset + walFrameHeaderSize)
        (walShort (offset + walFrameHeaderSize))
  | none => readOr files.db pageSize ((pgno - 1) * pageSize) (dbShort ((pgno - 1) * pageSize))

/-- The error of `read_full_at`. -/
def shortRead (offset : Nat) : SyncError := .io ("short read at offset " ++ toString offset)

/-- Read some pages, in order. -/
def readPages (read : Nat → Except SyncError Bytes) : List Nat → Except SyncError (List Page)
  | [] => .ok []
  | pgno :: pgnos => do
      let data ← read pgno
      let pages ← readPages read pgnos
      return (pgno, data) :: pages

/-- `write_ltx_from_db`: all pages of the database. -/
def writeLtxFromDb (pageSize : Nat) (files : Files) (commit : Nat) (pm : PageMap) :
    Except SyncError (List Page) :=
  readPages (sourcePage shortRead shortRead pageSize pm files)
    (snapshotPgnos (lockPgno pageSize) commit)

/-- `write_ltx_from_wal`: the pages of the page map. -/
def writeLtxFromWal (pageSize : Nat) (files : Files) (pm : PageMap) :
    Except SyncError (List Page) :=
  readPages (sourcePage shortRead shortRead pageSize pm files) pm.pages.keys

/-- Encode a file without checksum tracking. -/
def encodeLtx (c : Codec) (hdr : Header) (hn : hdr.noChecksum) (pages : List Page) :
    Except SyncError LtxFile :=
  match h : encodeFile c hdr pages none with
  | .error e => .error (.ltx e)
  | .ok _ =>
      have hok := encodeFile_eq_ok_iff.mp h
      .ok ⟨hdr, pages, hok.1, hok.2.1, hn, hok.2.2.1.commit_ne_zero hn⟩

/-- Where a sync reads from: behind the resume point, or from the top if the frame before it is
gone. -/
def openReader (wal : Bytes) (info : SyncInfo) : Except SyncError (WalReader × Nat) :=
  if info.offset = walHeaderSize then (ofWal (new wal)).map fun rd => (rd, walHeaderSize)
  else
    match withOffset wal info.offset info.salt1 info.salt2 with
    | .ok rd => .ok (rd, info.offset)
    | .error .prevFrameMismatch => (ofWal (new wal)).map fun rd => (rd, walHeaderSize)
    | .error e => .error (.wal e)

/-- The size of the database file in pages, in 32 bits. -/
def dbPages (db : Bytes) (pageSize : Nat) : Nat := db.length / pageSize % 2 ^ 32

/-- The header of an L0 file. -/
def l0Header (pageSize commit txid offset size : Nat) (now : Int64) (rd : WalReader) : Header where
  flags := headerFlagNoChecksum
  pageSize := UInt32.ofNat pageSize
  commit := UInt32.ofNat commit
  minTxid := UInt64.ofNat txid
  maxTxid := UInt64.ofNat txid
  timestamp := now
  walOffset := Int64.ofNat offset
  walSize := Int64.ofNat size
  walSalt1 := UInt32.ofNat rd.salt1
  walSalt2 := UInt32.ofNat rd.salt2

/-- A local file carries no checksums. -/
theorem l0Header_noChecksum (pageSize commit txid offset size : Nat) (now : Int64)
    (rd : WalReader) :
    (l0Header pageSize commit txid offset size now rd).noChecksum := by
  show (headerFlagNoChecksum &&& headerFlagNoChecksum != 0) = true
  decide

/-- The size of the consumed part of the WAL. -/
def consumedSize (pm : PageMap) (offset : Nat) : Except SyncError Nat :=
  if 0 < pm.maxOffset then
    if offset ≤ pm.maxOffset then .ok (pm.maxOffset - offset)
    else .error (.other ("wal size must be positive: maxOffset=" ++ toString pm.maxOffset ++
      ", offset="
      ++ toString offset))
  else .ok 0

/-- The pages of an L0 file: all of them, or those of the page map. -/
def l0Pages (snapshotting : Bool) (pageSize : Nat) (files : Files) (commit : Nat) (pm : PageMap) :
    Except SyncError (List Page) :=
  if snapshotting then writeLtxFromDb pageSize files commit pm
  else writeLtxFromWal pageSize files pm

/-- `sync`, behind the position `pos`. -/
def sync (c : Codec) (pageSize : Nat) (files : Files) (state : SyncState) (pos : Nat)
    (info : SyncInfo) (now : Int64) : Except SyncError (SyncOutcome × Option LtxFile) := do
  let (rd, offset) ← openReader files.wal info
  let pm := rd.pageMap.1
  let commit := if 0 < pm.commit then pm.commit else dbPages files.db pageSize
  let size ← consumedSize pm offset
  if ¬ info.snapshotting ∧ size = 0 then
    -- the end that `verify` found, and not the advisory one
    return ({ newWalSize := offset,
              syncedToWalEnd := state.syncedToWalEnd && !info.clearSyncedToWalEnd,
              snapshotted := info.snapshotting, snapshotReason := info.reason }, none)
  else
    let pages ← l0Pages info.snapshotting pageSize files commit pm
    let l0 ← encodeLtx c (l0Header pageSize commit (pos + 1) offset size now rd)
      (l0Header_noChecksum ..) pages
    return ({ synced := true, pos := some (pos + 1), newWalSize := offset + size,
              syncedToWalEnd := offset + size = files.wal.length,
              snapshotted := info.snapshotting, snapshotReason := info.reason }, some l0)

/-- The position: the transaction of the newest L0 file. -/
def posOf (chain : List LtxFile) : Nat := (chain.getLast?.map fun f => f.hdr.maxTxid.toNat).getD 0

/-- `verify_and_sync`, for the L0 files so far. -/
def verifyAndSync (c : Codec) (pageSize : Nat) (files : Files) (state : SyncState)
    (chain : List LtxFile) (now : Int64) : Except SyncError (SyncOutcome × Option LtxFile) := do
  let info ← verify chain.getLast? files.wal pageSize state
  sync c pageSize files state (posOf chain) info now

/-! ## What the steps of a sync do -/

/-- What is read are the pages asked for. -/
theorem readPages_eq_ok {read : Nat → Except SyncError Bytes} {pgnos : List Nat} {pages : List Page}
    (h : readPages read pgnos = .ok pages) :
    pages.map Prod.fst = pgnos ∧ ∀ p ∈ pages, read p.1 = .ok p.2 := by
  induction pgnos generalizing pages with
  | nil =>
      cases h
      exact ⟨rfl, by simp⟩
  | cons pgno pgnos ih =>
      obtain ⟨data, hdata, h⟩ := bind_eq_ok_iff.mp h
      obtain ⟨rest, hrest, h⟩ := bind_eq_ok_iff.mp h
      cases h
      obtain ⟨hfst, hread⟩ := ih hrest
      exact ⟨congrArg (pgno :: ·) hfst, List.forall_mem_cons.mpr ⟨hdata, hread⟩⟩

/-- What is encoded has its header and its pages. -/
theorem encodeLtx_eq_ok {c : Codec} {hdr : Header} {hn : hdr.noChecksum} {pages : List Page}
    {f : LtxFile} (h : encodeLtx c hdr hn pages = .ok f) : f.hdr = hdr ∧ f.pages = pages := by
  unfold encodeLtx at h
  split at h
  · cases h
  · cases h
    exact ⟨rfl, rfl⟩

/-- What is read is what stands there. -/
theorem readOr_eq_ok {b data : Bytes} {n offset : Nat} {short : SyncError}
    (h : readOr b n offset short = .ok data) :
    data = readAt b offset n := by
  unfold readOr at h
  split at h
  · cases h
  · exact (Except.ok.inj h).symm

/-- What succeeds with renamed errors succeeded before. -/
theorem ofWal_eq_ok {α : Type} {x : Except WalError α} {a : α} (h : ofWal x = .ok a) :
    x = .ok a := by
  cases x with
  | error e => cases h
  | ok a' =>
      cases h
      rfl

/-- Resuming succeeds only behind a frame that is there and has the salts. -/
theorem withOffset_eq_ok {wal : Bytes} {rd rd' : WalReader} {offset salt1 salt2 : Nat}
    (hnew : new wal = .ok rd) (h : withOffset wal offset salt1 salt2 = .ok rd') :
    offset ≤ wal.length ∧
      saltsAt (readAt wal (offset - rd.frameSize) walFrameHeaderSize) 8 = (salt1, salt2) := by
  have hr : rd.r = wal := r_of_new hnew
  unfold withOffset at h
  obtain ⟨_, hlow, h⟩ := bind_eq_ok_iff.mp h
  rw [hnew, ok_bind] at h
  obtain ⟨_, haligned, h⟩ := bind_eq_ok_iff.mp h
  rw [require_eq_ok_iff] at hlow haligned
  -- the frame in front of the offset
  obtain ⟨k, hk⟩ := Nat.dvd_of_mod_eq_zero haligned
  have hpos : 0 < rd.frameSize := frameSize_pos
  have hkpos : k ≠ 0 := by
    rintro rfl
    omega
  obtain ⟨i, rfl⟩ := Nat.exists_eq_succ_of_ne_zero hkpos
  have hslot : (offset - walHeaderSize) / rd.frameSize - 1 = i := by
    rw [hk, Nat.mul_div_cancel_left _ hpos, Nat.succ_sub_one]
  have hstart : offset = rd.slotStart (i + 1) := by
    rw [slotStart, Nat.mul_comm, ← Nat.succ_eq_add_one, ← hk]
    omega
  rw [hslot] at h
  have hread : ∃ frame rd'',
      ({ rd with salt1, salt2, frameN := i } : WalReader).readFrameInner false
      = (some frame, rd'') := by
    dsimp only at h
    split at h
    · exact ⟨_, _, by assumption⟩
    · cases h
  obtain ⟨frame, rd'', hread⟩ := hread
  have hhdr : readAt rd.r ({ rd with salt1, salt2, frameN := i } : WalReader).nextStart
      walFrameHeaderSize
      = rd.slotHdr i := rfl
  have hdata : readAt rd.r
      (({ rd with salt1, salt2, frameN := i } : WalReader).nextStart + walFrameHeaderSize)
      rd.pageSize = rd.slotData i := rfl
  unfold readFrameInner at hread
  dsimp only at hread
  rw [hhdr, hdata] at hread
  split at hread
  · cases hread
  rename_i hlen
  split at hread
  · cases hread
  rename_i hlen'
  split at hread
  · cases hread
  rename_i hsalts
  rw [not_or, not_not, not_not] at hsalts
  have hcomplete := (complete_iff i).mpr ⟨not_not.mp hlen, not_not.mp hlen'⟩
  rw [hr] at hcomplete
  refine ⟨hstart ▸ hcomplete, ?_⟩
  have hprev : offset - rd.frameSize = rd.slotStart i := by
    rw [hstart, slotStart_succ, Nat.add_sub_cancel]
  have hslotHdr : readAt wal (offset - rd.frameSize) walFrameHeaderSize = rd.slotHdr i := by
    rw [hprev, ← hr]
    rfl
  rw [hslotHdr, saltsAt, hsalts.1, hsalts.2]

/-- A sync reads from the resume point or from the top. -/
theorem openReader_eq_ok {wal : Bytes} {rd rd' : WalReader} {info : SyncInfo} {offset : Nat}
    (hnew : new wal = .ok rd) (h : openReader wal info = .ok (rd', offset)) :
    (rd' = rd ∧ offset = walHeaderSize) ∨
      (offset = info.offset ∧ info.offset ≠ walHeaderSize ∧
        withOffset wal info.offset info.salt1 info.salt2 = .ok rd') := by
  have htop : ∀ {r : WalReader × Nat},
      ((ofWal (new wal)).map fun rd => (rd, walHeaderSize)) = .ok r →
      r = (rd, walHeaderSize) := by
    intro r hr
    rw [hnew] at hr
    exact (Except.ok.inj hr).symm
  unfold openReader at h
  split at h
  · have := htop h
    exact .inl ⟨congrArg Prod.fst this, congrArg Prod.snd this⟩
  · rename_i hne
    split at h
    · rename_i rd'' hwith
      cases h
      exact .inr ⟨rfl, hne, hwith⟩
    · have := htop h
      exact .inl ⟨congrArg Prod.fst this, congrArg Prod.snd this⟩
    · cases h

/-! ## The database behind the files -/

/-- What the files at every moment have in common while frames from `endOffset` on stay in the WAL:
the WAL up to there, and the pages of the database file that no frame before it carries. `base` is
the database at the start of the WAL; without a commit the file has its size. -/
structure Locked (rd : WalReader) (base : Image Bytes) (endOffset : Nat) (live : Nat → Files) :
    Prop where
  wal : ∀ m, (live m).wal.take endOffset = rd.r.take endOffset
  page : ∀ m p, 0 < p → p ≤ base.size → p ≤ (rd.stateAt base endOffset).size →
    (rd.pageMapUntil endOffset).1.pages.find? p = none →
    readAt (live m).db ((p - 1) * rd.pageSize) rd.pageSize = base.page p
  size : (rd.pageMapUntil endOffset).1 = {} → ∀ m, dbPages (live m).db rd.pageSize = base.size

/-- The same for all pages but the lock page, which no frame carries. -/
structure LockedOff (rd : WalReader) (base : Image Bytes) (endOffset : Nat) (live : Nat → Files) :
    Prop where
  wal : ∀ m, (live m).wal.take endOffset = rd.r.take endOffset
  page : ∀ m p, 0 < p → p ≠ lockPgno rd.pageSize → p ≤ base.size →
    p ≤ (rd.stateAt base endOffset).size →
    (rd.pageMapUntil endOffset).1.pages.find? p = none →
    readAt (live m).db ((p - 1) * rd.pageSize) rd.pageSize = base.page p
  size : (rd.pageMapUntil endOffset).1 = {} → ∀ m, dbPages (live m).db rd.pageSize = base.size

/-- A locked database is locked outside the lock page. -/
theorem Locked.off {rd : WalReader} {base : Image Bytes} {endOffset : Nat} {live : Nat → Files}
    (h : Locked rd base endOffset live) : LockedOff rd base endOffset live where
  wal := h.wal
  page m p hpos _ := h.page m p hpos
  size := h.size

section
variable {rd : WalReader} {base : Image Bytes} {wal : Bytes} {live : Nat → Files}

/-- The frames of a page map lie before the end it was made for. -/
theorem find?_pageMap_lt (hnew : new wal = .ok rd)
    (hpgno : ∀ e ∈ rd.frames maxOffset, e.commit ≠ 0 → e.key ≤ e.commit) {p offset : Nat}
    (h : rd.pageMap.1.pages.find? p = some offset) :
    offset + walFrameHeaderSize + rd.pageSize ≤ rd.committedEnd := by
  have hpm := isPageMap_of_new hnew maxOffset hpgno
  obtain ⟨hcom, -⟩ := @committed_frames rd maxOffset
  cases hlast : (committed (rd.frames maxOffset)).getLast? with
  | none =>
      have hnil : rd.pageMap.1 = {} := hpm.none (List.getLast?_eq_none_iff.mp hlast)
      rw [hnil] at h
      cases h
  | some last =>
      have hfind : rd.pageMap.1.pages.find? p = if p ≤ last.commit then
          latest (committed (rd.frames maxOffset)) p
          else none := hpm.pages hlast p
      rw [hfind] at h
      split at h
      · obtain ⟨e, he, -, rfl⟩ := exists_of_latest h
        rw [committedEnd]
        generalize (committed (rd.frames maxOffset)).length = n at hcom
        rw [hcom] at he
        obtain ⟨i, hi, rfl⟩ := List.mem_map.mp he
        have hlt := (List.mem_range'_1.mp hi).2
        have hle : rd.slotStart (i + 1) ≤ rd.slotStart n := slotStart_strictMono.monotone (by omega)
        rw [slotStart_succ, frameSize, ← Nat.add_assoc] at hle
        exact hle
      · cases h

/-- **What a snapshot reads of a page**, from the files of any moment, is the page of the committed
database. -/
theorem sourcePage_eq_ok (hnew : new wal = .ok rd)
    (hgrow : GrowsFrom (lockPgno rd.pageSize) base.size
      (rd.frames maxOffset)) (hpgno : ∀ e ∈ rd.frames maxOffset, e.commit ≠ 0 → e.key ≤ e.commit)
    (hlocked : LockedOff rd base rd.committedEnd live) {walShort dbShort : Nat → SyncError}
    {m p : Nat} {data : Bytes} (hpos : 0 < p) (hle : p ≤ (rd.stateAt base maxOffset).size)
    (hlock : p ≠ lockPgno rd.pageSize)
    (h : sourcePage walShort dbShort rd.pageSize rd.pageMap.1 (live m) p = .ok data) :
    data = (rd.stateAt base maxOffset).page p := by
  have huntil := pageMapUntil_committedEnd hnew hpgno
  have hstate : rd.stateAt base rd.committedEnd = rd.stateAt base maxOffset :=
    congrArg (rd.overlay base) huntil
  unfold sourcePage at h
  cases hfind : rd.pageMap.1.pages.find? p with
  | some offset =>
      rw [hfind] at h
      have hne : rd.pageMap.1.pages.entries ≠ [] :=
        List.ne_nil_of_mem (SortedMap.mem_entries_iff.mpr hfind)
      have hover : rd.stateAt base maxOffset = base.apply (zeroPage rd.pageSize)
          (l0Patch rd.r rd.pageSize rd.pageMap.1) := if_neg hne
      have hsame := readAt_congr_take (hlocked.wal m) (find?_pageMap_lt hnew hpgno hfind)
      rw [readOr_eq_ok h, hsame, hover]
      simp only [Image.apply, l0Patch, hfind, Option.map_some, Option.getD_some]
  | none =>
      rw [hfind] at h
      -- a page that no frame carries was there at the start of the WAL
      have hbase : p ≤ base.size := by
        rcases pageMap_end hnew hpgno with ⟨-, hempty, -⟩ | ⟨last, hlast, hne, hcommit, -⟩
        · have hover : rd.stateAt base maxOffset = base := by
            show rd.overlay base rd.pageMap.1 = base
            rw [hempty, overlay_empty]
          rwa [hover] at hle
        · have hover : rd.stateAt base maxOffset = base.apply (zeroPage rd.pageSize)
              (l0Patch rd.r rd.pageSize rd.pageMap.1) := if_neg hne
          have hle' : p ≤ last.commit := by
            rw [hover] at hle
            exact hcommit ▸ hle
          by_contra hlt
          have hmem := hgrow.mem hlast (Nat.not_le.mp hlt) hle' hlock
          have hpm := isPageMap_of_new hnew maxOffset hpgno
          have hpage : rd.pageMap.1.pages.find? p
              = if p ≤ last.commit then latest (committed (rd.frames maxOffset)) p else none :=
                hpm.pages hlast p
          rw [hfind, if_pos hle'] at hpage
          exact latest_eq_none_iff.mp hpage.symm hmem
      have hpage := hlocked.page m p hpos hlock hbase (by rwa [hstate]) (by rwa [huntil])
      rw [readOr_eq_ok h, hpage]
      show base.page p = (rd.overlay base rd.pageMap.1).page p
      unfold overlay
      split
      · rfl
      · simp only [Image.apply, l0Patch, hfind, Option.map_none, Option.getD_none, if_pos hbase]

/-- The size of the committed database, as a snapshot finds it. -/
theorem snapshotSize_eq (hnew : new wal = .ok rd)
    (hpgno : ∀ e ∈ rd.frames maxOffset, e.commit ≠ 0 → e.key ≤ e.commit)
    (hlocked : LockedOff rd base rd.committedEnd live) (m : Nat) :
    (if 0 < rd.pageMap.1.commit then rd.pageMap.1.commit else dbPages (live m).db rd.pageSize)
        = (rd.stateAt base maxOffset).size ∧ (rd.stateAt base maxOffset).size < 2 ^ 32 := by
  have huntil := pageMapUntil_committedEnd hnew hpgno
  rcases pageMap_end hnew hpgno with ⟨-, hempty, -⟩ | ⟨last, -, hne, hcommit, hlast, -⟩
  · have hover : rd.stateAt base maxOffset = base := by
      show rd.overlay base rd.pageMap.1 = base
      rw [hempty, overlay_empty]
    have hsize := hlocked.size (huntil.trans hempty) m
    have hlt : dbPages (live m).db rd.pageSize < 2 ^ 32 := Nat.mod_lt _ (Nat.two_pow_pos 32)
    rw [hempty, hover, if_neg (Nat.lt_irrefl 0)]
    exact ⟨hsize, hsize ▸ hlt⟩
  · have hover : rd.stateAt base maxOffset = base.apply (zeroPage rd.pageSize)
        (l0Patch rd.r rd.pageSize rd.pageMap.1) := if_neg hne
    have hlt := pageMapUntil_commit_lt (Nat.zero_le (rd.chainLength maxOffset)) hpgno
    rw [atSlot_zero_of_new hnew] at hlt
    rw [hover, if_pos (Nat.pos_of_ne_zero (hcommit ▸ hlast))]
    exact ⟨rfl, hlt⟩

/-- **All pages of the committed database** are in a file that is made of them. -/
theorem patch_of_sourcePages (hnew : new wal = .ok rd)
    (hgrow : GrowsFrom (lockPgno rd.pageSize) base.size
      (rd.frames maxOffset)) (hpgno : ∀ e ∈ rd.frames maxOffset, e.commit ≠ 0 → e.key ≤ e.commit)
    (hlocked : LockedOff rd base rd.committedEnd live) (walShort dbShort : Nat → Nat → SyncError)
    (moment : Nat → Nat) {f : LtxFile}
    (hpages : readPages
      (fun p => sourcePage (walShort p) (dbShort p) rd.pageSize rd.pageMap.1 (live (moment p)) p)
      (snapshotPgnos (lockPgno rd.pageSize) (rd.stateAt base maxOffset).size) = .ok f.pages)
    {p : Nat} (hpos : 0 < p) (hle : p ≤ (rd.stateAt base maxOffset).size)
    (hlock : p ≠ lockPgno rd.pageSize) :
    f.patch.page? p = some ((rd.stateAt base maxOffset).page p) := by
  obtain ⟨hfst, hread⟩ := readPages_eq_ok hpages
  have hmem : p ∈ f.pages.map Prod.fst := by
    rw [hfst]
    exact List.mem_filter.mpr ⟨List.mem_range'_1.mpr ⟨hpos, by omega⟩, by simpa using hlock⟩
  obtain ⟨⟨p', data⟩, hdata, rfl⟩ := List.mem_map.mp hmem
  rw [← sourcePage_eq_ok hnew hgrow hpgno hlocked hpos hle hlock (hread _ hdata)]
  exact LtxFile.mem_pages_iff.mp hdata

/-- The L0 file of a page map is its patch. -/
theorem patch_of_writeLtxFromWal {pm : PageMap} {files : Files} {pageSize : Nat} {f : LtxFile}
    (hpages : writeLtxFromWal pageSize files pm = .ok f.pages) (p : Nat) :
    f.patch.page? p = (l0Patch files.wal pageSize pm).page? p := by
  obtain ⟨hfst, hread⟩ := readPages_eq_ok hpages
  cases hfind : pm.pages.find? p with
  | none =>
      rw [l0Patch_page?_eq_none hfind, Option.eq_none_iff_forall_not_mem]
      intro data hdata
      have hmem : p ∈ f.pages.map Prod.fst :=
        List.mem_map.mpr ⟨(p, data), LtxFile.mem_pages_iff.mpr hdata, rfl⟩
      rw [hfst, SortedMap.mem_keys_iff, hfind] at hmem
      cases hmem
  | some offset =>
      have hmem : p ∈ f.pages.map Prod.fst := by
        rw [hfst, SortedMap.mem_keys_iff, hfind]
        rfl
      obtain ⟨⟨p', data⟩, hdata, rfl⟩ := List.mem_map.mp hmem
      have hsource := hread _ hdata
      dsimp only at hfind hsource
      rw [sourcePage, hfind] at hsource
      rw [LtxFile.mem_pages_iff.mp hdata, readOr_eq_ok hsource]
      simp only [l0Patch, hfind, Option.map_some]

end

/-! ## The fold of the L0 files -/

/-- The database that a chain of L0 files stands for. -/
def fold (pageSize : Nat) (chain : List LtxFile) : Image Bytes :=
  Image.applyAll (zeroPage pageSize) ⟨0, fun _ => zeroPage pageSize⟩ (patches chain)

/-- A chain with one more file folds to its patch over the rest. -/
theorem fold_concat (pageSize : Nat) (chain : List LtxFile) (f : LtxFile) :
    fold pageSize (chain ++ [f]) = (fold pageSize chain).apply (zeroPage pageSize) f.patch := by
  rw [fold, patches, List.map_append, Image.applyAll_append]
  rfl

/-! ## What a sync does -/

section
variable {c : Codec} {pageSize : Nat} {files : Files} {state : SyncState} {pos : Nat}
  {info : SyncInfo}
  {now : Int64} {outcome : SyncOutcome} {l0 : Option LtxFile}

/-- **What a sync can do**: nothing, where nothing new is committed and no snapshot was asked for;
or write a file with all pages or with those of the page map. -/
theorem sync_cases (h : sync c pageSize files state pos info now = .ok (outcome, l0)) :
    ∃ rd offset size, openReader files.wal info = .ok (rd, offset) ∧
      consumedSize rd.pageMap.1 offset = .ok size ∧ outcome.newWalSize = offset + size ∧
      ((info.snapshotting = false ∧ size = 0 ∧ l0 = none ∧ outcome.pos = none) ∨
        ∃ f, l0 = some f ∧ outcome.pos = some (pos + 1) ∧ f.hdr = l0Header pageSize
            (if 0 < rd.pageMap.1.commit then rd.pageMap.1.commit else dbPages files.db pageSize)
            (pos + 1)
            offset size now rd ∧
          (info.snapshotting = true ∧ writeLtxFromDb pageSize files
              (if 0 < rd.pageMap.1.commit then rd.pageMap.1.commit else dbPages files.db pageSize)
              rd.pageMap.1 = .ok f.pages ∨
            info.snapshotting = false ∧ 0 < size ∧
              writeLtxFromWal pageSize files rd.pageMap.1 = .ok f.pages)) := by
  -- the steps of sync, in turn
  unfold sync at h
  obtain ⟨⟨rd, offset⟩, hopen, h⟩ := bind_eq_ok_iff.mp h
  obtain ⟨size, hsize, h⟩ := bind_eq_ok_iff.mp h
  refine ⟨rd, offset, size, hopen, hsize, ?_⟩
  -- nothing new and no snapshot asked for: no file is made
  split at h
  · rename_i hnoop
    cases h
    rw [hnoop.2]
    exact ⟨rfl, .inl ⟨by simpa using hnoop.1, rfl, rfl, rfl⟩⟩
  · -- a file is made: of the whole database, or of the frames in the map
    rename_i hwork
    obtain ⟨pages, hpages, h⟩ := bind_eq_ok_iff.mp h
    obtain ⟨f, hf, h⟩ := bind_eq_ok_iff.mp h
    cases h
    obtain ⟨hhdr, rfl⟩ := encodeLtx_eq_ok hf
    refine ⟨rfl, .inr ⟨f, rfl, rfl, hhdr, ?_⟩⟩
    cases hsnap : info.snapshotting with
    | true =>
        rw [hsnap, l0Pages, if_pos rfl] at hpages
        exact .inl ⟨rfl, hpages⟩
    | false =>
        rw [hsnap, l0Pages, if_neg Bool.false_ne_true] at hpages
        rw [hsnap, not_and] at hwork
        exact .inr ⟨rfl, Nat.pos_of_ne_zero (hwork Bool.false_ne_true), hpages⟩

variable {rd : WalReader} {base : Image Bytes} {live : Nat → Files} {chain : List LtxFile}

/-- From the top, a sync consumes the WAL up to its last commit. -/
theorem consumedSize_top (hnew : new files.wal = .ok rd)
    (hpgno : ∀ e ∈ rd.frames maxOffset, e.commit ≠ 0 → e.key ≤ e.commit) {size : Nat}
    (h : consumedSize rd.pageMap.1 walHeaderSize = .ok size) :
    walHeaderSize + size = rd.committedEnd := by
  unfold consumedSize at h
  rcases pageMap_end hnew hpgno with ⟨-, hempty, hend⟩ | ⟨last, -, -, -, -, hmax, -⟩
  · rw [hempty, if_neg (Nat.lt_irrefl 0)] at h
    cases h
    exact hend.symm
  · have hle : walHeaderSize ≤ rd.pageMap.1.maxOffset := by
      rw [hmax, committedEnd, slotStart]
      exact Nat.le_add_right _ _
    have hpos : 0 < rd.pageMap.1.maxOffset := Nat.lt_of_lt_of_le (by decide) hle
    rw [if_pos hpos, if_pos hle] at h
    cases h
    rw [← hmax]
    omega

/-- A file with all pages of the database makes the fold that database. -/
theorem fold_snapshot (hnew : new files.wal = .ok rd) (hps : rd.pageSize = pageSize)
    (hgrow : GrowsFrom (lockPgno pageSize) base.size (rd.frames maxOffset))
    (hpgno : ∀ e ∈ rd.frames maxOffset, e.commit ≠ 0 → e.key ≤ e.commit) (hfiles : live 0 = files)
    (hlocked : LockedOff rd base rd.committedEnd live) {f : LtxFile} {txid offset size : Nat}
    (hhdr : f.hdr = l0Header pageSize
      (if 0 < rd.pageMap.1.commit then rd.pageMap.1.commit else dbPages files.db pageSize) txid
        offset size now rd)
    (hpages : writeLtxFromDb pageSize files
      (if 0 < rd.pageMap.1.commit then rd.pageMap.1.commit else dbPages files.db pageSize)
      rd.pageMap.1 = .ok f.pages) :
    Image.AgreeOff (lockPgno pageSize) (fold pageSize (chain ++ [f]))
      (rd.stateAt base maxOffset) := by
  subst hps
  obtain ⟨hsize, hlt⟩ := snapshotSize_eq hnew hpgno hlocked 0
  rw [hfiles] at hsize
  rw [hsize] at hhdr hpages
  have hcommit : f.hdr.commit.toNat = (rd.stateAt base maxOffset).size := by
    rw [hhdr]
    exact UInt32.toNat_ofNat_of_lt' hlt
  rw [fold_concat]
  refine ⟨hcommit, fun p hpos hle hlock => ?_⟩
  have hle' : p ≤ (rd.stateAt base maxOffset).size := hcommit ▸ hle
  rw [← hfiles] at hpages
  have hpage := patch_of_sourcePages hnew hgrow hpgno hlocked (fun _ => shortRead)
    (fun _ => shortRead)
    (fun _ => 0) hpages hpos hle' hlock
  simp only [Image.apply, hpage, Option.getD_some]

/-- A file with the pages of a page map overlays the fold with it. -/
theorem fold_incremental {rd' : WalReader} {f : LtxFile} {txid offset size : Nat}
    (hr : rd.r = files.wal) (hps : rd.pageSize = pageSize) (hne : rd'.pageMap.1.pages.entries ≠ [])
    (hcpos : 0 < rd'.pageMap.1.commit)
    (hlt : rd'.pageMap.1.commit < 2 ^ 32)
    (hhdr : f.hdr = l0Header pageSize
      (if 0 < rd'.pageMap.1.commit then rd'.pageMap.1.commit else dbPages files.db pageSize) txid
        offset size now rd')
    (hpages : writeLtxFromWal pageSize files rd'.pageMap.1 = .ok f.pages) :
    Image.AgreeOff (lockPgno pageSize) (fold pageSize (chain ++ [f]))
      (rd.overlay (fold pageSize chain) rd'.pageMap.1) := by
  subst hps
  rw [if_pos hcpos] at hhdr
  have hcommit : f.patch.commit = (l0Patch rd.r rd.pageSize rd'.pageMap.1).commit := by
    show f.hdr.commit.toNat = rd'.pageMap.1.commit
    rw [hhdr]
    exact UInt32.toNat_ofNat_of_lt' hlt
  rw [fold_concat, overlay, if_neg hne]
  refine Image.apply_congr _ hcommit fun p _ _ _ => ?_
  rw [patch_of_writeLtxFromWal hpages p, hr]

/-! ## Where a sync leads -/

/-- While the WAL has the salts of the newest L0 file, that file ends at its header or at the end of
one of its commits, and the fold is the committed database there. -/
def EndsInWal (rd : WalReader) (base : Image Bytes) (chain : List LtxFile) : Prop :=
  ∀ ltx, chain.getLast? = some ltx → saltsAt rd.r 16 = ltx.walSalts →
    (ltx.walEnd = walHeaderSize ∨
      ∃ i, i < rd.chainLength maxOffset ∧ (rd.entryAt i).commit ≠ 0 ∧
        ltx.walEnd = rd.slotStart (i + 1)) ∧
    Image.AgreeOff (lockPgno rd.pageSize) (fold rd.pageSize chain) (rd.stateAt base ltx.walEnd)

/-- Where the WAL is taken for the next one behind the newest L0 file, nothing was committed between
the two: the fold is the database at the start of the WAL. -/
def NothingMissed (rd : WalReader) (base : Image Bytes) (state : SyncState) (chain : List LtxFile) :
    Prop :=
  ∀ ltx, chain.getLast? = some ltx →
    (rd.r.length < ltx.walEnd ∧ state.syncedToWalEnd = true) ∨
      (saltsAt rd.r 16 ≠ ltx.walSalts ∧
        lastPageMatch ltx rd.r (ltx.walEnd - rd.frameSize) rd.frameSize = .ok true ∧
        detectFullCheckpoint rd.r [saltsAt rd.r 16, ltx.walSalts] = .ok false) →
    Image.AgreeOff (lockPgno rd.pageSize) (fold rd.pageSize chain) base

/-- Where a snapshot is asked for with the resume point left at the end of the newest L0 file, the
frame in front of it is gone. -/
def FrameGone (rd : WalReader) (chain : List LtxFile) : Prop :=
  ∀ ltx, chain.getLast? = some ltx → SnapshotsAtEnd ltx rd.r rd.frameSize →
    saltsAt (readAt rd.r (ltx.walEnd - rd.frameSize) walFrameHeaderSize) 8 ≠ ltx.walSalts

/-- The reader's salts are those of the header. -/
theorem saltsAt_of_new (hnew : new files.wal = .ok rd) :
    (rd.salt1, rd.salt2) = saltsAt files.wal 16 := by
  rw [salts_of_new hnew, ← saltsAt_header]
  rfl

/-- Nothing is committed before the first slot. -/
theorem stateAt_walHeaderSize (hnew : new files.wal = .ok rd) :
    rd.stateAt base walHeaderSize = base := by
  have hframes : rd.frames walHeaderSize = [] := by
    rw [frames, chainLength_walHeaderSize]
    rfl
  have hpm := isPageMap_of_new hnew walHeaderSize (by simp [hframes])
  rw [hframes] at hpm
  show rd.overlay base (rd.pageMapUntil walHeaderSize).1 = base
  rw [hpm.none rfl, overlay_empty]

/-- A sync without a snapshot that reads from the top over the database at the start of the WAL. -/
theorem sync_top_incremental (hnew : new files.wal = .ok rd) (hps : rd.pageSize = pageSize)
    (hpgno : ∀ e ∈ rd.frames maxOffset, e.commit ≠ 0 → e.key ≤ e.commit)
    (hfold : Image.AgreeOff (lockPgno pageSize) (fold pageSize chain) base) {size : Nat}
    (hsize : consumedSize rd.pageMap.1 walHeaderSize = .ok size)
    (hl0 : (size = 0 ∧ l0 = none) ∨ ∃ f, l0 = some f ∧ f.hdr = l0Header pageSize
        (if 0 < rd.pageMap.1.commit then rd.pageMap.1.commit else dbPages files.db pageSize)
        (pos + 1)
        walHeaderSize size now rd ∧ 0 < size ∧
        writeLtxFromWal pageSize files rd.pageMap.1 = .ok f.pages) :
    Image.AgreeOff (lockPgno pageSize) (fold pageSize (chain ++ l0.toList))
      (rd.stateAt base maxOffset) := by
  have hend := consumedSize_top hnew hpgno hsize
  have hover : rd.stateAt base maxOffset = rd.overlay base rd.pageMap.1 := rfl
  -- no commit in this WAL, or a page map with the last one in it
  rcases pageMap_end hnew hpgno with ⟨-, hempty, hcend⟩ | ⟨last, -, hne, hcommit, hlast, -, hlt⟩
  · have hzero : size = 0 := by omega
    rcases hl0 with ⟨-, rfl⟩ | ⟨f, -, -, hpos, -⟩
    · rw [Option.toList_none, List.append_nil, hover, hempty, overlay_empty]
      exact hfold
    · omega
  · rcases hl0 with ⟨rfl, -⟩ | ⟨f, rfl, hhdr, -, hpages⟩
    · omega
    · have hcpos : 0 < rd.pageMap.1.commit := Nat.pos_of_ne_zero (hcommit ▸ hlast)
      have hlt32 := pageMapUntil_commit_lt (Nat.zero_le (rd.chainLength maxOffset)) hpgno
      rw [atSlot_zero_of_new hnew] at hlt32
      rw [hover, Option.toList_some]
      refine (fold_incremental (r_of_new hnew) hps hne hcpos hlt32 hhdr hpages).trans ?_
      rw [overlay, if_neg hne, overlay, if_neg hne]
      exact hfold.apply _

/-- A sync that resumes behind a commit of the WAL at which the fold is the committed database. -/
theorem sync_resumed (hnew : new files.wal = .ok rd) (hps : rd.pageSize = pageSize)
    (hgrow : GrowsFrom (lockPgno pageSize) base.size (rd.frames maxOffset))
    (hpgno : ∀ e ∈ rd.frames maxOffset, e.commit ≠ 0 → e.key ≤ e.commit) {i : Nat}
    (hi : i < rd.chainLength maxOffset) (hcommit : (rd.entryAt i).commit ≠ 0)
    (hfold : Image.AgreeOff (lockPgno pageSize) (fold pageSize chain)
      (rd.stateAt base (rd.slotStart (i + 1))))
    {size : Nat} (hsize : consumedSize (rd.atSlot (i + 1)).pageMap.1 (rd.slotStart (i + 1)) =
      .ok size)
    (hl0 : (size = 0 ∧ l0 = none) ∨ ∃ f, l0 = some f ∧ f.hdr = l0Header pageSize
        (if 0 < (rd.atSlot (i + 1)).pageMap.1.commit then (rd.atSlot (i + 1)).pageMap.1.commit
          else dbPages files.db pageSize) (pos + 1) (rd.slotStart (i + 1)) size now
            (rd.atSlot (i + 1)) ∧
        0 < size ∧ writeLtxFromWal pageSize files (rd.atSlot (i + 1)).pageMap.1 = .ok f.pages) :
    rd.slotStart (i + 1) + size = rd.committedEnd ∧
      Image.AgreeOff (lockPgno pageSize) (fold pageSize (chain ++ l0.toList))
        (rd.stateAt base maxOffset) := by
  obtain ⟨hagree, hend⟩ := overlay_resume hnew hgrow hpgno hi hcommit
  unfold consumedSize at hsize
  -- behind the resume point there are commits, or there are none
  rcases hend with ⟨hempty, hcend⟩ | ⟨hne, hcpos, hmax, hlt⟩
  · rw [hempty, if_neg (Nat.lt_irrefl 0)] at hsize
    cases hsize
    refine ⟨hcend.symm, ?_⟩
    rcases hl0 with ⟨-, rfl⟩ | ⟨f, -, -, hpos, -⟩
    · rw [hempty, overlay_empty] at hagree
      rw [Option.toList_none, List.append_nil]
      exact hfold.trans hagree
    · exact absurd hpos (Nat.lt_irrefl 0)
  · rw [hmax, if_pos (Nat.zero_lt_of_lt hlt), if_pos hlt.le] at hsize
    cases hsize
    refine ⟨by omega, ?_⟩
    -- a file was made, since there was something to read
    rcases hl0 with ⟨hzero, -⟩ | ⟨f, rfl, hhdr, -, hpages⟩
    · omega
    · have hpgno₂ : ∀ e ∈ rd.entries (i + 1) (rd.chainLength maxOffset - (i + 1)),
          e.commit ≠ 0 → e.key ≤ e.commit := by
        intro e he
        refine hpgno e ?_
        rw [frames_split hi]
        exact List.mem_append_right _ he
      have hlt32 := pageMapUntil_commit_lt (Nat.succ_le_of_lt hi) hpgno₂
      rw [Option.toList_some]
      refine ((fold_incremental (r_of_new hnew) hps hne hcpos hlt32 hhdr hpages).trans ?_).trans
        hagree
      rw [overlay, if_neg hne, overlay, if_neg hne]
      exact hfold.apply _

/-- Where a sync reads from: the top, for a snapshot or over the database at the start of the WAL,
or behind a commit at which the fold is the committed database. -/
inductive ReadsFrom (rd : WalReader) (base : Image Bytes) (chain : List LtxFile)
    (snapshotting : Bool) :
    WalReader → Nat → Prop where
  | snapshot (hsnap : snapshotting = true) : ReadsFrom rd base chain snapshotting rd walHeaderSize
  | top (hsnap : snapshotting = false)
      (hfold : Image.AgreeOff (lockPgno rd.pageSize) (fold rd.pageSize chain) base) :
      ReadsFrom rd base chain snapshotting rd walHeaderSize
  | resumed (hsnap : snapshotting = false) {i : Nat} (hi : i < rd.chainLength maxOffset)
      (hcommit : (rd.entryAt i).commit ≠ 0)
      (hfold : Image.AgreeOff (lockPgno rd.pageSize) (fold rd.pageSize chain)
        (rd.stateAt base (rd.slotStart (i + 1)))) :
      ReadsFrom rd base chain snapshotting (rd.atSlot (i + 1)) (rd.slotStart (i + 1))

/-- **Where a sync reads from** after `verify`, if the newest L0 file ends in the WAL, or nothing
was missed where the WAL is taken for the next one, and a snapshot is never taken from the
middle. -/
theorem readsFrom_of_verify (hnew : new files.wal = .ok rd) (hps : rd.pageSize = pageSize)
    (hends : EndsInWal rd base chain) (hmissed : NothingMissed rd base state chain)
    (hgone : FrameGone rd chain)
    (hverify : verify chain.getLast? files.wal pageSize state = .ok info) {rd' : WalReader}
    {offset : Nat} (hopen : openReader files.wal info = .ok (rd', offset)) :
    ReadsFrom rd base chain info.snapshotting rd' offset := by
  have hr : rd.r = files.wal := r_of_new hnew
  have hopened := openReader_eq_ok hnew hopen
  -- at the header the reader is the one of the whole WAL
  have hopenTop : info.offset = walHeaderSize → rd' = rd ∧ offset = walHeaderSize := by
    intro htop
    rcases hopened with h' | ⟨-, hne, -⟩
    · exact h'
    · exact absurd htop hne
  cases hlast : chain.getLast? with
  -- no local file yet
  | none =>
      rw [hlast] at hverify
      cases hverify
      obtain ⟨rfl, rfl⟩ := hopenTop rfl
      exact .snapshot rfl
  | some ltx =>
      rw [hlast] at hverify
      have hframe : walFrameHeaderSize + pageSize = rd.frameSize := by rw [frameSize, hps]
      rcases verify_cases hverify with ⟨hsnap, hresume, hoffset⟩ | ⟨hsnap, hoffset⟩
      · -- no snapshot: what is read, and over which database
        rw [hframe, ← hr] at hresume
        generalize hoff : info.offset = off at hresume
        cases hresume with
        -- the WAL was read to its end before it was truncated
        | truncated hlong hsync =>
            obtain ⟨rfl, rfl⟩ := hopenTop hoff
            exact .top hsnap (hmissed ltx hlast (.inl ⟨hlong, hsync⟩))
        -- it was restarted, and the last page is still there
        | restarted hle hsalts hpage hfull =>
            obtain ⟨rfl, rfl⟩ := hopenTop hoff
            exact .top hsnap (hmissed ltx hlast (.inr ⟨hsalts, hpage, hfull⟩))
        -- the same generation, read from where the last file ends
        | same hle hsalts =>
            obtain ⟨hat, hfold⟩ := hends ltx hlast hsalts
            rcases hat with htop | ⟨i, hi, hcommit, hslot⟩
            · rw [htop, stateAt_walHeaderSize hnew] at hfold
              obtain ⟨rfl, rfl⟩ := hopenTop (hoff.trans htop)
              exact .top hsnap hfold
            · have hne : info.offset ≠ walHeaderSize := by
                rw [hoff, hslot, ← @slotStart_zero rd]
                exact (slotStart_strictMono (Nat.succ_pos i)).ne'
              obtain ⟨hinfo, -⟩ := hoffset hne
              have hsame : (info.salt1, info.salt2) = (rd.salt1, rd.salt2) := by
                rw [hinfo, ← hsalts, saltsAt_of_new hnew, hr]
              have hwith : withOffset files.wal info.offset info.salt1 info.salt2 =
                  .ok (rd.atSlot (i + 1)) := by
                obtain ⟨hsalt1, hsalt2⟩ := Prod.mk.inj hsame
                rw [hsalt1, hsalt2, hoff, hslot]
                exact withOffset_slotStart hnew (chain_chainLength maxOffset i hi).1
              have hreader : rd' = rd.atSlot (i + 1) ∧ offset = rd.slotStart (i + 1) := by
                unfold openReader at hopen
                rw [if_neg hne, hwith] at hopen
                cases hopen
                exact ⟨rfl, hoff.trans hslot⟩
              obtain ⟨rfl, rfl⟩ := hreader
              rw [hslot] at hfold
              exact .resumed hsnap hi hcommit hfold
      · -- a snapshot: the frame in front of the resume point is gone
        rcases hopened with ⟨rfl, rfl⟩ | ⟨-, hne, hwith⟩
        · exact .snapshot hsnap
        · exfalso
          obtain ⟨hle, hsalts⟩ := withOffset_eq_ok hnew hwith
          rcases hoffset with htop | ⟨hend, hinfo, hlong | hat⟩
          · exact hne htop
          · rw [hend] at hle
            exact absurd hlong (Nat.not_lt.mpr hle)
          · rw [hend, hinfo, ← hr] at hsalts
            rw [hframe, ← hr] at hat
            exact hgone ltx hlast hat hsalts

/-- What a sync without a snapshot writes. -/
theorem l0_of_incremental (hsnap : info.snapshotting = false) {rd' : WalReader} {offset size : Nat}
    (hcases : (info.snapshotting = false ∧ size = 0 ∧ l0 = none ∧ outcome.pos = none) ∨
      ∃ f, l0 = some f ∧ outcome.pos = some (pos + 1) ∧ f.hdr = l0Header pageSize
          (if 0 < rd'.pageMap.1.commit then rd'.pageMap.1.commit else dbPages files.db pageSize)
          (pos + 1)
          offset size now rd' ∧
        (info.snapshotting = true ∧ writeLtxFromDb pageSize files
            (if 0 < rd'.pageMap.1.commit then rd'.pageMap.1.commit else dbPages files.db pageSize)
            rd'.pageMap.1 = .ok f.pages ∨
          info.snapshotting = false ∧ 0 < size ∧
          writeLtxFromWal pageSize files rd'.pageMap.1 = .ok f.pages)) :
    (size = 0 ∧ l0 = none) ∨ ∃ f, l0 = some f ∧ f.hdr = l0Header pageSize
      (if 0 < rd'.pageMap.1.commit then rd'.pageMap.1.commit else dbPages files.db pageSize)
      (pos + 1) offset size now rd' ∧ 0 < size ∧
      writeLtxFromWal pageSize files rd'.pageMap.1 = .ok f.pages := by
  rcases hcases with ⟨-, hzero, hnone, -⟩ | ⟨f, hf, -, hhdr, ⟨htrue, -⟩ | ⟨-, hpos, hpages⟩⟩
  · exact .inl ⟨hzero, hnone⟩
  · rw [hsnap] at htrue
    cases htrue
  · exact .inr ⟨f, hf, hhdr, hpos, hpages⟩

/-- **A sync leads to the committed database.** If the newest L0 file ends in the WAL, or nothing
was missed where the WAL is taken for the next one, and a snapshot is never taken from the middle,
then a sync that succeeds consumes the WAL up to its last commit and the fold is the committed
database there. -/
theorem verifyAndSync_spec (hnew : new files.wal = .ok rd) (hps : rd.pageSize = pageSize)
    (hgrow : GrowsFrom (lockPgno pageSize) base.size (rd.frames maxOffset))
    (hpgno : ∀ e ∈ rd.frames maxOffset, e.commit ≠ 0 → e.key ≤ e.commit)
    (hends : EndsInWal rd base chain) (hmissed : NothingMissed rd base state chain)
    (hgone : FrameGone rd chain) (hfiles : live 0 = files)
    (h : verifyAndSync c pageSize files state chain now = .ok (outcome, l0))
    (hlocked : outcome.newWalSize = rd.committedEnd → LockedOff rd base rd.committedEnd live) :
    outcome.newWalSize = rd.committedEnd ∧
      Image.AgreeOff (lockPgno pageSize) (fold pageSize (chain ++ l0.toList))
        (rd.stateAt base maxOffset) := by
  obtain ⟨info, hverify, hsync⟩ := bind_eq_ok_iff.mp h
  obtain ⟨rd', offset, size, hopen, hsize, hend, hcases⟩ := sync_cases hsync
  cases readsFrom_of_verify hnew hps hends hmissed hgone hverify hopen with
  -- the file is made of the whole database
  | snapshot hsnap =>
      rw [consumedSize_top hnew hpgno hsize] at hend
      refine ⟨hend, ?_⟩
      rcases hcases with ⟨hfalse, -⟩ | ⟨f, rfl, -, hhdr, ⟨-, hpages⟩ | ⟨hfalse, -⟩⟩
      · rw [hsnap] at hfalse
        cases hfalse
      · exact fold_snapshot hnew hps hgrow hpgno hfiles (hlocked hend) hhdr hpages
      · rw [hsnap] at hfalse
        cases hfalse
  -- read from the top of the WAL
  | top hsnap hfold =>
      rw [consumedSize_top hnew hpgno hsize] at hend
      exact ⟨hend, sync_top_incremental hnew hps hpgno (hps ▸ hfold) hsize
        (l0_of_incremental hsnap hcases)⟩
  -- read from the resume point
  | resumed hsnap hi hcommit hfold =>
      rw [hend]
      exact sync_resumed hnew hps hgrow hpgno hi hcommit (hps ▸ hfold) hsize
        (l0_of_incremental hsnap hcases)

end

end Local

end Liters
