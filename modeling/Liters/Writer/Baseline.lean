import Mathlib.Logic.Function.Basic
import Liters.Ltx.LiteralCodec
import Liters.Wal.CheckedReader
import Liters.Writer.LocalSync

/-! # Syncing from any baseline

The newest local L0 file says where the next sync resumes, and it need not be one of this writer's
own: it may come from a bucket. Here `verify` and `sync` (`verify.rs`, `writer.rs`) read it as
bytes, with whatever offsets its header gives, and every computation of an offset is checked.
Elsewhere the code is taken as it is compiled for release: transaction numbers wrap and there are no
debug assertions. The sum of the header's WAL offset and size is the one thing that can leave its
range. -/

namespace Liters

namespace Checked

open WalReader Local

/-- Errors of `verify` and `sync`. -/
inductive PushError where
  /-- The newest local L0 file cannot be opened, or its header is refused. -/
  | localLtx (txid : Nat) (cause : Option LtxError)
  | sync (e : SyncError)

/-! ## `verify` -/

/-- The salts in the header of an L0 file. -/
def headerSalts (hdr : Header) : Nat × Nat := (hdr.walSalt1.toNat, hdr.walSalt2.toNat)

/-- The loop of `last_page_match`: look for a page with a content among the pages of the file. -/
def findPage (c : Codec) (pgno : Nat) (content : Bytes) :
    Nat → Decoder → Except (Stop SyncError) Bool
  | 0, _ => .error (.fault .endless)
  | fuel + 1, d =>
      match d.decodePage c d.header.pageSize.toNat with
      | .error e => .error (.typed (.ltx e))
      | .ok (none, _) => .ok false
      | .ok (some (hdr, data), d) =>
          if hdr.pgno = pgno ∧ data = content then .ok true else findPage c pgno content fuel d

/-- `last_page_match`. -/
def lastPageMatch (c : Codec) (d : Decoder) (wal : Bytes) (prevWalOffset frameSize : Nat) :
    Except (Stop SyncError) Bool :=
  if prevWalOffset ≤ walHeaderSize then .ok false
  else
    let frame := readAt wal prevWalOffset frameSize
    if frame.length < frameSize then .error (.typed (.io "cannot read last synced wal page"))
    else if saltsAt frame 8 ≠ headerSalts d.header then .ok false
    else findPage c (beField frame 0) (frame.drop walFrameHeaderSize) (d.r.length + 1) d

/-- `detect_full_checkpoint`. -/
def detectFullCheckpoint (wal : Bytes) (known : List (Nat × Nat)) :
    Except (Stop SyncError) Bool := do
  let rd ← plain (ofWal (WalReader.new wal))
  let salts ← frameSaltsUntil rd (known.getLast?.getD (0, 0))
  return salts.any fun salts => salts ∉ known

/-- The decision for a file whose header was read, with the resume point it gives in `info`. -/
def verifyFrom (c : Codec) (d : Decoder) (wal : Bytes) (frameSize : Nat) (info : SyncInfo)
    (state : SyncState) :
    Except (Stop SyncError) SyncInfo :=
  -- the WAL is shorter than where the last file ends
  if wal.length < info.offset then
    if state.syncedToWalEnd then do
      let hdr ← plain (readWalHeader wal)
      return { offset := walHeaderSize, salt1 := (saltsAt hdr 16).1, salt2 := (saltsAt hdr 16).2,
               snapshotting := false, clearSyncedToWalEnd := true }
    else return { info with reason := some "wal truncated by another process" }
  else do
    let hdr0 ← plain (readWalHeader wal)
    let saltMatch := saltsAt hdr0 16 = headerSalts d.header
    -- nothing of this WAL was synced
    if info.offset = walHeaderSize then
      if saltMatch then return { info with snapshotting := false }
      else return { info with reason := some "wal header salt reset, snapshotting" }
    else do
      -- the position one frame in front of the resume point, in i64
      let resume ← asI64 info.offset
      let size ← asI64 frameSize
      let prevWalOffset ← subI64 resume size
      -- one frame of it was synced
      if prevWalOffset = walHeaderSize then
        if saltMatch then return { info with snapshotting := false }
        else return { info with reason := some "wal header salt reset, snapshotting" }
      else if prevWalOffset < walHeaderSize then
        .error (.typed (.other ("prev WAL offset is less than the header size: " ++
          toString prevWalOffset)))
      else do
        let prevWalOffset ← asU64 prevWalOffset
        -- the frame in front of the resume point is still the last page of the file
        let found ← lastPageMatch c d wal prevWalOffset frameSize
        if ¬ found then
          return { info with
            reason := some
              "last page does not exist in last ltx file, wal overwritten by another process" }
        -- other salts over the same frame: a restart, or a checkpoint in full
        else if ¬ saltMatch then do
          let top := { info with
            offset := walHeaderSize, salt1 := (saltsAt hdr0 16).1, salt2 := (saltsAt hdr0 16).2 }
          let full ← detectFullCheckpoint wal [saltsAt hdr0 16, headerSalts d.header]
          if full then return { top with
            reason := some "full or restart checkpoint detected, snapshotting" }
          else return { top with snapshotting := false }
        else return { info with snapshotting := false }

/-- `verify`, with the local L0 files by their transaction. -/
def verify (c : Codec) (l0 : Nat → Option Bytes) (wal : Bytes) (pageSize posTxid : Nat)
    (state : SyncState) :
    Except (Stop PushError) SyncInfo := do
  let frameSize ← frameSize pageSize
  if posTxid = 0 then
    return { offset := walHeaderSize, salt1 := 0, salt2 := 0,
             reason := some "first sync, no local position" }
  else
    match l0 posTxid with
    | none => .error (.typed (.localLtx posTxid none))
    | some b =>
        match Decoder.decodeHeader { r := b } with
        | .error e => .error (.typed (.localLtx posTxid (some e)))
        | .ok d => do
            let sum ← addI64 d.header.walOffset.toInt d.header.walSize.toInt
            let offset ← asU64 sum
            mapTyped .sync (verifyFrom c d wal frameSize
              { offset, salt1 := (headerSalts d.header).1, salt2 := (headerSalts d.header).2 }
              state)

/-! ## `sync` -/

/-- The choice of the reader. -/
def openReader (wal : Bytes) (info : SyncInfo) : Except (Stop SyncError) (WalReader × Nat) :=
  if info.offset = walHeaderSize then plain ((ofWal (new wal)).map fun rd => (rd, walHeaderSize))
  else
    match withOffset wal info.offset info.salt1 info.salt2 with
    | .ok rd => .ok (rd, info.offset)
    | .error (.typed .prevFrameMismatch) =>
        plain ((ofWal (new wal)).map fun rd => (rd, walHeaderSize))
    | .error (.typed e) => .error (.typed (.wal e))
    | .error (.fault f) => .error (.fault f)

/-- The source of a page. -/
def sourcePage (pageSize : Nat) (pm : PageMap) (files : Files) (pgno : Nat) :
    Except (Stop SyncError) Bytes :=
  match pm.pages.find? pgno with
  | some offset => do
      let start ← addU64 offset walFrameHeaderSize
      plain (readOr files.wal pageSize start (shortRead start))
  | none => do
      let before ← subU64 pgno 1
      let start ← mulU64 before pageSize
      plain (readOr files.db pageSize start (shortRead start))

/-- Read some pages, in order. -/
def readPages (read : Nat → Except (Stop SyncError) Bytes) :
    List Nat → Except (Stop SyncError) (List Page)
  | [] => .ok []
  | pgno :: pgnos => do
      let data ← read pgno
      let pages ← readPages read pgnos
      return (pgno, data) :: pages

/-- The pages of an L0 file. -/
def l0Pages (snapshotting : Bool) (pageSize : Nat) (files : Files) (commit : Nat) (pm : PageMap) :
    Except (Stop SyncError) (List Page) :=
  readPages (sourcePage pageSize pm files)
    (if snapshotting then snapshotPgnos (lockPgno pageSize) commit else pm.pages.keys)

/-- `sync`, behind the position `pos`. -/
def sync (c : Codec) (pageSize : Nat) (files : Files) (state : SyncState) (pos : Nat)
    (info : SyncInfo) (now : Int64) :
    Except (Stop SyncError) (Local.SyncOutcome × Option LtxFile) := do
  let (rd, offset) ← openReader files.wal info
  let pm ← pageMap rd
  let commit := if 0 < pm.commit then pm.commit else dbPages files.db pageSize
  let size ← plain (consumedSize pm offset)
  if ¬ info.snapshotting ∧ size = 0 then
    return ({ newWalSize := offset,
              syncedToWalEnd := state.syncedToWalEnd && !info.clearSyncedToWalEnd,
              snapshotted := info.snapshotting, snapshotReason := info.reason }, none)
  else do
    -- the offsets of the header fit in its fields
    let _ ← asI64 offset
    let _ ← asI64 size
    let pages ← l0Pages info.snapshotting pageSize files commit pm
    let l0 ← plain (encodeLtx c (l0Header pageSize commit (pos + 1) offset size now rd)
      (l0Header_noChecksum ..) pages)
    let finalOffset ← addU64 offset size
    return ({ synced := true, pos := some (pos + 1), newWalSize := finalOffset,
              syncedToWalEnd := finalOffset = files.wal.length,
              snapshotted := info.snapshotting, snapshotReason := info.reason }, some l0)

/-! ## One push, and what it leaves -/

/-- A database under replication: a file's length is an `off_t`, and `Writer::open` refuses a page
size of zero. -/
structure Opened where
  files : Files
  pageSize : Nat
  wal_lt : files.wal.length < 2 ^ 63
  pageSize_pos : 0 < pageSize
  pageSize_lt : pageSize < 2 ^ 32

/-- What a writer keeps: the sync state and the local L0 files. -/
structure Kept where
  state : SyncState
  l0 : Nat → Option Bytes

/-- `apply_sync_outcome`, with the new L0 file renamed into its place. -/
def Kept.applied (c : Codec) (k : Kept) (pos : Nat) (outcome : Local.SyncOutcome)
    (l0 : Option LtxFile) : Kept where
  state := { lastSyncedWalOffset := outcome.newWalSize, syncedToWalEnd := outcome.syncedToWalEnd }
  l0 := match l0 with
    | none => k.l0
    | some f => Function.update k.l0 ((pos + 1) % 2 ^ 64) (some (f.bytes c))

/-- `verify_and_sync`, and the state and files behind it. An error leaves them as they were: the
state is only set from an outcome, and an unfinished file is removed. -/
def verifyAndSync (c : Codec) (db : Opened) (now : Int64) (pos : Nat) (k : Kept) :
    Except (Stop PushError) Local.SyncOutcome × Kept :=
  match verify c k.l0 db.files.wal db.pageSize pos k.state with
  | .error e => (.error e, k)
  | .ok info =>
      match sync c db.pageSize db.files k.state pos info now with
      | .error (.fault f) => (.error (.fault f), k)
      | .error (.typed e) => (.error (.typed (.sync e)), k)
      | .ok (outcome, l0) => (.ok outcome, k.applied c pos outcome l0)

/-! ## Reading the pages of a file ends -/

section
variable {c : Codec}

/-- A read takes what it returns. -/
theorem length_of_readOrEof {n : Nat} {b a r : Bytes} (h : readOrEof n b = .ok (a, r)) :
    r.length + n = b.length := by
  unfold readOrEof readExact at h
  split at h
  · rename_i p hp
    cases h
    split at hp
    · rename_i hle
      cases hp
      rw [List.length_drop]
      omega
    · cases hp
  · cases h

/-- Decompressing takes bytes only. -/
theorem length_of_decompressBlocks {blockChecksum : Bool} {maxBlockSize dstLen fuel : Nat}
    {out content b r : Bytes}
    (h : decompressBlocks c blockChecksum maxBlockSize dstLen fuel out b = .ok (content, r)) :
    r.length ≤ b.length := by
  induction fuel generalizing out b with
  | zero => cases h
  -- every turn consumes its size field at least
  | succ fuel ih =>
      unfold decompressBlocks at h
      obtain ⟨⟨s, b1⟩, hs, h⟩ := bind_eq_ok_iff.mp h
      have h1 := length_of_readOrEof hs
      dsimp only at h
      split at h
      · cases h
        omega
      obtain ⟨_, -, h⟩ := bind_eq_ok_iff.mp h
      obtain ⟨⟨buf, b2⟩, hbuf, h⟩ := bind_eq_ok_iff.mp h
      have h2 := length_of_readOrEof hbuf
      obtain ⟨⟨sum, b3⟩, hsum, h⟩ := bind_eq_ok_iff.mp h
      have h3 : b3.length + _ = b2.length := length_of_readOrEof hsum
      obtain ⟨_, -, h⟩ := bind_eq_ok_iff.mp h
      split at h
      · obtain ⟨_, -, h⟩ := bind_eq_ok_iff.mp h
        have hrest : r.length ≤ b3.length := ih h
        omega
      · split at h
        · cases h
        · have hrest : r.length ≤ b3.length := ih h
          omega

/-- So does a frame. -/
theorem length_of_decompressFrame {b content r : Bytes} {dstLen : Nat}
    (h : decompressFrame c b dstLen = .ok (content, r)) : r.length ≤ b.length := by
  unfold decompressFrame at h
  obtain ⟨⟨m, b1⟩, h1, h⟩ := bind_eq_ok_iff.mp h
  obtain ⟨_, -, h⟩ := bind_eq_ok_iff.mp h
  obtain ⟨⟨desc, b2⟩, h2, h⟩ := bind_eq_ok_iff.mp h
  obtain ⟨_, -, h⟩ := bind_eq_ok_iff.mp h
  obtain ⟨maxBlockSize, -, h⟩ := bind_eq_ok_iff.mp h
  obtain ⟨⟨contentSize, b3⟩, h3, h⟩ := bind_eq_ok_iff.mp h
  obtain ⟨⟨dictId, b4⟩, h4, h⟩ := bind_eq_ok_iff.mp h
  obtain ⟨⟨hc, b5⟩, h5, h⟩ := bind_eq_ok_iff.mp h
  obtain ⟨_, -, h⟩ := bind_eq_ok_iff.mp h
  obtain ⟨⟨content', b6⟩, h6, h⟩ := bind_eq_ok_iff.mp h
  obtain ⟨⟨sum, b7⟩, h7, h⟩ := bind_eq_ok_iff.mp h
  obtain ⟨_, -, h⟩ := bind_eq_ok_iff.mp h
  obtain ⟨_, -, h⟩ := bind_eq_ok_iff.mp h
  cases h
  have := length_of_readOrEof h1
  have := length_of_readOrEof h2
  have := length_of_readOrEof h3
  have := length_of_readOrEof h4
  have := length_of_readOrEof h5
  have := length_of_decompressBlocks h6
  have := length_of_readOrEof h7
  omega

/-- A page takes up at least its header. -/
theorem length_of_decodePage {d d' : Decoder} {bufLen : Nat} {p : PageHeader × Bytes}
    (h : d.decodePage c bufLen = .ok (some p, d')) : d'.r.length < d.r.length := by
  unfold Decoder.decodePage at h
  split at h
  · cases h
  · cases h
  · cases h
  obtain ⟨_, -, h⟩ := bind_eq_ok_iff.mp h
  obtain ⟨⟨b, r⟩, hb, h⟩ := bind_eq_ok_iff.mp h
  obtain ⟨hdr, -, h⟩ := bind_eq_ok_iff.mp h
  dsimp only at h
  split at h
  · cases h
  obtain ⟨_, -, h⟩ := bind_eq_ok_iff.mp h
  obtain ⟨⟨data, r'⟩, hdata, h⟩ := bind_eq_ok_iff.mp h
  cases h
  have hhdr := length_of_readOrEof hb
  have hrest := length_of_decompressFrame hdata
  show r'.length < d.r.length
  rw [pageHeaderSize] at hhdr
  omega

/-- **The search for a page** ends without a panic. -/
theorem findPage_sound {pgno fuel : Nat} {content : Bytes} {d : Decoder}
    (hfuel : d.r.length < fuel) :
    Sound (findPage c pgno content fuel d) := by
  induction fuel generalizing d with
  | zero => exact absurd hfuel (Nat.not_lt_zero _)
  | succ fuel ih =>
      rw [findPage]
      split
      · exact .typed _
      · exact .ok _
      · rename_i hdr data d' hpage
        have hshort := length_of_decodePage hpage
        split
        · exact .ok _
        · exact ih (by omega)

/-! ## What `verify` computes -/

/-- So does the comparison of the last page. -/
theorem lastPageMatch_sound (d : Decoder) (wal : Bytes) (prevWalOffset frameSize : Nat) :
    Sound (lastPageMatch c d wal prevWalOffset frameSize) := by
  rw [lastPageMatch]
  split
  · exact .ok _
  dsimp only
  split
  · exact .typed _
  split
  · exact .ok _
  · exact findPage_sound (Nat.lt_succ_self _)

/-- So does the detection of a full checkpoint. -/
theorem detectFullCheckpoint_sound {wal : Bytes} (hlen : wal.length < 2 ^ 63)
    (known : List (Nat × Nat)) :
    Sound (detectFullCheckpoint wal known) := by
  refine (plain_sound _).bind fun rd hrd => ?_
  have hwithin := within_of_new hlen (ofWal_eq_ok (plain_eq_ok_iff.mp hrd))
  rw [frameSaltsUntil_eq hwithin.length hwithin.pageSize, ok_bind]
  exact .ok _

/-- Where `verify` may resume: at the top, or where the file that it read says. -/
structure ResumeOk (start : Nat) (x : Except (Stop SyncError) SyncInfo) : Prop where
  sound : Sound x
  offset : ∀ info, x = .ok info → info.offset = walHeaderSize ∨ info.offset = start

/-- A resume offset is the header's end or the start. -/
theorem ResumeOk.ok {start : Nat} {info : SyncInfo}
    (h : info.offset = walHeaderSize ∨ info.offset = start) :
    ResumeOk start (.ok info) := by
  refine ⟨.ok _, fun info' heq => ?_⟩
  cases heq
  exact h

/-- A typed error resumes nowhere. -/
theorem ResumeOk.typed {start : Nat} (e : SyncError) : ResumeOk start (.error (.typed e)) :=
  ⟨.typed e, fun _ heq => by cases heq⟩

/-- What comes before a resume must not panic. -/
theorem ResumeOk.bind {α : Type} {start : Nat} {x : Except (Stop SyncError) α}
    {f : α → Except (Stop SyncError) SyncInfo} (hx : Sound x)
    (hf : ∀ a, x = .ok a → ResumeOk start (f a)) :
    ResumeOk start (x >>= f) := by
  refine ⟨hx.bind fun a ha => (hf a ha).sound, fun info h => ?_⟩
  obtain ⟨a, ha, h⟩ := bind_eq_ok_iff.mp h
  exact (hf a ha).offset info h

/-- The decision, whatever the file holds. -/
theorem verifyFrom_ok {d : Decoder} {wal : Bytes} {frameSize : Nat} {info : SyncInfo}
    {state : SyncState} (hlen : wal.length < 2 ^ 63) (hframe : frameSize < 2 ^ 33)
    (hoffset : info.offset < 2 ^ 63) :
    ResumeOk info.offset (verifyFrom c d wal frameSize info state) := by
  unfold verifyFrom
  split
  · -- the WAL is shorter than the resume point: the top of a new generation, or the point
    -- itself
    split
    · exact .bind (plain_sound _) fun hdr _ => .ok (.inl rfl)
    · exact .ok (.inr rfl)
  refine .bind (plain_sound _) fun hdr0 _ => ?_
  dsimp only
  -- at the header the salts decide alone
  split
  · split
    · exact .ok (.inr rfl)
    · exact .ok (.inr rfl)
  -- further on, the step back by one frame stays an i64
  have hprev : IsI64 ((info.offset : Int) - frameSize) := by
    constructor
    · omega
    · omega
  rw [asI64_eq hoffset, ok_bind, asI64_eq (by omega), ok_bind, subI64_eq hprev, ok_bind]
  split
  · split
    · exact .ok (.inr rfl)
    · exact .ok (.inr rfl)
  split
  · exact .typed _
  rename_i hbehind
  rw [asU64_eq (by rw [walHeaderSize] at hbehind; omega), ok_bind]
  -- the frame in front of the resume point decides, then the salts
  refine .bind (lastPageMatch_sound _ _ _ _) fun found _ => ?_
  split
  · exact .ok (.inr rfl)
  split
  · refine .bind (detectFullCheckpoint_sound hlen _) fun full _ => ?_
    split
    · exact .ok (.inl rfl)
    · exact .ok (.inl rfl)
  · exact .ok (.inr rfl)

/-- What `Header::validate` says of the offsets. -/
theorem offsets_of_validate {hdr : Header} (h : hdr.validate = .ok ()) :
    0 ≤ hdr.walOffset ∧ 0 ≤ hdr.walSize := by
  rw [Header.validate] at h
  simp only [ite_error_eq_ok_iff] at h
  obtain ⟨-, -, -, -, -, hoffset, hsize, -⟩ := h
  exact ⟨Int64.not_lt.mp hoffset, Int64.not_lt.mp hsize⟩

/-- A header that was read is a valid one. -/
theorem validate_of_decodeHeader {d d' : Decoder} (h : d.decodeHeader = .ok d') :
    d'.header.validate = .ok () := by
  unfold Decoder.decodeHeader at h
  obtain ⟨⟨b, r⟩, -, h⟩ := bind_eq_ok_iff.mp h
  obtain ⟨header, -, h⟩ := bind_eq_ok_iff.mp h
  obtain ⟨_, hvalid, h⟩ := bind_eq_ok_iff.mp h
  cases h
  exact hvalid

/-- The sum of the WAL offset and size in the newest local L0 file, if its header can be read, is an
`i64`. -/
def SumFits (l0 : Nat → Option Bytes) (posTxid : Nat) : Prop :=
  ∀ b d, posTxid ≠ 0 → l0 posTxid = some b → Decoder.decodeHeader { r := b } = .ok d →
    d.header.walOffset.toInt + d.header.walSize.toInt < 2 ^ 63

/-- `verify` meets no fault, and the resume point fits in 63 bits. -/
theorem verify_ok {l0 : Nat → Option Bytes} {wal : Bytes} {pageSize posTxid : Nat}
    {state : SyncState} (hlen : wal.length < 2 ^ 63) (hpage : pageSize < 2 ^ 32)
    (hsum : SumFits l0 posTxid) :
    Sound (verify c l0 wal pageSize posTxid state) ∧
      ∀ info, verify c l0 wal pageSize posTxid state = .ok info → info.offset < 2 ^ 63 := by
  have hframe : (frameSize pageSize : Except (Stop PushError) Nat) =
      .ok (walFrameHeaderSize + pageSize) :=
    addU64_eq (by rw [walFrameHeaderSize]; omega)
  rw [verify, hframe, ok_bind]
  -- without a position the top is read
  split
  · refine ⟨.ok _, fun info h => ?_⟩
    cases h
    decide
  rename_i hpos
  -- the newest local file is gone, or does not decode
  split
  · exact ⟨.typed _, fun info h => by cases h⟩
  rename_i b hb
  split
  · exact ⟨.typed _, fun info h => by cases h⟩
  rename_i d hd
  -- its end is a sum of two i64 that fits, and so is the offset that comes out
  have hfits := hsum b d hpos hb hd
  obtain ⟨hoffset, hsize⟩ := offsets_of_validate (validate_of_decodeHeader hd)
  have hoffset' : 0 ≤ d.header.walOffset.toInt := Int64.le_iff_toInt_le.mp hoffset
  have hsize' : 0 ≤ d.header.walSize.toInt := Int64.le_iff_toInt_le.mp hsize
  rw [addI64_eq ⟨by omega, hfits⟩, ok_bind, asU64_eq (by omega), ok_bind]
  have hres := @verifyFrom_ok c d wal (walFrameHeaderSize + pageSize)
    { offset := (d.header.walOffset.toInt + d.header.walSize.toInt).toNat,
      salt1 := (headerSalts d.header).1, salt2 := (headerSalts d.header).2 } state hlen
      (by rw [walFrameHeaderSize]; omega) (by dsimp only; omega)
  refine ⟨hres.sound.mapTyped _, fun info h => ?_⟩
  rcases hres.offset info (mapTyped_eq_ok h) with htop | hstart
  · rw [htop]
    decide
  · rw [hstart]
    dsimp only
    omega

/-! ## `sync` computes what it should -/

/-- Opening the reader does not overflow. -/
theorem openReader_eq {wal : Bytes} {info : SyncInfo} (hlen : wal.length < 2 ^ 63)
    (hoffset : info.offset < 2 ^ 63) :
    openReader wal info = plain (Local.openReader wal info) := by
  rw [openReader, Local.openReader]
  split
  · rfl
  rw [withOffset_eq hlen hoffset]
  cases WalReader.withOffset wal info.offset info.salt1 info.salt2 with
  | ok rd => rfl
  | error e =>
      cases e with
      | emptyWal => rfl
      | invalidMagic magic => rfl
      | unsupportedVersion version => rfl
      | unalignedOffset offset pageSize => rfl
      | offsetTooSmall offset => rfl
      | prevFrameMismatch => rfl

/-- The reader that is opened is one over the file. -/
theorem within_of_openReader {wal : Bytes} {info : SyncInfo} {rd : WalReader} {offset : Nat}
    (hlen : wal.length < 2 ^ 63) (hoffset : info.offset < 2 ^ 63)
    (h : Local.openReader wal info = .ok (rd, offset)) : Within rd ∧ offset < 2 ^ 63 := by
  have htop : ((ofWal (new wal)).map fun rd => (rd, walHeaderSize)) = .ok (rd, offset) →
      Within rd ∧ offset < 2 ^ 63 := by
    intro hmap
    cases hnew : new wal with
    | error e =>
        rw [hnew] at hmap
        cases hmap
    | ok rd' =>
        rw [hnew] at hmap
        cases hmap
        exact ⟨within_of_new hlen hnew, by decide⟩
  unfold Local.openReader at h
  split at h
  · exact htop h
  split at h
  · rename_i rd' hwith
    cases h
    exact ⟨within_of_withOffset hlen hwith, hoffset⟩
  · exact htop h
  · cases h

/-- Reading a page's source does not overflow. -/
theorem sourcePage_eq {rd : WalReader} {pageSize : Nat} {pm : PageMap} {files : Files} {pgno : Nat}
    (hlen : rd.r.length < 2 ^ 63) (hpm : MapWithin rd pm) (hpage : pageSize < 2 ^ 32)
    (hpgno : pm.pages.find? pgno = none → 0 < pgno ∧ pgno < 2 ^ 32) :
    sourcePage pageSize pm files pgno =
      plain (Local.sourcePage shortRead shortRead pageSize pm files pgno) := by
  rw [sourcePage, Local.sourcePage]
  cases hfind : pm.pages.find? pgno with
  | some offset =>
      have hfit := hpm.pages pgno offset hfind
      have hframe : rd.frameSize = walFrameHeaderSize + rd.pageSize := rfl
      dsimp only
      rw [addU64_eq (by omega), ok_bind]
  | none =>
      obtain ⟨hpos, hlt⟩ := hpgno hfind
      have hmul : (pgno - 1) * pageSize < 2 ^ 64 := by
        calc (pgno - 1) * pageSize ≤ 2 ^ 32 * pageSize := Nat.mul_le_mul_right _ (by omega)
          _ < 2 ^ 32 * 2 ^ 32 := Nat.mul_lt_mul_of_pos_left hpage (by decide)
          _ = 2 ^ 64 := by decide
      dsimp only
      rw [subU64_eq hpos, ok_bind, mulU64_eq hmul, ok_bind]

/-- Neither does reading pages of which none does. -/
theorem readPages_eq {read : Nat → Except (Stop SyncError) Bytes}
    {read' : Nat → Except SyncError Bytes} {pgnos : List Nat}
    (h : ∀ pgno ∈ pgnos, read pgno = plain (read' pgno)) :
    readPages read pgnos = plain (Local.readPages read' pgnos) := by
  induction pgnos with
  | nil => rfl
  | cons pgno pgnos ih =>
      rw [readPages, Local.readPages, h pgno List.mem_cons_self,
        ih fun p hp => h p (List.mem_cons_of_mem _ hp), plain_bind]
      refine bind_congr fun data => ?_
      rw [plain_bind]
      rfl

/-- Neither does the collection of a file's pages. -/
theorem l0Pages_eq {rd : WalReader} {snapshotting : Bool} {pageSize commit : Nat} {pm : PageMap}
    {files : Files} (hlen : rd.r.length < 2 ^ 63) (hpm : MapWithin rd pm)
    (hpage : pageSize < 2 ^ 32) (hcommit : commit < 2 ^ 32) :
    l0Pages snapshotting pageSize files commit pm =
      plain (Local.l0Pages snapshotting pageSize files commit pm) := by
  rw [l0Pages, Local.l0Pages, writeLtxFromDb, writeLtxFromWal]
  cases snapshotting with
  | true =>
      rw [if_pos rfl, if_pos rfl]
      refine readPages_eq fun pgno hmem => sourcePage_eq hlen hpm hpage fun _ => ?_
      obtain ⟨hpos, hle⟩ := List.mem_range'_1.mp (List.mem_of_mem_filter hmem)
      omega
  | false =>
      rw [if_neg Bool.false_ne_true, if_neg Bool.false_ne_true]
      refine readPages_eq fun pgno hmem => sourcePage_eq hlen hpm hpage fun hnone => ?_
      have hsome := SortedMap.mem_keys_iff.mp hmem
      rw [hnone] at hsome
      cases hsome

/-- What is consumed ends within the file, or where the sync resumed. -/
theorem consumedSize_eq_ok {pm : PageMap} {offset size bound : Nat}
    (h : consumedSize pm offset = .ok size) (hoffset : offset < bound)
    (hmax : pm.maxOffset < bound) : offset + size < bound := by
  unfold consumedSize at h
  split at h
  · split at h
    · cases h
      omega
    · cases h
  · cases h
    omega

/-- **`sync` meets no fault**: it is the plain one. -/
theorem sync_eq {pageSize pos : Nat} {files : Files} {state : SyncState} {info : SyncInfo}
    {now : Int64} (hlen : files.wal.length < 2 ^ 63) (hpage : pageSize < 2 ^ 32)
    (hoffset : info.offset < 2 ^ 63) :
    sync c pageSize files state pos info now =
      plain (Local.sync c pageSize files state pos info now) := by
  rw [sync, Local.sync, openReader_eq hlen hoffset]
  cases hopen : Local.openReader files.wal info with
  | error e => rfl
  | ok opened =>
      obtain ⟨rd, offset⟩ := opened
      obtain ⟨hwithin, hoff⟩ := within_of_openReader hlen hoffset hopen
      obtain ⟨hpm, hmap⟩ := @pageMap_eq SyncError rd hwithin
      rw [plain_ok, ok_bind, ok_bind]
      dsimp only
      rw [hpm, ok_bind]
      -- the size read is what lies between the offset and the end of the map, both in the WAL
      cases hsize : consumedSize rd.pageMap.1 offset with
      | error e => rfl
      | ok size =>
          have hend := consumedSize_eq_ok hsize hoff
            (Nat.lt_of_le_of_lt hmap.maxOffset hwithin.length)
          have hcommit : (if 0 < rd.pageMap.1.commit then rd.pageMap.1.commit
              else dbPages files.db pageSize)
              < 2 ^ 32 := by
            split
            · exact hmap.commit
            · exact Nat.mod_lt _ (by decide)
          rw [plain_ok, ok_bind, ok_bind]
          -- nothing to write
          split
          · rfl
          rw [asI64_eq (by omega), ok_bind, asI64_eq (by omega), ok_bind,
            l0Pages_eq hwithin.length hmap hpage hcommit, plain_bind]
          refine bind_congr fun pages => ?_
          rw [plain_bind]
          refine bind_congr fun l0 => ?_
          -- the next position stays below 2^64
          rw [addU64_eq (by omega), ok_bind]
          rfl

/-! ## Total but for the sum -/

/-- What a push comes to on any baseline: no arithmetic on offsets leaves its range and every loop
ends; `verify` gives a resume point that is the top of the WAL or one that `with_offset` takes, or
refuses because the frame before it is gone; or there is an error, and errors leave everything as it
was. -/
structure Total (c : Codec) (db : Opened) (now : Int64) (pos : Nat) (k : Kept) : Prop where
  sound : Sound (verifyAndSync c db now pos k).1
  outcome : (∃ info, verify c k.l0 db.files.wal db.pageSize pos k.state = .ok info ∧
      (info.offset = walHeaderSize ∨
        (∃ rd, withOffset db.files.wal info.offset info.salt1 info.salt2 = .ok rd) ∨
        withOffset db.files.wal info.offset info.salt1 info.salt2 =
          .error (.typed .prevFrameMismatch))) ∨
    ∃ e, (verifyAndSync c db now pos k).1 = .error (.typed e)
  unchanged : ∀ e, (verifyAndSync c db now pos k).1 = .error (.typed e) →
    (verifyAndSync c db now pos k).2 = k

variable {db : Opened} {now : Int64} {pos : Nat} {k : Kept}

/-- Without a verified position nothing is synced. -/
theorem verifyAndSync_of_error {e : Stop PushError}
    (h : verify c k.l0 db.files.wal db.pageSize pos k.state = .error e) :
    verifyAndSync c db now pos k = (.error e, k) := by
  rw [verifyAndSync, h]

/-- A sync without overflow ends as the unchecked one. -/
theorem verifyAndSync_of_sync {info : SyncInfo}
    {r : Except SyncError (Local.SyncOutcome × Option LtxFile)}
    (h : verify c k.l0 db.files.wal db.pageSize pos k.state = .ok info)
    (hsync : sync c db.pageSize db.files k.state pos info now = plain r) :
    (verifyAndSync c db now pos k).1 = plain ((r.mapError PushError.sync).map Prod.fst) := by
  rw [verifyAndSync, h]
  dsimp only
  rw [hsync]
  cases r with
  | error e => rfl
  | ok r => rfl

/-- Errors leave everything as it was. -/
theorem verifyAndSync_unchanged {e : Stop PushError}
    (h : (verifyAndSync c db now pos k).1 = .error e) :
    (verifyAndSync c db now pos k).2 = k := by
  cases hinfo : verify c k.l0 db.files.wal db.pageSize pos k.state with
  | error e' => rw [verifyAndSync_of_error hinfo]
  | ok info =>
      rw [verifyAndSync, hinfo] at h ⊢
      dsimp only at h ⊢
      rcases hsync : sync c db.pageSize db.files k.state pos info now with (f | e') | ⟨outcome, l0⟩
      · rfl
      · rfl
      · rw [hsync] at h
        cases h

/-- A resume point that `with_offset` refuses for another reason makes `sync` fail. -/
theorem sync_error_of_withOffset {info : SyncInfo} {e : WalError} (hoffset : info.offset < 2 ^ 63)
    (htop : info.offset ≠ walHeaderSize)
    (h : WalReader.withOffset db.files.wal info.offset info.salt1 info.salt2 = .error e)
    (hne : e ≠ .prevFrameMismatch) :
    sync c db.pageSize db.files k.state pos info now = .error (.typed (.wal e)) := by
  have hopen : Local.openReader db.files.wal info = .error (.wal e) := by
    rw [Local.openReader, if_neg htop, h]
    cases e with
    | prevFrameMismatch => exact absurd rfl hne
    | emptyWal => rfl
    | invalidMagic magic => rfl
    | unsupportedVersion version => rfl
    | unalignedOffset offset pageSize => rfl
    | offsetTooSmall offset => rfl
  rw [sync_eq db.wal_lt db.pageSize_lt hoffset, Local.sync, hopen]
  rfl

/-- **If the sum fits**, nothing panics. -/
theorem total_of_sumFits (hsum : SumFits k.l0 pos) : Total c db now pos k := by
  obtain ⟨hverify, hoffset⟩ :=
    @verify_ok c k.l0 db.files.wal db.pageSize pos k.state db.wal_lt db.pageSize_lt hsum
  -- verify stops or gives a resume point
  cases hinfo : verify c k.l0 db.files.wal db.pageSize pos k.state with
  | error e =>
      have hcall : (verifyAndSync c db now pos k).1 = .error e :=
        congrArg Prod.fst (verifyAndSync_of_error hinfo)
      cases e with
      | fault f => exact absurd hinfo (hverify f)
      | typed e =>
          refine ⟨hcall ▸ .typed e, .inr ⟨e, hcall⟩, fun e' h => verifyAndSync_unchanged h⟩
  | ok info =>
      have hlt := hoffset info hinfo
      have hsync := @sync_eq c db.pageSize pos db.files k.state info now db.wal_lt
        db.pageSize_lt hlt
      refine ⟨?_, ?_, fun e' h => verifyAndSync_unchanged h⟩
      · rw [verifyAndSync_of_sync hinfo hsync]
        exact plain_sound _
      · -- the top, a reader at the point, or the error that verify looks for
        by_cases htop : info.offset = walHeaderSize
        · exact .inl ⟨info, hinfo, .inl htop⟩
        have hwith := @withOffset_eq db.files.wal info.offset info.salt1 info.salt2 db.wal_lt hlt
        cases hopen : WalReader.withOffset db.files.wal info.offset info.salt1 info.salt2 with
        | ok rd => exact .inl ⟨info, hinfo, .inr (.inl ⟨rd, by rw [hwith, hopen]; rfl⟩)⟩
        | error e =>
            by_cases hprev : e = .prevFrameMismatch
            · exact .inl ⟨info, hinfo, .inr (.inr (by rw [hwith, hopen, hprev]; rfl))⟩
            · refine .inr ⟨.sync (.wal e), ?_⟩
              rw [verifyAndSync_of_sync hinfo
                (r := .error (.wal e)) (sync_error_of_withOffset hlt htop hopen hprev)]
              rfl

/-- A sum that does not fit is a fault of `verify`. -/
theorem verify_fault {l0 : Nat → Option Bytes} {wal : Bytes} {pageSize posTxid : Nat}
    {state : SyncState} (hpage : pageSize < 2 ^ 32) (hsum : ¬ SumFits l0 posTxid) :
    verify c l0 wal pageSize posTxid state = .error (.fault .overflow) := by
  unfold SumFits at hsum
  push Not at hsum
  obtain ⟨b, d, hpos, hb, hd, hge⟩ := hsum
  have hframe : (frameSize pageSize : Except (Stop PushError) Nat) =
      .ok (walFrameHeaderSize + pageSize) :=
    addU64_eq (by rw [walFrameHeaderSize]; omega)
  have hadd : (addI64 d.header.walOffset.toInt d.header.walSize.toInt : Except (Stop PushError) Int)
      = .error (.fault .overflow) := if_neg fun h => absurd h.2 (Int.not_lt.mpr hge)
  rw [verify, hframe, ok_bind, if_neg hpos, hb]
  dsimp only
  rw [hd]
  dsimp only
  rw [hadd]
  rfl

/-- **A push is total on every baseline but for one sum**: it meets no fault, and fails if at all
with everything as it was, exactly if the WAL offset and size in the header of the newest local L0
file add up to an `i64`. -/
theorem total_iff_sumFits (c : Codec) (db : Opened) (now : Int64) (pos : Nat) (k : Kept) :
    Total c db now pos k ↔ SumFits k.l0 pos := by
  constructor
  · intro h
    by_contra hsum
    refine h.sound .overflow ?_
    rw [verifyAndSync_of_error (verify_fault db.pageSize_lt hsum)]
  · exact total_of_sumFits

end

/-! ## The sum that does not fit -/

/-- A valid L0 file whose WAL offset is the largest `i64` and whose WAL size is not zero. -/
def farL0 : LtxFile where
  hdr := { flags := headerFlagNoChecksum, pageSize := 512, commit := 1, minTxid := 2, maxTxid := 2,
           walOffset := Int64.maxValue, walSize := 1, walSalt1 := 1, walSalt2 := 2 }
  pages := [(1, zeroPage 512)]
  valid := by decide
  pagesOk := by decide +kernel
  noChecksum := by decide
  commit_ne_zero := by decide

/-- A database with a WAL of three frames. -/
def sampleOpened : Opened where
  files := ⟨[], sampleWal⟩
  pageSize := 512
  wal_lt := by decide +kernel
  pageSize_pos := by decide
  pageSize_lt := by decide

/-- The local L0 files behind a rebaseline on it. -/
def farKept : Kept where
  state := {}
  l0 t := if t = 2 then some (farL0.bytes literalCodec) else none

/-- The header of a written file is read back. -/
theorem decodeHeader_bytes (c : Codec) (f : LtxFile) :
    ∃ d, Decoder.decodeHeader { r := f.bytes c } = .ok d ∧
    d.header = f.hdr := by
  have hbytes : f.bytes c = f.hdr.encode ++ (f.pages.flatMap (pageFrame c) ++ PageHeader.encode {}
      ++ encodePageIndex (fileIndex c f.pages) ++ (f.trailer c).encode) := by
    rw [LtxFile.bytes, fileBytes, fileBody, LtxFile.trailer]
    simp only [List.append_assoc]
  rw [hbytes]
  exact ⟨_, @Decoder.decodeHeader_encode c _ f.valid _, rfl⟩

/-- The far writer's newest local file. -/
theorem farKept_l0 : farKept.l0 2 = some (farL0.bytes literalCodec) := by
  show (if 2 = 2 then some (farL0.bytes literalCodec) else none) = some (farL0.bytes literalCodec)
  exact if_pos rfl

/-- **The one baseline that is not survived**: `i64::MAX + 1`. -/
theorem far_baseline_overflows :
    ¬ Total literalCodec sampleOpened 0 2 farKept ∧
      verify literalCodec farKept.l0 sampleOpened.files.wal sampleOpened.pageSize 2 farKept.state
        = .error (.fault .overflow) := by
  have hsum : ¬ SumFits farKept.l0 2 := by
    intro h
    obtain ⟨d, hd, hhdr⟩ := decodeHeader_bytes literalCodec farL0
    have hfits := h _ d (by decide) farKept_l0 hd
    rw [hhdr] at hfits
    exact absurd hfits (by decide)
  have hfault : verify literalCodec farKept.l0 sampleOpened.files.wal sampleOpened.pageSize 2
      farKept.state
      = .error (.fault .overflow) := verify_fault sampleOpened.pageSize_lt hsum
  refine ⟨fun h => h.sound .overflow ?_, hfault⟩
  rw [verifyAndSync_of_error hfault]

end Checked

end Liters
