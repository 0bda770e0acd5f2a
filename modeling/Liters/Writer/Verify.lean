import Liters.Ltx.File
import Liters.Wal.Resume

/-! # Where the next sync resumes

The decision tree of `verify` (`verify.rs`): from the newest local L0 file and the WAL as it is now,
where in the WAL copying resumes, or that the whole database has to be copied. What it can answer is
said once, in `verify_cases`. -/

namespace Liters

/-- The WAL end that an L0 file records: its offset and its size, which are not negative. -/
def LtxFile.walEnd (f : LtxFile) : Nat :=
  f.hdr.walOffset.toNatClampNeg + f.hdr.walSize.toNatClampNeg

/-- The salts of the WAL an L0 file was copied from. -/
def LtxFile.walSalts (f : LtxFile) : Nat × Nat := (f.hdr.walSalt1.toNat, f.hdr.walSalt2.toNat)

/-- The salt pair in a WAL header or, at its own place, in a frame header. -/
def saltsAt (hdr : Bytes) (pos : Nat) : Nat × Nat := (beField hdr pos, beField hdr (pos + 4))

/-- Comparing salts decides their equality. -/
instance lawfulBEqSalts : LawfulBEq (Nat × Nat) := inferInstance

/-- Comparing pages decides their equality. -/
instance lawfulBEqPage : LawfulBEq Page := inferInstance

namespace WalReader

/-- The loop of `frame_salts_until`. -/
def frameSaltsLoop (rd : WalReader) (until' : Nat × Nat) :
    Nat → Nat → List (Nat × Nat) → List (Nat × Nat)
  | 0, _, m => m
  | fuel + 1, offset, m =>
      let hdr := readAt rd.r offset walFrameHeaderSize
      if hdr.length ≠ walFrameHeaderSize then m
      else if saltsAt hdr 8 = until' then saltsAt hdr 8 :: m
      else frameSaltsLoop rd until' fuel (offset + rd.frameSize) (saltsAt hdr 8 :: m)

/-- `frame_salts_until`: the salts of the frames from the top up to the first frame with the given
ones. -/
def frameSaltsUntil (rd : WalReader) (until' : Nat × Nat) : List (Nat × Nat) :=
  rd.frameSaltsLoop until' (rd.r.length + 1) walHeaderSize []

end WalReader

namespace Local

open WalReader

/-- Errors of a sync. -/
inductive SyncError where
  | io (msg : String)
  | wal (e : WalError)
  | ltx (e : LtxError)
  | other (msg : String)
deriving DecidableEq

/-- A result of the WAL reader. -/
def ofWal {α : Type} : Except WalError α → Except SyncError α
  | .ok a => .ok a
  | .error e => .error (.wal e)

/-- Where to resume, with what salts, and whether the whole database has to be copied. -/
structure SyncInfo where
  offset : Nat
  salt1 : Nat
  salt2 : Nat
  snapshotting : Bool := true
  reason : Option String := none
  clearSyncedToWalEnd : Bool := false
deriving DecidableEq

/-- What is carried from push to push. -/
structure SyncState where
  lastSyncedWalOffset : Nat := 0
  syncedToWalEnd : Bool := false

/-- `read_wal_header`. -/
def readWalHeader (wal : Bytes) : Except SyncError Bytes :=
  let hdr := readAt wal 0 walHeaderSize
  if hdr.length < walHeaderSize then .error (.io "short wal header") else .ok hdr

/-- `last_page_match`: the frame carries the salts of the L0 file, which holds its page. -/
def lastPageMatch (ltx : LtxFile) (wal : Bytes) (prevWalOffset frameSize : Nat) :
    Except SyncError Bool :=
  if prevWalOffset ≤ walHeaderSize then .ok false
  else
    let frame := readAt wal prevWalOffset frameSize
    if frame.length < frameSize then .error (.io "cannot read last synced wal page")
    else if saltsAt frame 8 ≠ ltx.walSalts then .ok false
    else .ok ((beField frame 0, frame.drop walFrameHeaderSize) ∈ ltx.pages)

/-- `detect_full_checkpoint`: a frame in front of the first one with the last known salts has
others. -/
def detectFullCheckpoint (wal : Bytes) (known : List (Nat × Nat)) : Except SyncError Bool := do
  let rd ← ofWal (WalReader.new wal)
  return (rd.frameSaltsUntil (known.getLast?.getD (0, 0))).any fun salts => salts ∉ known

/-- The decision once the WAL is long enough. -/
def verifyKept (ltx : LtxFile) (wal : Bytes) (frameSize : Nat) (info : SyncInfo) :
    Except SyncError SyncInfo := do
  let hdr0 ← readWalHeader wal
  let saltMatch := saltsAt hdr0 16 = ltx.walSalts
  if info.offset = walHeaderSize ∨ info.offset = walHeaderSize + frameSize then
    -- nothing or one frame was synced of this WAL
    if saltMatch then return { info with snapshotting := false }
    else return { info with reason := some "wal header salt reset, snapshotting" }
  else if info.offset < walHeaderSize + frameSize then
    throw (.other ("prev WAL offset is less than the header size: "
      ++ toString ((info.offset : Int) - frameSize)))
  else
    let found ← lastPageMatch ltx wal (info.offset - frameSize) frameSize
    if ¬ found then
      return { info with
        reason := some
          "last page does not exist in last ltx file, wal overwritten by another process" }
    else if ¬ saltMatch then
      let top := { info with
        offset := walHeaderSize, salt1 := (saltsAt hdr0 16).1, salt2 := (saltsAt hdr0 16).2 }
      let full ← detectFullCheckpoint wal [saltsAt hdr0 16, ltx.walSalts]
      if full then return { top with
        reason := some "full or restart checkpoint detected, snapshotting" }
      else return { top with snapshotting := false }
    else return { info with snapshotting := false }

/-- `verify`, for the newest local L0 file if there is one. -/
def verify (newest : Option LtxFile) (wal : Bytes) (pageSize : Nat) (state : SyncState) :
    Except SyncError SyncInfo :=
  match newest with
  | none =>
      .ok { offset := walHeaderSize, salt1 := 0, salt2 := 0,
            reason := some "first sync, no local position" }
  | some ltx =>
      let info : SyncInfo :=
        { offset := ltx.walEnd, salt1 := ltx.walSalts.1, salt2 := ltx.walSalts.2 }
      if wal.length < info.offset then
        if state.syncedToWalEnd then do
          -- an expected truncation: restart from the new header without a snapshot
          let hdr ← readWalHeader wal
          return { offset := walHeaderSize, salt1 := (saltsAt hdr 16).1,
                   salt2 := (saltsAt hdr 16).2, snapshotting := false,
                   clearSyncedToWalEnd := true }
        else .ok { info with reason := some "wal truncated by another process" }
      else verifyKept ltx wal (walFrameHeaderSize + pageSize) info

/-! ## What it answers -/

/-- Where the sync goes on without a snapshot: behind the newest L0 file while the WAL has its
salts, and at the top of a WAL that is taken for the next one. -/
inductive ResumesAt (ltx : LtxFile) (wal : Bytes) (frameSize : Nat) (state : SyncState) :
    Nat → Prop where
  | truncated (hlong : wal.length < ltx.walEnd) (hend : state.syncedToWalEnd = true) :
      ResumesAt ltx wal frameSize state walHeaderSize
  | same (hle : ltx.walEnd ≤ wal.length) (hsalts : saltsAt wal 16 = ltx.walSalts) :
      ResumesAt ltx wal frameSize state ltx.walEnd
  | restarted (hle : ltx.walEnd ≤ wal.length) (hsalts : saltsAt wal 16 ≠ ltx.walSalts)
      (hlast : lastPageMatch ltx wal (ltx.walEnd - frameSize) frameSize = .ok true)
      (hfull : detectFullCheckpoint wal [saltsAt wal 16, ltx.walSalts] = .ok false) :
      ResumesAt ltx wal frameSize state walHeaderSize

/-- A snapshot is asked for with the resume point left where the newest L0 file ends, within the WAL
file. -/
inductive SnapshotsAtEnd (ltx : LtxFile) (wal : Bytes) (frameSize : Nat) : Prop where
  | reset (hone : ltx.walEnd = walHeaderSize + frameSize) (hsalts : saltsAt wal 16 ≠ ltx.walSalts)
  | missing (hfar : walHeaderSize + frameSize < ltx.walEnd)
      (hlast : lastPageMatch ltx wal (ltx.walEnd - frameSize) frameSize = .ok false)

/-- The salts are in the WAL's header. -/
theorem saltsAt_header (wal : Bytes) :
    saltsAt (readAt wal 0 walHeaderSize) 16 = saltsAt wal 16 := by
  have hfield : ∀ pos, pos + 4 ≤ walHeaderSize →
      beField (readAt wal 0 walHeaderSize) pos = beField wal pos := by
    intro pos hpos
    rw [beField, readAt_readAt wal hpos, Nat.zero_add]
    rfl
  rw [saltsAt, hfield 16 (by decide), hfield 20 (by decide)]
  rfl

/-- The header that is read is the WAL's. -/
theorem readWalHeader_eq_ok {wal hdr : Bytes} (h : readWalHeader wal = .ok hdr) :
    hdr = readAt wal 0 walHeaderSize := by
  unfold readWalHeader at h
  dsimp only at h
  split at h
  · cases h
  · exact (Except.ok.inj h).symm

section
variable {ltx : LtxFile} {wal : Bytes} {frameSize : Nat} {state : SyncState} {info : SyncInfo}

/-- What is decided once the WAL is long enough. -/
theorem verifyKept_cases {start : SyncInfo} (hoffset : start.offset = ltx.walEnd)
    (hstart : (start.salt1, start.salt2) = ltx.walSalts) (hsnap : start.snapshotting = true)
    (hle : ltx.walEnd ≤ wal.length) (h : verifyKept ltx wal frameSize start = .ok info) :
    (info.snapshotting = false ∧ ResumesAt ltx wal frameSize state info.offset ∧
        (info.offset ≠ walHeaderSize →
          (info.salt1, info.salt2) = ltx.walSalts ∧ info.offset = ltx.walEnd)) ∨
      (info.snapshotting = true ∧ (info.offset = walHeaderSize ∨ info.offset = ltx.walEnd ∧
        (info.salt1, info.salt2) = ltx.walSalts ∧ SnapshotsAtEnd ltx wal frameSize)) := by
  unfold verifyKept at h
  obtain ⟨hdr0, hhdr, h⟩ := bind_eq_ok_iff.mp h
  rw [readWalHeader_eq_ok hhdr, saltsAt_header] at h
  dsimp only at h
  rw [hoffset] at h
  split at h
  · -- at the header or one frame behind it the salts decide alone
    rename_i hshort
    split at h
    · rename_i hsalts
      cases h
      exact .inl ⟨rfl, .same hle hsalts, fun _ => ⟨hstart, rfl⟩⟩
    · rename_i hsalts
      cases h
      refine .inr ⟨hsnap, ?_⟩
      rcases hshort with htop | hone
      · exact .inl htop
      · exact .inr ⟨rfl, hstart, .reset hone hsalts⟩
  · -- further on, the frame in front of the resume point decides first
    rename_i hlong
    split at h
    · cases h
    · rename_i hbehind
      have hfar : walHeaderSize + frameSize < ltx.walEnd := by omega
      obtain ⟨found, hlast, h⟩ := bind_eq_ok_iff.mp h
      cases found with
      -- it is gone: the WAL was overwritten
      | false =>
          rw [if_pos Bool.false_ne_true] at h
          cases h
          exact .inr ⟨hsnap, .inr ⟨rfl, hstart, .missing hfar hlast⟩⟩
      -- it is there, and the salts tell a restart
      | true =>
          rw [if_neg (not_not.mpr rfl)] at h
          split at h
          · rename_i hsalts
            obtain ⟨full, hfull, h⟩ := bind_eq_ok_iff.mp h
            cases full with
            | true =>
                rw [if_pos rfl] at h
                cases h
                exact .inr ⟨hsnap, .inl rfl⟩
            | false =>
                rw [if_neg Bool.false_ne_true] at h
                cases h
                exact .inl ⟨rfl, .restarted hle hsalts hlast hfull, fun hne => absurd rfl hne⟩
          · rename_i hsalts
            cases h
            exact .inl ⟨rfl, .same hle (not_not.mp hsalts), fun _ => ⟨hstart, rfl⟩⟩

/-- **What `verify` can answer**: to go on without a snapshot at one of the resume points, or to
take a snapshot with the resume point at the top, where the newest L0 file ends within the WAL file,
or behind the file. -/
theorem verify_cases {pageSize : Nat} (h : verify (some ltx) wal pageSize state = .ok info) :
    (info.snapshotting = false ∧
      ResumesAt ltx wal (walFrameHeaderSize + pageSize) state info.offset ∧
        (info.offset ≠ walHeaderSize →
          (info.salt1, info.salt2) = ltx.walSalts ∧ info.offset = ltx.walEnd)) ∨
      (info.snapshotting = true ∧ (info.offset = walHeaderSize ∨ info.offset = ltx.walEnd ∧
        (info.salt1, info.salt2) = ltx.walSalts ∧
          (wal.length < ltx.walEnd ∨ SnapshotsAtEnd ltx wal (walFrameHeaderSize + pageSize)))) := by
  unfold verify at h
  dsimp only at h
  split at h
  · rename_i hlong
    split at h
    · rename_i hend
      obtain ⟨hdr, hhdr, h⟩ := bind_eq_ok_iff.mp h
      cases h
      exact .inl ⟨rfl, .truncated hlong hend, fun hne => absurd rfl hne⟩
    · cases h
      exact .inr ⟨rfl, .inr ⟨rfl, rfl, .inl hlong⟩⟩
  · rename_i hle
    rcases verifyKept_cases rfl rfl rfl (Nat.not_lt.mp hle) h
      with hresume | ⟨hsnap, htop | ⟨hoff, hsalts, hat⟩⟩
    · exact .inl hresume
    · exact .inr ⟨hsnap, .inl htop⟩
    · exact .inr ⟨hsnap, .inr ⟨hoff, hsalts, .inr hat⟩⟩

end

end Local

end Liters
