import Liters.Foundation.History
import Liters.Ltx.Meaning
import Liters.Maintenance.Bucket

/-! # Uploads, compaction, snapshots and retention

What the device that owns a bucket does to it (`compaction.rs`): upload level-0 files, compact a
level into the next one, write snapshots, and delete what retention allows. Every operation is a
script, so that a crash or a cancelled token can cut it between any two requests. -/

namespace Liters

/-! ## The writer's files -/

/-- The level-0 files of one writer, one per transaction. They have one page size, and each carries
the pages by which it grows the database. -/
structure Uploads where
  pageSize : UInt32
  file : Nat → LtxFile
  txid : ∀ t, 1 ≤ t → t < 2 ^ 64 - 1 →
    (file t).hdr.minTxid.toNat = t ∧ (file t).hdr.maxTxid.toNat = t
  size : ∀ t, 1 ≤ t → t < 2 ^ 64 - 1 → (file t).hdr.pageSize = pageSize
  growing : ∀ n < 2 ^ 64 - 1, (History.mk (fun t => (file t).patch)
    (List.replicate pageSize.toNat 0)).Growing (lockPgno pageSize.toNat) n

namespace Uploads

/-- What a page that was never written holds. -/
def zero (U : Uploads) : Bytes := List.replicate U.pageSize.toNat 0

/-- The page no file holds. -/
def lock (U : Uploads) : Nat := lockPgno U.pageSize.toNat

/-- The transactions of the writer. -/
def history (U : Uploads) : History Bytes := ⟨fun t => (U.file t).patch, U.zero⟩

/-- The database after transaction `t`: the fold of the uploaded files up to `t`. -/
def state (U : Uploads) (t : Nat) : Image Bytes := U.history.state t

/-- `f` is the full image of the database after transaction `t`. -/
structure FullImage (U : Uploads) (t : Nat) (f : LtxFile) : Prop where
  minTxid : f.hdr.minTxid.toNat = 1
  maxTxid : f.hdr.maxTxid.toNat = t
  size : f.hdr.pageSize = U.pageSize
  commit : f.patch.commit = (U.state t).size
  page : ∀ p, 0 < p → p ≤ (U.state t).size → p ≠ U.lock →
    f.patch.page? p = some ((U.state t).page p)

end Uploads

/-- Where snapshots come from: a full image for every transaction. -/
structure SnapshotSource (U : Uploads) where
  file : Nat → LtxFile
  full : ∀ t, 1 ≤ t → t < 2 ^ 64 - 1 → U.FullImage t (file t)

/-! ## Procedures -/

/-- The bucket and the highest transaction ever uploaded to level 0. -/
structure World where
  bucket : Bucket
  uploaded : Nat

/-- A request reaches the bucket. -/
def World.act (w : World) (m : Mutation) : World where
  bucket := w.bucket.act m
  uploaded := match m with
    | .put 0 file => max w.uploaded file.maxTxid
    | _ => w.uploaded

/-- A put stores its file at its level. -/
theorem World.act_put_same (w : World) (level : Nat) (s : Stored) :
    (w.act (.put level s)).bucket level = Bucket.insertFile s (w.bucket level) :=
  Bucket.setLevel_same w.bucket level (Bucket.insertFile s (w.bucket level))

/-- A put leaves the other levels alone. -/
theorem World.act_put_of_ne (w : World) {level l : Nat} (s : Stored) (h : l ≠ level) :
    (w.act (.put level s)).bucket l = w.bucket l := Bucket.setLevel_of_ne _ _ h

/-- A delete removes the files of its name from its level. -/
theorem World.act_delete_same (w : World) (level minTxid maxTxid : Nat) :
    (w.act (.delete level minTxid maxTxid)).bucket level
      = (w.bucket level).filter fun s => s.key ≠ (minTxid, maxTxid) := Bucket.setLevel_same ..

/-- A delete leaves the other levels alone. -/
theorem World.act_delete_of_ne (w : World) {level l : Nat} (minTxid maxTxid : Nat) (h : l ≠ level) :
    (w.act (.delete level minTxid maxTxid)).bucket l = w.bucket l := Bucket.setLevel_of_ne _ _ h

/-- Why an operation stopped. -/
inductive MaintenanceError where
  | notFound (level minTxid maxTxid : Nat)
  | ltx (e : LtxError)
  /-- The image of the database could not be read. -/
  | image (txid : Nat)

/-- An operation on the bucket. -/
abbrev Procedure (α : Type) := Script World Mutation MaintenanceError α

/-- Open listed files. -/
def Bucket.openAll (b : Bucket) : List FileInfo → Except MaintenanceError (List Bytes)
  | [] => .ok []
  | f :: fs =>
      match b.openLtxFile f.level f.minTxid f.maxTxid with
      | none => .error (.notFound f.level f.minTxid f.maxTxid)
      | some body => do
          let bodies ← b.openAll fs
          return body :: bodies

/-- Open listed files and merge them. -/
def Bucket.mergeFiles (c : Codec) (b : Bucket) (infos : List FileInfo) :
    Except MaintenanceError Bytes := do
  let rdrs ← b.openAll infos
  match compact c headerFlagNoChecksum false rdrs with
  | .ok (body, _, _) => .ok body
  | .error e => .error (.ltx e)

section
variable (c : Codec)

/-- PUT the next level-0 file. -/
def upload (U : Uploads) (createdAt : Option Int) : Procedure Unit := fun w =>
  if w.uploaded + 1 < 2 ^ 64 - 1 then
    ([.put 0 ⟨w.uploaded + 1, w.uploaded + 1, createdAt,
        (U.file (w.uploaded + 1)).bytes c⟩], .ok ())
  else ([], .ok ())

/-- PUT pending level-0 files, as many as there are creation times. -/
def uploadPending (U : Uploads) : List (Option Int) → Procedure Unit
  | [] => Script.done ()
  | createdAt :: rest => (upload c U createdAt).andThen World.act fun _ => uploadPending U rest

/-- The first transaction that a level does not cover yet. -/
def seekTxid (b : Bucket) (level : Nat) : Nat :=
  match b.maxLtxFileInfo level with
  | some f => f.maxTxid + 1
  | none => 0

/-- Merge the files of the level below that `dstLevel` does not cover yet into one file. -/
def compactLevel (dstLevel : Nat) (createdAt : Option Int) : Procedure Bool := fun w =>
  match w.bucket.ltxFiles (dstLevel - 1) (seekTxid w.bucket dstLevel) with
  | [] => ([], .ok false)
  | f :: fs =>
      let minTxid := fs.foldl (fun m g => min m g.minTxid) f.minTxid
      let maxTxid := fs.foldl (fun m g => max m g.maxTxid) f.maxTxid
      match w.bucket.mergeFiles c (f :: fs) with
      | .ok body => ([.put dstLevel ⟨minTxid, maxTxid, createdAt, body⟩], .ok true)
      | .error e => ([], .error e)

/-- Upload what is pending, then PUT a snapshot of the transaction the bucket ends at. -/
def snapshot (U : Uploads) (source : SnapshotSource U) (pending : List (Option Int))
    (createdAt : Option Int) : Procedure (Option Nat) :=
  (uploadPending c U pending).andThen World.act fun _ w =>
    if w.uploaded = 0 then ([], .ok none)
    else ([.put snapshotLevel ⟨1, w.uploaded, createdAt, (source.file w.uploaded).bytes c⟩],
      .ok (some w.uploaded))

end

/-! ## Retention -/

/-- Maintenance configuration. Times are in nanoseconds. -/
structure MaintenanceOptions where
  levelIntervals : List Nat := [30 * 10 ^ 9, 5 * 60 * 10 ^ 9, 60 * 60 * 10 ^ 9]
  snapshotInterval : Nat := 24 * 60 * 60 * 10 ^ 9
  snapshotRetention : Nat := 24 * 60 * 60 * 10 ^ 9
  l0Retention : Nat := 5 * 60 * 10 ^ 9
  retentionEnabled : Bool := true

/-- The earliest time the clock can represent. -/
def earliestTime : Int := -(2 ^ 63 * 10 ^ 9)

/-- The time `age` before `now`, the epoch if it cannot be represented. -/
def cutoff (now : Int) (age : Nat) : Int := if earliestTime ≤ now - age then now - age else 0

/-- The expired snapshots at the start of a listing, the newest excepted, and the TXID floor: the
end of the snapshot right before the oldest one that is retained. -/
def expiredSnapshots (cutoff : Int) (newest : Nat) : Nat → List FileInfo → List FileInfo × Nat
  | _, [] => ([], 0)
  | prevMax, info :: infos =>
      if info.createdAt.any (· < cutoff) ∧ info.maxTxid ≠ newest then
        let (expired, floor) := expiredSnapshots cutoff newest info.maxTxid infos
        (info :: expired, floor)
      else ([], prevMax)

/-- Delete expired snapshots. Without any snapshot there is nothing to anchor retention on;
otherwise return how many were deleted, and the floor. -/
def retireSnapshots (retention : Nat) (now : Int) : Procedure (Option (Nat × Nat)) := fun w =>
  let snapshots := w.bucket.ltxFiles snapshotLevel 0
  match (snapshots.map FileInfo.maxTxid).max? with
  | none => ([], .ok none)
  | some newest =>
      let (expired, floor) := expiredSnapshots (cutoff now retention) newest 0 snapshots
      (Bucket.deleteLtxFiles expired, .ok (some (expired.length, floor)))

/-- Delete the files of a level that lie wholly below the floor, the last file excepted. -/
def retireLevel (floor level : Nat) : Procedure Nat := fun w =>
  let files := w.bucket.ltxFiles level 0
  if files.length ≤ 1 then ([], .ok 0)
  else
    let deletable := files.dropLast.filter (·.maxTxid < floor)
    (Bucket.deleteLtxFiles deletable, .ok deletable.length)

/-- The floor cascades over levels. -/
def retireLevels (floor : Nat) : List Nat → Procedure Nat
  | [] => Script.done 0
  | level :: levels => (retireLevel floor level).andThen World.act fun deleted =>
      (retireLevels floor levels).andThen World.act fun more => Script.done (deleted + more)

/-- The level-0 files that may go: covered by level 1, not the newest, and old enough. The first
file that fails a test ends the scan. -/
def deletableL0 (maxL1 newest : Nat) (cutoff : Int) : List FileInfo → List FileInfo
  | [] => []
  | info :: infos =>
      if info.maxTxid > maxL1 then []
      else if info.maxTxid = newest then []
      else match info.createdAt with
        | some createdAt =>
            if createdAt ≤ cutoff then info :: deletableL0 maxL1 newest cutoff infos else []
        | none => []

/-- Delete level-0 files that level 1 covers and that are older than the grace period. -/
def enforceL0Retention (grace : Nat) (now : Int) : Procedure Nat := fun w =>
  let maxL1 := ((w.bucket.maxLtxFileInfo 1).map FileInfo.maxTxid).getD 0
  if maxL1 = 0 then ([], .ok 0)
  else
    let files := w.bucket.ltxFiles 0 0
    match (files.map FileInfo.maxTxid).max? with
    | none => ([], .ok 0)
    | some newest =>
        let deletable := deletableL0 maxL1 newest (cutoff now grace) files
        (Bucket.deleteLtxFiles deletable, .ok deletable.length)

/-- Snapshot retention by age, then the floor cascade over levels 1 to 8, then level-0 retention. -/
def enforceRetention (opts : MaintenanceOptions) (now : Int) : Procedure Nat :=
  (retireSnapshots opts.snapshotRetention now).andThen World.act fun
    | none => Script.done 0
    | some (deleted, floor) =>
        (if floor = 0 then Script.done 0
          else retireLevels floor (List.range' 1 (snapshotLevel - 1))).andThen World.act
            fun cascaded =>
        (enforceL0Retention opts.l0Retention now).andThen World.act fun retired =>
          Script.done (deleted + cascaded + retired)

/-! ## Maintenance runs -/

/-- A level is due when it has no file, or its newest one is old enough or of unknown age. -/
def levelDue (b : Bucket) (level interval : Nat) (now : Int) : Bool :=
  match b.maxLtxFileInfo level with
  | none => true
  | some newest =>
      match newest.createdAt with
      | some createdAt => interval ≤ (now - createdAt).toNat
      | none => true

/-- Compact each configured level that is due, from `level` on; after level 1, level-0 retention. -/
def compactDue (c : Codec) (opts : MaintenanceOptions) (now : Int) (createdAt : Nat → Option Int) :
    Nat → List Nat → Procedure Nat
  | _, [] => Script.done 0
  | level, interval :: intervals =>
      Script.andThen World.act
        (fun w => if levelDue w.bucket level interval now then
          compactLevel c level (createdAt level) w
          else ([], .ok false))
        fun compacted =>
          Script.andThen World.act
            (if compacted ∧ level = 1 ∧ opts.retentionEnabled then
              enforceL0Retention opts.l0Retention now
            else Script.done 0)
            fun deleted => (compactDue c opts now createdAt (level + 1) intervals).andThen World.act
              fun more => Script.done (deleted + more)

/-- A maintenance run: due compactions, a snapshot when due, retention. `createdAt` gives the
creation times of the compacted levels and of the snapshot. -/
def maintain (c : Codec) (U : Uploads) (source : SnapshotSource U) (opts : MaintenanceOptions)
    (now : Int) (createdAt : Nat → Option Int) (pending : List (Option Int)) : Procedure Nat :=
  (compactDue c opts now createdAt 1 opts.levelIntervals).andThen World.act fun deleted =>
    Script.andThen World.act
      (fun w => if levelDue w.bucket snapshotLevel opts.snapshotInterval now then
        snapshot c U source pending (createdAt snapshotLevel) w else ([], .ok none))
      fun _ => (if opts.retentionEnabled then enforceRetention opts now
          else Script.done 0).andThen World.act fun more => Script.done (deleted + more)

/-- What may happen to the bucket. -/
inductive Operation (U : Uploads) where
  | upload (createdAt : Option Int)
  | compactLevel (level : Nat) (low : 1 ≤ level) (high : level ≤ 8) (createdAt : Option Int)
  | snapshot (source : SnapshotSource U) (pending : List (Option Int)) (createdAt : Option Int)
  | enforceRetention (opts : MaintenanceOptions) (now : Int)
  | enforceL0Retention (grace : Nat) (now : Int)
  | maintain (source : SnapshotSource U) (opts : MaintenanceOptions)
      (levels : opts.levelIntervals.length ≤ 8) (now : Int) (createdAt : Nat → Option Int)
      (pending : List (Option Int))

/-- The requests an operation makes. -/
def Operation.requests (c : Codec) {U : Uploads} : Operation U → World → List Mutation
  | .upload createdAt, w => (Liters.upload c U createdAt w).1
  | .compactLevel level _ _ createdAt, w => (Liters.compactLevel c level createdAt w).1
  | .snapshot source pending createdAt, w => (Liters.snapshot c U source pending createdAt w).1
  | .enforceRetention opts now, w => (Liters.enforceRetention opts now w).1
  | .enforceL0Retention grace now, w => (Liters.enforceL0Retention grace now w).1
  | .maintain source opts _ now createdAt pending, w =>
      (Liters.maintain c U source opts now createdAt pending w).1

/-- An operation that is cut after its first `k` requests. -/
def Operation.cut (c : Codec) {U : Uploads} (op : Operation U) (k : Nat) (w : World) : World :=
  Script.applyAll World.act w ((op.requests c w).take k)

/-- The worlds that cut operations reach from the empty bucket. -/
inductive Reachable (c : Codec) (U : Uploads) : World → Prop where
  | start : Reachable c U ⟨Bucket.empty, 0⟩
  | step {w : World} (h : Reachable c U w) (op : Operation U) (k : Nat) :
      Reachable c U (op.cut c k w)

end Liters
