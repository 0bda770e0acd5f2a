import Liters.Replica.FullRestore

/-! # Syncs

One round of the replica (`sync_with`): a full restore where there is nothing to build on, otherwise
files applied in place from the position on. Level 0 comes first; gaps in it are bridged through the
levels 1 to 8, and a round without progress falls back to the newest snapshot or finds that the
bucket went backwards (`incremental_sync`, `fill_follow_gap`, `finish_incremental`,
`apply_spooled`).

Other parties change the bucket while a round runs, so each request sees the bucket of its own
moment; the same moment says how the step goes. -/

namespace Liters

/-! ## The surroundings of a sync -/

/-- The moment of a step: what the bucket holds, how the step goes, and the random bytes it
draws. -/
structure Moment where
  bucket : Bucket
  turn : Turn
  noise : Nat → UInt8

/-- The surroundings of a sync: the moments of its steps, and those of a restore it may fall back
to. -/
structure SyncEnv where
  moment : Nat → Moment
  restore : RestoreEnv

/-- The replica in the middle of a sync: the database file, the position file and the number of
steps made. The last two fields are ghosts: the last transaction of which the file may hold a page,
and whether the file goes back to the bucket's own history at all. -/
structure Follower where
  db : Bytes
  txid : Option (List Char)
  clock : Nat := 0
  reached : Nat
  rooted : Bool

/-- Note that pages of a file are about to be written. -/
def Follower.start (hdr : Header) (s : Follower) : Follower :=
  { s with reached := max s.reached hdr.maxTxid.toNat }

/-- Note that a file was written in full: one that starts at transaction 1 carries every page. -/
def Follower.finish (hdr : Header) (s : Follower) : Follower :=
  if s.rooted then s
  else if hdr.isSnapshot then { s with rooted := true, reached := hdr.maxTxid.toNat }
  else s

/-- A part of a sync. -/
abbrev Sync := EStateM Halt Follower

namespace Replica

section
variable (env : SyncEnv)

/-- The moment of the next step. -/
def tick : Sync Moment := fun s => .ok (env.moment s.clock) { s with clock := s.clock + 1 }

/-- A step with an effect on the replica. -/
def effect (e : ReplicaError) (f : Moment → Follower → Follower) : Sync Unit := do
  let m ← tick env
  match m.turn with
  | .done => modify (f m)
  | .failed => throw (.error e)
  | .killed took => do
      if took then modify (f m)
      throw .killed

/-- A step without an effect on the replica. -/
def pass (e : ReplicaError) : Sync Unit := effect env e fun _ s => s

/-- A step whose failure is ignored. -/
def passAnyway : Sync Unit := do
  let m ← tick env
  match m.turn with
  | .done => pure ()
  | .failed => pure ()
  | .killed _ => throw .killed

/-- A request to the bucket. -/
def request : Sync Bucket := do
  let m ← tick env
  match m.turn with
  | .done => pure m.bucket
  | .failed => throw (.error .storage)
  | .killed _ => throw .killed

/-- List the files of a level that start at `seek` or later. -/
def listLevel (level seek : Nat) : Sync (List FileInfo) := do
  let b ← request env
  return b.ltxFiles level seek

/-! ## Applying a file -/

/-- The page as it is written: page 1 presents the database as a rollback-journal one and
invalidates the caches of other connections. -/
def presentPage (noise : Nat → UInt8) (pgno : Nat) (data : Bytes) : Bytes :=
  if pgno = 1 ∧ 28 ≤ data.length then
    pwrite (pwrite data 18 [1, 1]) 24 [noise 0, noise 1, noise 2, noise 3]
  else data

/-- Write pages in place. -/
def writePages (pageSize : Nat) : List Page → Sync Unit
  | [] => pure ()
  | (pgno, data) :: pages => do
      effect env .io fun m s =>
        { s with db := pwrite s.db ((pgno - 1) * pageSize) (presentPage m.noise pgno data) }
      writePages pageSize pages

/-- Lock the database file against readers in other processes. -/
def takeLock (opts : ReplicaOptions) : Sync Unit :=
  if opts.useFileLocks then pass env .lockBusy else pure ()

/-- Cut or extend the database file to the size a file commits. -/
def setSize (pageSize : Nat) (hdr : Header) : Sync Unit :=
  if hdr.commit ≠ 0 then
    effect env .io fun _ s => { s with db := setLen s.db (hdr.commit.toNat * pageSize) }
  else pure ()

/-- Write the pages of a file, set its size and sync. -/
def writeFile (pageSize : Nat) (hdr : Header) (pages : List Page) : Sync Unit := do
  writePages env pageSize pages
  setSize env pageSize hdr
  pass env .io

/-- Apply the pages of a decoded file under the file lock. -/
def applyDecoded (opts : ReplicaOptions) (pageSize : Nat) (hdr : Header) (pages : List Page) :
    Sync Unit := do
  takeLock env opts
  modify (Follower.start hdr)
  writeFile env pageSize hdr pages
  modify (Follower.finish hdr)

/-- Apply one complete file: verify all of it, then write its pages and set the size. -/
def applySpooled (c : Codec) (opts : ReplicaOptions) (pageSize : Nat) (body : Bytes) : Sync Unit :=
  match verifyFile c body with
  | .error e => throw (.error (.ltx e))
  | .ok _ =>
      match decodeFile c body with
      | .error e => throw (.error (.ltx e))
      | .ok (hdr, pages, _, _) =>
          if hdr.pageSize.toNat ≠ pageSize then
            throw (.error (.diverged hdr.minTxid.toNat hdr.maxTxid.toNat))
          else applyDecoded env opts pageSize hdr pages

/-- Fetch a listed file and apply it. The answer is false if the file is not there any more. -/
def applyLtxFile (c : Codec) (opts : ReplicaOptions) (pageSize : Nat) (info : FileInfo) :
    Sync Bool := do
  let b ← request env
  match b.openLtxFile info.level info.minTxid info.maxTxid with
  | none => pure false
  | some body => do
      -- the spool file: created, filled and synced
      pass env .io
      pass env .io
      pass env .io
      applySpooled env c opts pageSize body
      pure true

/-- Write the position file: next to it first, then a rename. -/
def advanceTxidFile (txid : Nat) : Sync Unit := do
  pass env .io
  pass env .io
  pass env .io
  effect env .io fun _ s => { s with txid := some (txidLine txid) }
  passAnyway env

/-! ## One round -/

/-- How the search of one level for files behind the position ends. -/
inductive GapEnd where
  | exhausted
  | filled
  | notFound

/-- Apply the files of one level that continue the position, until the gap is closed. -/
def fillLevel (c : Codec) (opts : ReplicaOptions) (pageSize gapMin : Nat) :
    List FileInfo → Nat → Sync (Nat × GapEnd)
  | [], current => pure (current, .exhausted)
  | info :: infos, current =>
      if info.minTxid > wrappingSucc current then pure (current, .exhausted)
      else if info.maxTxid ≤ current then fillLevel c opts pageSize gapMin infos current
      else do
        pass env .cancelled
        if ← applyLtxFile env c opts pageSize info then
          if wrappingSucc info.maxTxid ≥ gapMin then pure (info.maxTxid, .filled)
          else fillLevel c opts pageSize gapMin infos info.maxTxid
        else pure (current, .notFound)

/-- Bridge a gap through a list of levels, up to the first one that helps. -/
def fillFollowGap (c : Codec) (opts : ReplicaOptions) (pageSize gapMin : Nat) :
    List Nat → Nat → Bool → Sync (Nat × Bool)
  | [], after, saw404 => pure (after, saw404)
  | level :: levels, after, saw404 => do
      let infos ← listLevel env level 0
      let (current, ended) ← fillLevel env c opts pageSize gapMin infos after
      match ended with
      | .filled => pure (current, saw404)
      | .notFound => pure (current, true)
      | .exhausted =>
          if current > after then pure (current, saw404)
          else fillFollowGap c opts pageSize gapMin levels after saw404

/-- The levels that gaps are bridged through. -/
def gapLevels : List Nat := (List.range snapshotLevel).tail

/-- Close the gap in front of a level-0 file, if there is one. -/
def closeGap (c : Codec) (opts : ReplicaOptions) (pageSize : Nat) (info : FileInfo) (current : Nat)
    (saw404 : Bool) : Sync (Nat × Bool) :=
  if info.minTxid > wrappingSucc current then
    fillFollowGap env c opts pageSize info.minTxid gapLevels current saw404
  else pure (current, saw404)

/-- Apply level-0 files from the position on: where this ends, and whether the snapshot fallback may
be used from there. -/
def applyLevel0 (c : Codec) (opts : ReplicaOptions) (pageSize : Nat) :
    List FileInfo → Nat → Bool → Sync (Nat × Bool)
  | [], current, saw404 => pure (current, !saw404)
  | info :: infos, current, saw404 => do
      pass env .cancelled
      let (current, saw404) ← closeGap env c opts pageSize info current saw404
      if info.maxTxid ≤ current then applyLevel0 c opts pageSize infos current saw404
      else if info.minTxid > wrappingSucc current then pure (current, !saw404)
      else if ← applyLtxFile env c opts pageSize info then
        applyLevel0 c opts pageSize infos info.maxTxid saw404
      else pure (current, false)

/-- The newer one of two snapshots, the first one seen on a tie. -/
def newerSnapshot (newest : Option FileInfo) (info : FileInfo) : Option FileInfo :=
  match newest with
  | none => some info
  | some s => if info.maxTxid > s.maxTxid then some info else some s

/-- The highest transaction of the bucket and the newest snapshot, over a list of levels. -/
def survey : List Nat → Nat → Option FileInfo → Sync (Nat × Option FileInfo)
  | [], bucketMax, newest => pure (bucketMax, newest)
  | level :: levels, bucketMax, newest => do
      let infos ← listLevel env level 0
      survey levels (infos.foldl (fun m info => max m info.maxTxid) bucketMax)
        (if level = snapshotLevel then infos.foldl newerSnapshot newest else newest)

/-- Every level, the highest first. -/
def allLevels : List Nat := (List.range (snapshotLevel + 1)).reverse

/-- The snapshot fallback: apply the newest snapshot if it is ahead. -/
def fallBack (c : Codec) (opts : ReplicaOptions) (pageSize current : Nat)
    (newest : Option FileInfo) :
    Sync Nat :=
  match newest with
  | none => pure current
  | some snap =>
      if snap.maxTxid > current then do
        pass env .cancelled
        if ← applyLtxFile env c opts pageSize snap then pure snap.maxTxid
        else throw (.error (.notFound snap.level snap.minTxid snap.maxTxid))
      else pure current

/-- Persist the position if it moved. -/
def persist (fromTxid current : Nat) : Sync Nat := do
  if current > fromTxid then advanceTxidFile env current
  return current

/-- The end of a round: without progress, look whether the bucket is empty, behind, or ahead with a
snapshot only; then persist the position. -/
def finishIncremental (c : Codec) (opts : ReplicaOptions) (pageSize fromTxid current : Nat)
    (allowSnapshotFallback : Bool) : Sync Nat :=
  if current = fromTxid ∧ allowSnapshotFallback then do
    let (bucketMax, newest) ← survey env allLevels 0 none
    if bucketMax = 0 then pure current
    else if bucketMax < current then throw (.error (.diverged current bucketMax))
    else do
      let current ← fallBack env c opts pageSize current newest
      persist env fromTxid current
  else persist env fromTxid current

/-- The page size in the header of a database file. -/
def readPageSize (db : Bytes) : Option Nat :=
  if db.length < 18 then none
  else
    let ps := (byteAt db 16).toNat * 256 + (byteAt db 17).toNat
    some (if ps = 1 then 65536 else ps)

/-- Apply the listed level-0 files, or look for others if there are none. -/
def applyListed (c : Codec) (opts : ReplicaOptions) (pageSize fromTxid : Nat) (l0 : List FileInfo) :
    Sync (Nat × Bool) :=
  if l0.isEmpty then do
    let (current, saw404) ←
      fillFollowGap env c opts pageSize (wrappingSucc fromTxid) gapLevels fromTxid false
    pure (current, !saw404)
  else applyLevel0 env c opts pageSize l0 fromTxid false

/-- The work of a round at a known page size. -/
def followBucket (c : Codec) (opts : ReplicaOptions) (pageSize fromTxid : Nat) : Sync Nat := do
  let l0 ← listLevel env 0 (wrappingSucc fromTxid)
  let (current, allow) ← applyListed env c opts pageSize fromTxid l0
  finishIncremental env c opts pageSize fromTxid current allow

/-- One round from a position on. -/
def incrementalSync (c : Codec) (opts : ReplicaOptions) (fromTxid : Nat) : Sync Nat := do
  pass env .io
  match readPageSize (← get).db with
  | none => throw (.error .io)
  | some pageSize => followBucket env c opts pageSize fromTxid

end

end Replica

/-! ## A whole sync -/

/-- A replica between syncs: what is on disk, and the ghosts of `Follower`. -/
structure Site where
  disk : Disk
  reached : Nat
  rooted : Bool

/-- What a sync reports. -/
structure SyncResult where
  restored : Bool
  fromTxid : Nat
  toTxid : Nat

/-- The transaction of the image that a restore puts in place, if it gets that far. -/
def RestoreEnv.made (c : Codec) (env : RestoreEnv) : Option Nat :=
  match prepare c env, env.turn .rename with
  | .ok (_, txid), .done => some txid
  | .ok (_, txid), .killed true => some txid
  | _, _ => none

/-- The ghosts after a restore: once an image is in place, they are those of the image. -/
def Site.restored (s : Site) (made : Option Nat) (disk : Disk) : Site :=
  ⟨disk, made.getD s.reached, made.isSome || s.rooted⟩

/-- A full restore as part of a sync. -/
def restoreSite (c : Codec) (opts : ReplicaOptions) (env : RestoreEnv) (fromTxid : Nat) (s : Site) :
    Except Halt SyncResult × Site :=
  match fullRestore c opts env s.disk with
  | .ok txid disk => (.ok ⟨true, fromTxid, txid⟩, s.restored (env.made c) disk)
  | .error halt disk => (.error halt, s.restored (env.made c) disk)

/-- The replica after its part in a sync. -/
def Follower.site (s : Follower) : Site := ⟨⟨some s.db, s.txid⟩, s.reached, s.rooted⟩

/-- Bring the replica up to date. -/
def syncWith (c : Codec) (opts : ReplicaOptions) (env : SyncEnv) (s : Site) :
    Except Halt SyncResult × Site :=
  match s.disk.db, syncRoute opts s.disk with
  | _, .error e => (.error (.error e), s)
  | none, .ok _ => restoreSite c opts env.restore 0 s
  | some _, .ok .restore => restoreSite c opts env.restore 0 s
  | some _, .ok .unresumable => (.error (.error .unresumable), s)
  | some db, .ok (.incremental fromTxid) =>
      match Replica.incrementalSync env c opts fromTxid
          ⟨db, s.disk.txid, 0, s.reached, s.rooted⟩ with
      | .ok toTxid f => (.ok ⟨false, fromTxid, toTxid⟩, f.site)
      | .error (.error (.diverged l r)) f =>
          -- the replica is never deleted up front: the restore replaces it
          if opts.autoReset then restoreSite c opts env.restore fromTxid f.site
          else (.error (.error (.diverged l r)), f.site)
      | .error halt f => (.error halt, f.site)

end Liters
