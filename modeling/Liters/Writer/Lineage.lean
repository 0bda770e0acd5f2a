import Liters.Foundation.Effects
import Liters.Ltx.File

/-! # The writer's upload protocol

The part of the writer (`writer.rs`, `meta.rs`) that moves local level-0 files into the bucket: the
verified position and its file, the once-per-session lineage check with its rebaseline, the upload
loop and the pruning of local files. What the WAL conversion writes is left open here: any level-0
file behind the local position.

Every effect on the disk or the bucket consumes a `Fate`. An effect that fails makes the operation
return an error, which keeps the memory; one in which the process is killed loses it. -/

namespace Liters

/-- How an effect goes. Of one that is not done, `part` says which part took place: entry 0 for a
single write, the transaction ids for a batch of deletes. -/
inductive Fate where
  | done
  | failed (part : Nat → Bool)
  | killed (part : Nat → Bool)

/-- The errors an operation of the writer returns here. -/
inductive WriterError where
  | io
  | cancelled
  | storage
  | localLtx (txid : Nat)
  | bucketMoved (bucket verified : Nat)

/-- The message of an error that the protocol itself raises. -/
def WriterError.text : WriterError → String
  | .bucketMoved bucket verified =>
      "bucket moved outside this session's verified position (bucket at " ++ hexPad 16 bucket ++
        ", session verified " ++ hexPad 16 verified ++ "): foreign writer suspected; " ++
        "the next push re-runs the lineage check"
  | .localLtx txid => "local ltx " ++ hexPad 16 txid
  | .io => "io"
  | .cancelled => "operation cancelled"
  | .storage => "storage"

/-- Why an operation ends early: it returns an error, or the process is gone. -/
inductive Stop where
  | error (e : WriterError)
  | killed

/-- What the writer holds in memory. -/
structure Memory where
  /-- Bucket-side maximum; `none` is unknown. -/
  remoteTxid : Option Nat := none
  /-- The highest transaction this lineage knows it has placed in the bucket. -/
  verifiedPos : Nat
  verifiedPosProvisional : Bool
  lineageChecked : Bool := false
  cachedPos : Option Nat := none
  syncedToWalEnd : Bool := false

/-- What outlives the process. The last three fields are ghosts: every PUT of this writer that took
effect, every local file that pruning removed, and the transaction of another party's file that was
adopted as a baseline and is not behind an own upload yet. -/
structure Device where
  l0 : SortedMap Bytes := .empty
  verifiedPos : Option Nat := none
  bucket : SortedMap Bytes := .empty
  puts : List (Nat × Bytes) := []
  pruned : List (Nat × Bytes) := []
  adopted : Option Nat := none

/-- A running operation. -/
structure Session where
  mem : Memory
  dev : Device
  fates : List Fate

/-- An operation of the writer. -/
abbrev Act := EStateM Stop Session

/-! ## Effects -/

/-- The fate of the next effect; beyond the given ones all is done. -/
def nextFate : Act Fate := fun s =>
  match s.fates with
  | [] => .ok .done s
  | fate :: fates => .ok fate { s with fates }

/-- An effect whose failure ends the operation with `e`. -/
def effect (full : Session → Session) (partly : (Nat → Bool) → Session → Session)
    (e : WriterError) :
    Act Unit := do
  match ← nextFate with
  | .done => modify full
  | .failed part => do
      modify (partly part)
      throw (.error e)
  | .killed part => do
      modify (partly part)
      throw .killed

/-- An effect whose failure is ignored. -/
def bestEffort (full : Session → Session) (partly : (Nat → Bool) → Session → Session) :
    Act Unit := do
  match ← nextFate with
  | .done => modify full
  | .failed part => modify (partly part)
  | .killed part => do
      modify (partly part)
      throw .killed

/-- An effect that only reads. -/
def readOnly (e : WriterError) : Act Unit := effect id (fun _ => id) e

section
variable {s : Session} {Q : Unit → Session → Prop} {E : Stop → Session → Prop}

/-- What follows an effect: all of it, or a part of it and the end of the operation. -/
theorem spec_effect {full : Session → Session} {partly : (Nat → Bool) → Session → Session}
    {e : WriterError} (hdone : ∀ fates, Q () (full { s with fates }))
    (hpart : ∀ stop part fates, E stop (partly part { s with fates })) :
    Spec (effect full partly e) s Q E := by
  rw [effect, spec_bind]
  rcases hf : s.fates with - | ⟨fate, fates⟩
  · simp only [Spec, nextFate, hf]
    exact hdone s.fates
  · simp only [Spec, nextFate, hf]
    cases fate with
    | done => exact hdone fates
    | failed part => exact hpart _ part fates
    | killed part => exact hpart _ part fates

/-- What follows an effect whose failure is ignored. -/
theorem spec_bestEffort {full : Session → Session} {partly : (Nat → Bool) → Session → Session}
    (hdone : ∀ fates, Q () (full { s with fates }))
    (hpart : ∀ part fates, Q () (partly part { s with fates }))
    (hkill : ∀ part fates, E .killed (partly part { s with fates })) :
    Spec (bestEffort full partly) s Q E := by
  rw [bestEffort, spec_bind]
  rcases hf : s.fates with - | ⟨fate, fates⟩
  · simp only [Spec, nextFate, hf]
    exact hdone s.fates
  · simp only [Spec, nextFate, hf]
    cases fate with
    | done => exact hdone fates
    | failed part => exact hpart part fates
    | killed part => exact hkill part fates

/-- A step that reads only may stop, and takes fates only. -/
theorem spec_readOnly {e : WriterError} (hdone : ∀ fates, Q () { s with fates })
    (hstop : ∀ stop fates, E stop { s with fates }) : Spec (readOnly e) s Q E :=
  spec_effect hdone fun stop _ fates => hstop stop fates

end

namespace Session

/-- A local level-0 file appears under its final name. -/
def putL0 (txid : Nat) (body : Bytes) (s : Session) : Session :=
  { s with dev := { s.dev with l0 := s.dev.l0.insert txid body } }

/-- Remove the local level-0 files that `p` selects. -/
def removeL0 (p : Nat → Bool) (s : Session) : Session :=
  { s with dev := { s.dev with l0 := s.dev.l0.filterKeys fun txid => !p txid } }

/-- The verified-pos file is replaced. -/
def persist (txid : Nat) (s : Session) : Session :=
  { s with dev := { s.dev with verifiedPos := some txid } }

/-- A PUT takes effect. -/
def put (txid : Nat) (body : Bytes) (s : Session) : Session :=
  { s with dev := { s.dev with
      bucket := s.dev.bucket.insert txid body
      puts := (txid, body) :: s.dev.puts
      adopted := none } }

/-- Pruning removes the local files that `p` selects. -/
def prune (p : Nat → Bool) (s : Session) : Session :=
  { s with dev := { s.dev with
      l0 := s.dev.l0.filterKeys fun txid => !p txid
      pruned := s.dev.l0.entries.filter (fun e => p e.1) ++ s.dev.pruned } }

/-- Change the memory. -/
def setMem (f : Memory → Memory) (s : Session) : Session := { s with mem := f s.mem }

/-- The newest file of the bucket becomes the baseline; it counts as adopted unless it is a file
that this writer uploaded. -/
def markAdopted (txid : Nat) (body : Bytes) (s : Session) : Session :=
  { s with dev := { s.dev with
      adopted := if (txid, body) ∈ s.dev.puts then none else some txid } }

end Session

/-! ## The local position -/

section
variable (c : Codec)

/-- The position of the newest local level-0 file, 0 if there is none. -/
def metaPos : Act Nat := do
  readOnly .io
  let l0 := (← get).dev.l0
  match l0.find? l0.maxKey with
  | none => return 0
  | some body =>
      match verifyFile c body with
      | .ok (hdr, _, _) => return hdr.maxTxid.toNat
      | .error _ => throw (.error (.localLtx l0.maxKey))

/-- The local position, derived once and then cached. -/
def pos : Act Nat := do
  match (← get).mem.cachedPos with
  | some p => return p
  | none => do
      let p ← metaPos c
      modify (.setMem fun m => { m with cachedPos := some p })
      return p

/-- What a WAL conversion would write: a level-0 file for whatever transaction comes next. -/
structure SyncSource where
  file : Nat → LtxFile
  txid : ∀ t, 1 ≤ t → t < 2 ^ 64 → (file t).hdr.minTxid.toNat = t ∧ (file t).hdr.maxTxid.toNat = t
  walEnd : Bool

/-- One WAL conversion: nothing new, or the level-0 file behind the position. A failure may leave
the file in place, or forget the cached position. -/
def sync : Option SyncSource → Act Unit
  | none => do
      let _ ← pos c
      readOnly .io
  | some source => do
      let p ← pos c
      if p + 1 < 2 ^ 64 then
        let install := Session.putL0 (p + 1) ((source.file (p + 1)).bytes c)
        effect
          (fun s => (install s).setMem fun m =>
            { m with cachedPos := some (p + 1), syncedToWalEnd := source.walEnd })
          (fun part s =>
            if part 0 then install s
            else if part 1 then s.setMem fun m => { m with cachedPos := none } else s)
          .io
      else throw (.error .io)

/-! ## The lineage check -/

/-- The highest transaction of level 0 in the bucket, 0 if it is empty. -/
def listBucketMax : Act Nat := do
  readOnly .storage
  return (← get).dev.bucket.maxKey

/-- Wipe the local level-0 directory. -/
def clearL0 : Act Unit := effect (.removeL0 fun _ => true) Session.removeL0 .io

/-- Write the verified-pos file, best effort. -/
def writeVerifiedPos (txid : Nat) : Act Unit :=
  bestEffort (.persist txid) fun part s => if part 0 then s.persist txid else s

/-- Wipe local level-0 files and adopt the newest remote one. -/
def rebaselineFromRemote (remoteMax : Nat) : Act Unit := do
  readOnly .cancelled
  clearL0
  modify (.setMem fun m => { m with cachedPos := none })
  readOnly .storage
  match (← get).dev.bucket.find? remoteMax with
  | none => throw (.error .storage)
  | some body => do
      effect (.putL0 remoteMax body)
        (fun part s => if part 0 then s.putL0 remoteMax body else s) .io
      modify (.setMem fun m => { m with cachedPos := none, syncedToWalEnd := false })
      modify (.markAdopted remoteMax body)

/-- Whether a bucket that ends at `remoteMax` tells a history this lineage did not write. -/
def foreign (m : Memory) (remoteMax : Nat) : Bool :=
  if m.verifiedPosProvisional then remoteMax > m.verifiedPos else remoteMax ≠ m.verifiedPos

/-- Discard the local history: adopt what the bucket holds or, if it was wiped, start over. -/
def discardLocal (remoteMax : Nat) : Act Unit := do
  match (← get).dev.bucket.find? remoteMax with
  | some _ => rebaselineFromRemote remoteMax
  | none => do
      clearL0
      modify (.setMem fun m => { m with cachedPos := none, syncedToWalEnd := false })

/-- Foreign data. -/
def acceptForeign (remoteMax : Nat) : Act Unit := do
  discardLocal remoteMax
  modify (.setMem fun m => { m with verifiedPos := remoteMax })
  writeVerifiedPos remoteMax

/-- Own data: align the baseline, and repair the verified-pos file where it is absent or stale. -/
def acceptOwn (remoteMax : Nat) : Act Unit := do
  modify (.setMem fun m => { m with verifiedPos := remoteMax })
  if (← get).dev.verifiedPos = some remoteMax then return ()
  else writeVerifiedPos remoteMax

/-- Compare the bucket with the baseline. -/
def settleLineage (remoteMax : Nat) : Act Unit := do
  if foreign (← get).mem remoteMax then acceptForeign remoteMax else acceptOwn remoteMax

/-- The once-per-session check before the first bucket mutation. -/
def ensureLineageChecked : Act Unit := do
  if (← get).mem.lineageChecked then return ()
  else do
    readOnly .cancelled
    let remoteMax ← listBucketMax
    settleLineage remoteMax
    modify (.setMem fun m => { m with
      verifiedPosProvisional := false, remoteTxid := some remoteMax, lineageChecked := true })

/-! ## Uploads -/

/-- Forget where the bucket ends. -/
def forgetRemote : Session → Session := .setMem fun m => { m with remoteTxid := none }

/-- This lineage just placed `cursor` in the bucket. -/
def advanceVerified (cursor : Nat) : Act Unit := do
  if (← get).mem.verifiedPos < cursor then do
    modify (.setMem fun m => { m with verifiedPos := cursor })
    writeVerifiedPos cursor
  else return ()

/-- Upload `n` files behind `cursor`; returns the last one. -/
def uploadLoop : Nat → Nat → Act Nat
  | 0, cursor => return cursor
  | n + 1, cursor => do
      effect id (fun _ => forgetRemote) .cancelled
      match (← get).dev.l0.find? (cursor + 1) with
      | none => do
          modify forgetRemote
          throw (.error (.localLtx (cursor + 1)))
      | some body => do
          effect (.put (cursor + 1) body)
            (fun part s => forgetRemote (if part 0 then s.put (cursor + 1) body else s)) .storage
          modify (.setMem fun m => { m with remoteTxid := some (cursor + 1) })
          advanceVerified (cursor + 1)
          uploadLoop n (cursor + 1)

/-- Where the bucket ends, as far as this session knows. -/
def remoteCursor : Act Nat := do
  match (← get).mem.remoteTxid with
  | some t => return t
  | none => do
      let t ← listBucketMax
      let verified := (← get).mem.verifiedPos
      if t = verified then do
        modify (.setMem fun m => { m with remoteTxid := some t })
        return t
      else do
        -- a foreign writer, or an upload of this one whose answer was lost
        modify (.setMem fun m => { m with lineageChecked := false })
        throw (.error (.bucketMoved t verified))

/-- Upload the local level-0 files the bucket is missing; returns where the bucket ends. -/
def uploadL0 : Act Nat := do
  let remote ← remoteCursor
  let localPos ← pos c
  uploadLoop (localPos - remote) remote

/-- Delete local level-0 files below `before`, the newest excepted. Failed deletes are ignored. -/
def pruneL0 (before : Nat) : Act Unit := do
  let newest := (← get).dev.l0.maxKey
  let stale := fun txid => decide (txid < before) && txid != newest
  bestEffort (.prune stale) fun part => .prune fun txid => stale txid && part txid

/-! ## Operations and runs -/

/-- WAL conversions one after the other: one per push, and more around a checkpoint. -/
def syncAll : List (Option SyncSource) → Act Unit
  | [] => return ()
  | source :: sources => do
      sync c source
      syncAll sources

/-- A push: convert the WAL, check the lineage, upload, prune. -/
def push (sources : List (Option SyncSource)) : Act Nat := do
  readOnly .cancelled
  syncAll c sources
  readOnly .cancelled
  ensureLineageChecked
  let remoteTxid ← uploadL0 c
  pruneL0 remoteTxid
  pos c

/-- The lineage baseline comes from the verified-pos file, else from the local files; a fresh
directory pins the lineage at zero. -/
def readBaseline : Act Unit := do
  match (← get).dev.verifiedPos with
  | some t => modify (.setMem fun _ => { verifiedPos := t, verifiedPosProvisional := false })
  | none => do
      let l0 := (← get).dev.l0
      if (l0.find? l0.maxKey).isSome then
        modify (.setMem fun _ => { verifiedPos := l0.maxKey, verifiedPosProvisional := true })
      else do
        effect (.persist 0) (fun part s => if part 0 then s.persist 0 else s) .io
        modify (.setMem fun _ => { verifiedPos := 0, verifiedPosProvisional := false })

/-- Open a writer. Nothing of this touches the bucket. -/
def openWriter : Act Unit := do
  readOnly .io
  readBaseline
  readOnly .io

end

/-- A device, and the writer that is open on it. -/
structure Host where
  mem : Option Memory
  dev : Device

namespace Host

/-- Run an operation of the open writer. -/
def run {α : Type} (act : Act α) (m : Memory) (dev : Device) (fates : List Fate) : Host :=
  match act ⟨m, dev, fates⟩ with
  | .ok _ s => ⟨some s.mem, s.dev⟩
  | .error (.error _) s => ⟨some s.mem, s.dev⟩
  | .error .killed s => ⟨none, s.dev⟩

/-- Open a writer; a failed open leaves none. -/
def openOn (dev : Device) (fates : List Fate) : Host :=
  match openWriter ⟨{ verifiedPos := 0, verifiedPosProvisional := false }, dev, fates⟩ with
  | .ok _ s => ⟨some s.mem, s.dev⟩
  | .error _ s => ⟨none, s.dev⟩

/-- What a sole writer does: open, push, and be killed or closed at any time. -/
inductive Step (c : Codec) : Host → Host → Prop where
  | openWriter (dev : Device) (fates : List Fate) : Step c ⟨none, dev⟩ (openOn dev fates)
  | push (m : Memory) (dev : Device) (sources : List (Option SyncSource)) (fates : List Fate) :
      Step c ⟨some m, dev⟩ (run (Liters.push c sources) m dev fates)
  | kill (m : Memory) (dev : Device) : Step c ⟨some m, dev⟩ ⟨none, dev⟩

/-- The states that a sole writer reaches from a fresh directory and an empty bucket. -/
inductive SoleRun (c : Codec) : Host → Prop where
  | start : SoleRun c ⟨none, {}⟩
  | step {h h' : Host} (hr : SoleRun c h) (hs : Step c h h') : SoleRun c h'

end Host

/-- A database of one page that changes in every transaction. -/
def onePageSource : SyncSource where
  file t := onePageRange (txidOf t) (txidOf t) (txidOf_ne_zero t) (txidOf_le t)
  txid _ hpos hlt := ⟨toNat_txidOf hpos hlt, toNat_txidOf hpos hlt⟩
  walEnd := true

end Liters
