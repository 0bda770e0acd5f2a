import Liters.Writer.Lineage
import Liters.Maintenance.Operations

/-! # The device that owns a bucket

One writer does everything to its bucket: pushes, compactions, snapshots and retention (`writer.rs`,
`compaction.rs`). Each of these checks the lineage before its first request, and what it lists is
the bucket as its own requests left it. Any request may be lost, before it reaches the bucket or
behind it, and the process may be killed anywhere. -/

namespace Liters

/-- Files by the transaction they end at; of two that end at the same one the later in the listing
counts. -/
def byMaxTxid (files : List Stored) : SortedMap Bytes :=
  files.foldl (fun m s => m.insert s.maxTxid s.body) .empty

/-- Level 0 of a bucket as the upload protocol reads it. -/
def levelZero (b : Bucket) : SortedMap Bytes := byMaxTxid (b 0)

/-! ## What a process leaves -/

/-- What outlives the process. `sent` is a ghost: the requests that reached the bucket, newest
first, each with the bucket that it met. -/
structure Holdings where
  l0 : SortedMap Bytes := .empty
  verifiedPos : Option Nat := none
  bucket : Bucket := Bucket.empty
  sent : List (Bucket × Mutation) := []

/-- The PUT of a level-0 file. -/
def l0Put (createdAt : Nat → Option Int) (e : Nat × Bytes) : Mutation :=
  .put 0 ⟨e.1, e.1, createdAt e.1, e.2⟩

namespace Holdings

/-- A request reaches the bucket. -/
def request (h : Holdings) (m : Mutation) : Holdings :=
  { h with bucket := h.bucket.act m, sent := (h.bucket, m) :: h.sent }

/-- Requests one after the other. -/
def requests (h : Holdings) (ms : List Mutation) : Holdings := ms.foldl request h

/-- The device as the upload protocol sees it. -/
def device (h : Holdings) : Device where
  l0 := h.l0
  verifiedPos := h.verifiedPos
  bucket := levelZero h.bucket

/-- What a piece of the upload protocol leaves: its local files, and its PUTs made one after the
other. -/
def after (h : Holdings) (createdAt : Nat → Option Int) (d : Device) : Holdings :=
  { h.requests (d.puts.reverse.map (l0Put createdAt))
    with l0 := d.l0, verifiedPos := d.verifiedPos }

end Holdings

/-! ## Running operations -/

/-- A running operation of the owner. -/
structure Operating where
  mem : Memory
  held : Holdings
  fates : List Fate

/-- Why an operation of the owner ends early. -/
inductive OwnerStop where
  | writer (stop : Stop)
  | maintenance (e : MaintenanceError)

/-- An operation of the owner. -/
abbrev OwnerAct := EStateM OwnerStop Operating

/-- A piece of the upload protocol. It reads level 0 and what is local, and the PUTs it makes reach
the bucket. -/
def uploads {α : Type} (createdAt : Nat → Option Int) (act : Act α) : OwnerAct α := fun s =>
  match act ⟨s.mem, s.held.device, s.fates⟩ with
  | .ok a t => .ok a ⟨t.mem, s.held.after createdAt t.dev, t.fates⟩
  | .error stop t => .error (.writer stop) ⟨t.mem, s.held.after createdAt t.dev, t.fates⟩

/-- A request. One that fails may have reached the bucket. -/
def send (m : Mutation) : OwnerAct Unit := fun s =>
  match s.fates with
  | [] => .ok () { s with held := s.held.request m }
  | .done :: fates => .ok () { s with held := s.held.request m, fates }
  | .failed part :: fates =>
      .error (.writer (.error .storage))
        { s with held := if part 0 then s.held.request m else s.held, fates }
  | .killed part :: fates =>
      .error (.writer .killed) { s with held := if part 0 then s.held.request m else s.held, fates }

/-- Requests one after the other. -/
def sendAll : List Mutation → OwnerAct Unit
  | [] => return ()
  | m :: ms => do
      send m
      sendAll ms

/-- A procedure of maintenance. -/
def procedure {α : Type} (p : Procedure α) : OwnerAct α := do
  let run := p ⟨(← get).held.bucket, 0⟩
  sendAll run.1
  match run.2 with
  | .ok a => return a
  | .error e => throw (.maintenance e)

/-! ## The calls of the owner -/

/-- When a backend creates the files it is sent: the level-0 files by transaction, the compacted
files by level. -/
structure Creation where
  l0 : Nat → Option Int
  level : Nat → Option Int

section
variable (c : Codec) (created : Creation)

/-- A push. -/
def ownerPush (sources : List (Option SyncSource)) : OwnerAct Unit := do
  let _ ← uploads created.l0 (push c sources)

/-- Compact the level below into `dstLevel`. -/
def ownerCompactLevel (dstLevel : Nat) : OwnerAct Bool := do
  uploads created.l0 ensureLineageChecked
  procedure (compactLevel c dstLevel (created.level dstLevel))

/-- A snapshot: convert the WAL, upload the backlog, and PUT the image of the database under the
local position. -/
def ownerSnapshot (source : Option SyncSource) (image : Nat → LtxFile) : OwnerAct (Option Nat) := do
  uploads created.l0 ensureLineageChecked
  uploads created.l0 (sync c source)
  let _ ← uploads created.l0 (uploadL0 c)
  let p ← uploads created.l0 (pos c)
  if p = 0 then return none
  else do
    send (.put snapshotLevel ⟨1, p, created.level snapshotLevel, (image p).bytes c⟩)
    return some p

/-- A maintenance run: due compactions, a snapshot when due, retention. -/
def ownerMaintain (opts : MaintenanceOptions) (now : Int) (source : Option SyncSource)
    (image : Nat → LtxFile) :
    OwnerAct Unit := do
  uploads created.l0 ensureLineageChecked
  let _ ← procedure (compactDue c opts now created.level 1 opts.levelIntervals)
  if levelDue (← get).held.bucket snapshotLevel opts.snapshotInterval now then
    let _ ← ownerSnapshot c created source image
  if opts.retentionEnabled then
    let _ ← procedure (enforceRetention opts now)

end

/-- The calls of an open writer. -/
inductive OwnerCall where
  | push (sources : List (Option SyncSource))
  | compactLevel (level : Nat) (low : 1 ≤ level) (high : level ≤ 8)
  | snapshot (source : Option SyncSource) (image : Nat → LtxFile)
  | maintain (opts : MaintenanceOptions) (levels : opts.levelIntervals.length ≤ 8) (now : Int)
      (source : Option SyncSource) (image : Nat → LtxFile)

/-- A call. -/
def OwnerCall.act (c : Codec) (created : Creation) : OwnerCall → OwnerAct Unit
  | .push sources => ownerPush c created sources
  | .compactLevel level _ _ => do
      let _ ← ownerCompactLevel c created level
  | .snapshot source image => do
      let _ ← ownerSnapshot c created source image
  | .maintain opts _ now source image => ownerMaintain c created opts now source image

/-! ## Runs -/

/-- The device that owns a bucket, and the writer that is open on it. -/
structure Owner where
  mem : Option Memory
  held : Holdings

namespace Owner

/-- Run a call of the open writer. -/
def run (act : OwnerAct Unit) (m : Memory) (held : Holdings) (fates : List Fate) : Owner :=
  match act ⟨m, held, fates⟩ with
  | .ok _ s => ⟨some s.mem, s.held⟩
  | .error (.writer .killed) s => ⟨none, s.held⟩
  | .error _ s => ⟨some s.mem, s.held⟩

/-- Open a writer; a failed open leaves none. -/
def openOn (held : Holdings) (fates : List Fate) : Owner :=
  match uploads (fun _ => none) openWriter
    ⟨{ verifiedPos := 0, verifiedPosProvisional := false }, held, fates⟩ with
  | .ok _ s => ⟨some s.mem, s.held⟩
  | .error _ s => ⟨none, s.held⟩

/-- What the owner does: open, call, and be killed or closed at any time. -/
inductive Step (c : Codec) : Owner → Owner → Prop where
  | openWriter (held : Holdings) (fates : List Fate) : Step c ⟨none, held⟩ (openOn held fates)
  | call (m : Memory) (held : Holdings) (call : OwnerCall) (created : Creation)
      (fates : List Fate) :
      Step c ⟨some m, held⟩ (run (call.act c created) m held fates)
  | kill (m : Memory) (held : Holdings) : Step c ⟨some m, held⟩ ⟨none, held⟩

/-- The states that the owner reaches from a fresh directory and an empty bucket. -/
inductive Run (c : Codec) : Owner → Prop where
  | start : Run c ⟨none, {}⟩
  | step {o o' : Owner} (hr : Run c o) (hs : Step c o o') : Run c o'

end Owner

end Liters
