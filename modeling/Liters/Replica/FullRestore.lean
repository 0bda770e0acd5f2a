import Liters.Foundation.ByteFile
import Liters.Foundation.Effects
import Liters.Ltx.Meaning
import Liters.Ltx.Txid
import Liters.Maintenance.Bucket

/-! # Full restores

What the replica side (`replica.rs`) keeps on disk, and how it replaces all of it: `full_restore`
plans, merges and materialises a new image next to the old one, renames it into place, has SQLite
check it and then writes the position file. Every step may fail, be cancelled or be the last one of
the process; the surroundings say how each goes and what the bucket holds when it is asked.

`fullRestore_disk` says what is left on disk in every case. -/

namespace Liters

/-! ## The replica on disk -/

/-- Errors of the replica side. -/
inductive ReplicaError where
  | sqlite
  | ltx (e : LtxError)
  | storage
  | notFound (level minTxid maxTxid : Nat)
  | io
  | diverged (localTxid remote : Nat)
  | txNotAvailable
  | lockBusy
  | cancelled
  /-- The position file holds something else than a TXID. -/
  | txidFile (text : List Char)
  /-- There is a database without a position. -/
  | unresumable
  | other (msg : String)

/-- The texts of the errors that the replica side makes itself, for a database file at a path.
`debug` is how a text is printed in quotes. -/
def ReplicaError.text (dbPath : String) (debug : String → String) : ReplicaError → Option String
  | .diverged localTxid remote => some ("replica diverged: local txid " ++ hexPad 16 localTxid
      ++ " ahead of bucket max " ++ hexPad 16 remote)
  | .txNotAvailable => some "transaction not available"
  | .cancelled => some "operation cancelled"
  | .txidFile text =>
      some ("parse txid file " ++ debug (dbPath ++ "-txid") ++ ": " ++ debug (String.ofList text))
  | .unresumable =>
      some ("replica exists but has no -txid sidecar; delete " ++ dbPath ++ " to re-restore")
  | .other msg => some msg
  | _ => none

/-- Why an operation ends early: it returns an error, or the process is gone. -/
inductive Halt where
  | error (e : ReplicaError)
  | killed

/-- Post-restore integrity checking. -/
inductive IntegrityCheck where
  | none
  | quick
  | full
  deriving DecidableEq, Repr

/-- The options of a replica. -/
structure ReplicaOptions where
  integrityCheck : IntegrityCheck
  useFileLocks : Bool
  autoReset : Bool

/-- The files that make up a replica: the database and its position file. -/
structure Disk where
  db : Option Bytes
  txid : Option (List Char)

/-- The content of a position file. -/
def txidLine (txid : Nat) : List Char := txidText txid ++ ['\n']

/-- The position on disk; zero without a position file. -/
def readTxidFile (d : Disk) : Except ReplicaError Nat :=
  match d.txid with
  | none => .ok 0
  | some text =>
      match parseTxid (trim text) with
      | some txid => .ok txid
      | none => .error (.txidFile text)

/-- A position file reads back its position. -/
theorem readTxidFile_line {d : Disk} {txid : Nat} (htxid : txid < 2 ^ 64)
    (h : d.txid = some (txidLine txid)) : readTxidFile d = .ok txid := by
  have hword := word_txidText htxid
  have htrim : trim (txidLine txid) = txidText txid := by
    rw [txidLine, trim_append_singleton (by decide) hword.ne_nil, trim_word hword]
    intro x hx
    exact isSpace_of_word hword x (List.mem_of_head? hx)
  rw [readTxidFile, h]
  dsimp only
  rw [htrim, parseTxid_txidText htxid]

/-- What the next sync does with a replica on disk. -/
inductive SyncRoute where
  | restore
  | unresumable
  | incremental (txid : Nat)
  deriving DecidableEq

/-- The first decision of `sync_with`. -/
def syncRoute (opts : ReplicaOptions) (d : Disk) : Except ReplicaError SyncRoute :=
  match d.db with
  | none => .ok .restore
  | some _ =>
      match readTxidFile d with
      | .error e => .error e
      | .ok 0 => if opts.autoReset then .ok .restore else .ok .unresumable
      | .ok (txid + 1) => .ok (.incremental (txid + 1))

/-- Present an image as a rollback-journal database: the two version bytes of its header. -/
def presentAsRollbackJournal (image : Bytes) : Bytes :=
  if image.length < 100 then image else pwrite image 18 [1, 1]

/-! ## The surroundings of a restore -/

/-- How a step goes: it is done, it fails without an effect, or the process is killed in it, before
or after its effect. -/
inductive Turn where
  | done
  | failed
  | killed (took : Bool)

/-- The steps of a restore, in order. Files of the plan are numbered from zero. -/
inductive RestorePoint where
  | list (level : Nat)
  | cancelOpen (i : Nat)
  | openFile (i : Nat)
  | createDirs
  | createCompacted
  | writeCompacted
  | createTmp
  | openCompacted
  | writeTmp
  | presentJournal
  | syncTmp
  | cancelRename
  | rename
  | syncParent
  | removeWal
  | removeShm
  | openCheck
  | queryCheck
  | removeDb
  | createTxid
  | writeTxid
  | syncTxid
  | renameTxid
  | syncTxidParent
  deriving DecidableEq

/-- The surroundings of a restore: the bucket at each request, how each step goes, and what SQLite
answers to the integrity check. -/
structure RestoreEnv where
  bucket : RestorePoint → Bucket
  turn : RestorePoint → Turn
  verdict : String

namespace RestoreEnv

/-- A step that leaves the replica alone. -/
def step (env : RestoreEnv) (p : RestorePoint) (e : ReplicaError) : Except Halt Unit :=
  match env.turn p with
  | .done => .ok ()
  | .failed => .error (.error e)
  | .killed _ => .error .killed

/-- Such steps one after the other. -/
def steps (env : RestoreEnv) (e : ReplicaError) : List RestorePoint → Except Halt Unit
  | [] => .ok ()
  | p :: ps => do
      env.step p e
      env.steps e ps

/-- A step that changes the replica. -/
def act (env : RestoreEnv) (p : RestorePoint) (e : ReplicaError) (f : Disk → Disk) :
    EStateM Halt Disk Unit :=
  match env.turn p with
  | .done => modify f
  | .failed => throw (.error e)
  | .killed took => do
      if took then modify f
      throw .killed

/-- A step whose failure is ignored. -/
def bestEffort (env : RestoreEnv) (p : RestorePoint) (f : Disk → Disk) : EStateM Halt Disk Unit :=
  match env.turn p with
  | .done => modify f
  | .failed => pure ()
  | .killed took => do
      if took then modify f
      throw .killed

/-- The files listed, each level as it was when it was listed. -/
def listed (env : RestoreEnv) : Bucket := fun level => env.bucket (.list level) level

end RestoreEnv

/-! ## The restore -/

/-- An error of the merge or the planner. -/
def liftError {ε α : Type} (f : ε → ReplicaError) : Except ε α → Except Halt α
  | .ok a => .ok a
  | .error e => .error (.error (f e))

/-- An error of the planner. -/
def planError : PlanError → ReplicaError
  | .txNotAvailable => .txNotAvailable
  | .nonContiguous upTo next => .other (PlanError.nonContiguous upTo next).text

/-- The size of a listed file. -/
def Bucket.sizeOf (b : Bucket) (info : FileInfo) : Nat :=
  ((b.openLtxFile info.level info.minTxid info.maxTxid).getD []).length

/-- The refusal of a file that is too short. -/
def invalidLtxFile (info : FileInfo) (size : Nat) : ReplicaError :=
  .other ("invalid ltx file: level=" ++ toString info.level ++ " min=" ++ hexPad 16 info.minTxid
    ++ " max=" ++ hexPad 16 info.maxTxid ++ " has size " ++ toString size ++ " bytes")

/-- No file of the plan is shorter than a header. -/
def checkSizes (b : Bucket) : List FileInfo → Except Halt Unit
  | [] => .ok ()
  | info :: infos =>
      if b.sizeOf info < headerSize then .error (.error (invalidLtxFile info (b.sizeOf info)))
      else checkSizes b infos

/-- Open the files of the plan from number `i` on. -/
def openPlan (env : RestoreEnv) : Nat → List FileInfo → Except Halt (List Bytes)
  | _, [] => .ok []
  | i, info :: infos => do
      env.step (.cancelOpen i) .cancelled
      env.step (.openFile i) .storage
      match (env.bucket (.openFile i)).openLtxFile info.level info.minTxid info.maxTxid with
      | none => .error (.error (.notFound info.level info.minTxid info.maxTxid))
      | some body => do
          let bodies ← openPlan env (i + 1) infos
          return body :: bodies

/-- The levels in the order in which the planner lists them. -/
def listedLevels : List Nat := snapshotLevel :: planLevels

/-- The part of a restore that leaves the replica alone: the new image and its transaction. -/
def prepare (c : Codec) (env : RestoreEnv) : Except Halt (Bytes × Nat) := do
  env.steps .storage (listedLevels.map .list)
  let plan ← liftError planError (calcRestorePlan env.listed.listing 0)
  checkSizes env.listed plan
  let rdrs ← openPlan env 0 plan
  env.steps .io [.createDirs, .createCompacted]
  let (merged, _, _) ← liftError .ltx (compact c headerFlagNoChecksum false rdrs)
  env.steps .io [.writeCompacted, .createTmp, .openCompacted]
  let image ← liftError .ltx (decodeDatabaseTo c merged)
  env.steps .io [.writeTmp, .presentJournal, .syncTmp]
  env.step .cancelRename .cancelled
  return (presentAsRollbackJournal image, (plan.getLast?.map FileInfo.maxTxid).getD 0)

/-- `PRAGMA quick_check` or `integrity_check` over the image in place; one that fails is removed. -/
def checkIntegrity (opts : ReplicaOptions) (env : RestoreEnv) : EStateM Halt Disk Unit :=
  if opts.integrityCheck = .none then pure ()
  else do
    env.act .openCheck .sqlite id
    env.act .queryCheck .sqlite id
    if env.verdict ≠ "ok" then do
      env.bestEffort .removeDb fun d => { d with db := none }
      throw (.error (.other ("post-restore integrity check failed: " ++ env.verdict)))

/-- Write the position file: next to it first, then a rename. -/
def writeTxidFile (env : RestoreEnv) (txid : Nat) : EStateM Halt Disk Unit := do
  env.act .createTxid .io id
  env.act .writeTxid .io id
  env.act .syncTxid .io id
  env.act .renameTxid .io fun d => { d with txid := some (txidLine txid) }
  env.bestEffort .syncTxidParent id

/-- What the restore does once the image is in place. -/
def settle (opts : ReplicaOptions) (env : RestoreEnv) (txid : Nat) : EStateM Halt Disk Nat := do
  env.bestEffort .syncParent id
  -- never leave stale side files next to a fresh image
  env.bestEffort .removeWal id
  env.bestEffort .removeShm id
  checkIntegrity opts env
  writeTxidFile env txid
  return txid

/-- Plan, merge, materialise, rename, check, write the position. -/
def fullRestore (c : Codec) (opts : ReplicaOptions) (env : RestoreEnv) : EStateM Halt Disk Nat := do
  match prepare c env with
  | .error halt => throw halt
  | .ok (image, txid) => do
      env.act .rename .io fun d => { d with db := some image }
      settle opts env txid

/-! ## What a restore leaves on disk -/

namespace RestoreEnv

/-- The step is done. -/
def Passes (env : RestoreEnv) (p : RestorePoint) : Prop := env.turn p = .done

/-- The step has its effect, if only just. -/
def Takes (env : RestoreEnv) (p : RestorePoint) : Prop :=
  env.turn p = .done ∨ env.turn p = .killed true

/-- The process outlives the step. -/
def Survives (env : RestoreEnv) (p : RestorePoint) : Prop :=
  env.turn p = .done ∨ env.turn p = .failed

/-- The image is in place and the process lives on to the integrity check. -/
structure ChecksIn (env : RestoreEnv) : Prop where
  rename : env.Passes .rename
  syncParent : env.Survives .syncParent
  removeWal : env.Survives .removeWal
  removeShm : env.Survives .removeShm

/-- SQLite gets to answer the integrity check. -/
structure Answered (opts : ReplicaOptions) (env : RestoreEnv) : Prop where
  asked : opts.integrityCheck ≠ .none
  openCheck : env.Passes .openCheck
  queryCheck : env.Passes .queryCheck

/-- No check, or one that passes. -/
def Accepts (opts : ReplicaOptions) (env : RestoreEnv) : Prop :=
  opts.integrityCheck = .none ∨ (Answered opts env ∧ env.verdict = "ok")

/-- The run gets as far as the position of the new image. -/
structure Labels (opts : ReplicaOptions) (env : RestoreEnv) : Prop where
  checksIn : env.ChecksIn
  accepts : Accepts opts env
  createTxid : env.Passes .createTxid
  writeTxid : env.Passes .writeTxid
  syncTxid : env.Passes .syncTxid
  renameTxid : env.Takes .renameTxid

/-- The run gets as far as a check that refuses the image, and removes it. -/
structure Removes (opts : ReplicaOptions) (env : RestoreEnv) : Prop where
  checksIn : env.ChecksIn
  answered : Answered opts env
  refused : env.verdict ≠ "ok"
  removeDb : env.Takes .removeDb

variable {env : RestoreEnv} {p : RestorePoint} {e : ReplicaError} {f : Disk → Disk} {d : Disk}
  {Q : Unit → Disk → Prop} {E : Halt → Disk → Prop}

/-- A step is done, or it took effect and failed, or it did nothing. -/
theorem spec_act (hdone : env.Passes p → Q () (f d))
    (htook : ¬ env.Passes p → env.Takes p → ∀ halt, E halt (f d))
    (hnot : ¬ env.Takes p → ∀ halt, E halt d) : Spec (env.act p e f) d Q E := by
  unfold act
  unfold Passes at hdone htook
  unfold Takes at htook hnot
  cases hp : env.turn p with
  | done => exact hdone hp
  | failed => exact hnot (by simp [hp]) _
  | killed took =>
      cases took with
      | false => exact hnot (by simp [hp]) _
      | true => exact htook (by simp [hp]) (by simp [hp]) _

/-- A step whose failure is ignored was done or not, if it survived. -/
theorem spec_bestEffort (hdone : env.Takes p → Q () (f d)) (hfailed : ¬ env.Takes p → Q () d)
    (htook : env.Takes p → ¬ env.Survives p → ∀ halt, E halt (f d))
    (hkilled : ¬ env.Takes p → ¬ env.Survives p → ∀ halt, E halt d) :
    Spec (env.bestEffort p f) d Q E := by
  unfold bestEffort
  unfold Takes at *
  unfold Survives at *
  cases hp : env.turn p with
  | done => exact hdone (by simp [hp])
  | failed => exact hfailed (by simp [hp])
  | killed took =>
      cases took with
      | false => exact hkilled (by simp [hp]) (by simp [hp]) _
      | true => exact htook (by simp [hp]) (by simp [hp]) _

/-- A step on the way that touches nothing. -/
theorem spec_act_id (hdone : env.Passes p → Q () d) (hnot : ¬ env.Passes p → ∀ halt, E halt d) :
    Spec (env.act p e id) d Q E := by
  unfold act
  unfold Passes at *
  cases hp : env.turn p with
  | done => exact hdone hp
  | failed => exact hnot (by simp [hp]) _
  | killed took =>
      cases took with
      | false => exact hnot (by simp [hp]) _
      | true => exact hnot (by simp [hp]) _

/-- Without an effect only survival matters. -/
theorem spec_bestEffort_id (hdone : env.Survives p → Q () d)
    (hnot : ¬ env.Survives p → ∀ halt, E halt d) : Spec (env.bestEffort p id) d Q E := by
  unfold bestEffort
  unfold Survives at *
  cases hp : env.turn p with
  | done => exact hdone (by simp [hp])
  | failed => exact hdone (by simp [hp])
  | killed took =>
      cases took with
      | false => exact hnot (by simp [hp]) _
      | true => exact hnot (by simp [hp]) _

end RestoreEnv

/-- What is left once an image was renamed over the database: it has its position, or it was refused
and removed, or it stands with the position from before. -/
inductive Replaced (opts : ReplicaOptions) (env : RestoreEnv) (image : Bytes) (txid : Nat)
    (old : Disk) :
    Disk → Prop where
  | labelled (h : env.Labels opts) :
      Replaced opts env image txid old ⟨some image, some (txidLine txid)⟩
  | removed (h : env.Removes opts) : Replaced opts env image txid old ⟨none, old.txid⟩
  | stale (hlabel : ¬ env.Labels opts) (hremove : ¬ env.Removes opts) :
      Replaced opts env image txid old ⟨some image, old.txid⟩

variable {c : Codec} {opts : ReplicaOptions} {env : RestoreEnv}

/-- The integrity check keeps the image, or leaves what a replaced one may be. -/
theorem checkIntegrity_spec (hin : env.ChecksIn) (image : Bytes) (txid : Nat) (old : Disk) :
    Spec (checkIntegrity opts env) ⟨some image, old.txid⟩
      (fun _ d => d = ⟨some image, old.txid⟩ ∧ env.Accepts opts)
      (fun _ d => Replaced opts env image txid old d) := by
  unfold checkIntegrity
  split
  · rename_i hnone
    exact ⟨rfl, .inl hnone⟩
  · rename_i hasked
    -- the image cannot be labelled any more once the check does not pass
    have hstale : ¬ (env.Answered opts) →
        Replaced opts env image txid old ⟨some image, old.txid⟩ := by
      intro hno
      refine .stale (fun h => ?_) fun h => hno h.answered
      rcases h.accepts with hnone | ⟨hans, -⟩
      · exact hasked hnone
      · exact hno hans
    refine Spec.bind (Q := fun _ d => d = ⟨some image, old.txid⟩ ∧ env.Passes .openCheck)
      (env.spec_act_id (fun hp => ⟨rfl, hp⟩) fun hp _ => hstale fun h => hp h.openCheck) ?_
    rintro - - ⟨rfl, hopen⟩
    refine Spec.bind (Q := fun _ d => d = ⟨some image, old.txid⟩ ∧ env.Passes .queryCheck)
      (env.spec_act_id (fun hp => ⟨rfl, hp⟩) fun hp _ => hstale fun h => hp h.queryCheck) ?_
    rintro - - ⟨rfl, hquery⟩
    have hans : env.Answered opts := ⟨hasked, hopen, hquery⟩
    split
    · rename_i hrefused
      have hremoved : env.Takes .removeDb → Replaced opts env image txid old ⟨none, old.txid⟩ :=
        fun htake => .removed ⟨hin, hans, hrefused, htake⟩
      have hleft : ¬ env.Takes .removeDb →
          Replaced opts env image txid old ⟨some image, old.txid⟩ := by
        intro hno
        refine .stale (fun h => ?_) fun h => hno h.removeDb
        rcases h.accepts with hnone | ⟨-, hok⟩
        · exact hasked hnone
        · exact hrefused hok
      refine Spec.bind (Q := fun _ d => Replaced opts env image txid old d)
        (env.spec_bestEffort hremoved hleft (fun h _ _ => hremoved h) fun h _ _ => hleft h) ?_
      intro _ d hd
      exact hd
    · rename_i hok
      exact ⟨rfl, .inr ⟨hans, not_not.mp hok⟩⟩

/-- The position is written, or the new image stands with the old one. -/
theorem writeTxidFile_spec (hin : env.ChecksIn) (haccepts : env.Accepts opts) (image : Bytes)
    (txid : Nat) (old : Disk) :
    Spec (writeTxidFile env txid) ⟨some image, old.txid⟩
      (fun _ d => Replaced opts env image txid old d)
      (fun _ d => Replaced opts env image txid old d) := by
  have hremove : ¬ env.Removes opts := by
    intro h
    rcases haccepts with hnone | ⟨-, hok⟩
    · exact h.answered.asked hnone
    · exact h.refused hok
  -- a failure before the rename leaves the old position beside the new image
  have hstale : ¬ env.Labels opts → Replaced opts env image txid old ⟨some image, old.txid⟩ :=
    fun h => .stale h hremove
  unfold writeTxidFile
  refine Spec.bind (Q := fun _ d => d = ⟨some image, old.txid⟩ ∧ env.Passes .createTxid)
    (env.spec_act_id (fun hp => ⟨rfl, hp⟩) fun hp _ => hstale fun h => hp h.createTxid) ?_
  rintro - - ⟨rfl, hcreate⟩
  refine Spec.bind (Q := fun _ d => d = ⟨some image, old.txid⟩ ∧ env.Passes .writeTxid)
    (env.spec_act_id (fun hp => ⟨rfl, hp⟩) fun hp _ => hstale fun h => hp h.writeTxid) ?_
  rintro - - ⟨rfl, hwrite⟩
  refine Spec.bind (Q := fun _ d => d = ⟨some image, old.txid⟩ ∧ env.Passes .syncTxid)
    (env.spec_act_id (fun hp => ⟨rfl, hp⟩) fun hp _ => hstale fun h => hp h.syncTxid) ?_
  rintro - - ⟨rfl, hsync⟩
  -- from the rename on the position is the new one
  have hlabelled : env.Takes .renameTxid →
      Replaced opts env image txid old ⟨some image, some (txidLine txid)⟩ :=
    fun htake => .labelled ⟨hin, haccepts, hcreate, hwrite, hsync, htake⟩
  refine Spec.bind (Q := fun _ d => Replaced opts env image txid old d)
    (env.spec_act (fun hp => hlabelled (.inl hp)) (fun _ h _ => hlabelled h)
      fun h _ => hstale fun hl => h hl.renameTxid) ?_
  intro _ d hd
  exact env.spec_bestEffort_id (fun _ => hd) fun _ _ => hd

/-- **What follows the rename** leaves one of three disks. -/
theorem settle_spec (hrename : env.Passes .rename) (image : Bytes) (txid : Nat) (old : Disk) :
    Spec (settle opts env txid) ⟨some image, old.txid⟩
      (fun _ d => Replaced opts env image txid old d)
      (fun _ d => Replaced opts env image txid old d) := by
  have hstale : ¬ env.ChecksIn → Replaced opts env image txid old ⟨some image, old.txid⟩ :=
    fun h => .stale (fun hl => h hl.checksIn) fun hr => h hr.checksIn
  unfold settle
  refine Spec.bind (Q := fun _ d => d = ⟨some image, old.txid⟩ ∧ env.Survives .syncParent)
    (env.spec_bestEffort_id (fun hp => ⟨rfl, hp⟩) fun hp _ => hstale fun h => hp h.syncParent) ?_
  rintro - - ⟨rfl, hparent⟩
  refine Spec.bind (Q := fun _ d => d = ⟨some image, old.txid⟩ ∧ env.Survives .removeWal)
    (env.spec_bestEffort_id (fun hp => ⟨rfl, hp⟩) fun hp _ => hstale fun h => hp h.removeWal) ?_
  rintro - - ⟨rfl, hwal⟩
  refine Spec.bind (Q := fun _ d => d = ⟨some image, old.txid⟩ ∧ env.Survives .removeShm)
    (env.spec_bestEffort_id (fun hp => ⟨rfl, hp⟩) fun hp _ => hstale fun h => hp h.removeShm) ?_
  rintro - - ⟨rfl, hshm⟩
  have hin : env.ChecksIn := ⟨hrename, hparent, hwal, hshm⟩
  refine Spec.bind (checkIntegrity_spec hin image txid old) ?_
  rintro - - ⟨rfl, haccepts⟩
  refine Spec.bind (writeTxidFile_spec hin haccepts image txid old) ?_
  intro _ d hd
  exact hd

/-- The replica after an operation. -/
def leftBy {α : Type} (x : EStateM Halt Disk α) (d : Disk) : Disk :=
  match x d with
  | .ok _ d' => d'
  | .error _ d' => d'

/-- What holds however a step ends holds of the disk it leaves. -/
theorem Spec.leftBy {α : Type} {x : EStateM Halt Disk α} {d : Disk} {R : Disk → Prop}
    (h : Spec x d (fun _ => R) fun _ => R) : R (leftBy x d) := by
  unfold Spec at h
  unfold Liters.leftBy
  cases hx : x d with
  | ok a d' =>
      rw [hx] at h
      exact h
  | error e d' =>
      rw [hx] at h
      exact h

/-- Without a new image, or without its rename, a restore leaves the replica as it was. -/
theorem fullRestore_kept (opts : ReplicaOptions) (old : Disk)
    (h : ∀ image txid, prepare c env = .ok (image, txid) → ¬ env.Takes .rename) :
    leftBy (fullRestore c opts env) old = old := by
  refine Spec.leftBy (R := fun d => d = old) ?_
  unfold fullRestore
  split
  · rfl
  · rename_i image txid hprep
    have hno := h image txid hprep
    refine Spec.bind (Q := fun _ _ => False) (env.spec_act (fun hp => hno (.inl hp))
      (fun _ htake => absurd htake hno) fun _ _ => rfl) ?_
    intro _ _ hfalse
    exact absurd hfalse not_false

/-- **What a restore leaves on disk** once its image was renamed over the database. -/
theorem fullRestore_disk (opts : ReplicaOptions) {image : Bytes} {txid : Nat}
    (hprep : prepare c env = .ok (image, txid)) (htake : env.Takes .rename) (old : Disk) :
    Replaced opts env image txid old (leftBy (fullRestore c opts env) old) := by
  refine Spec.leftBy (R := Replaced opts env image txid old) ?_
  unfold fullRestore
  rw [hprep]
  dsimp only
  have hstale : ¬ env.Passes .rename → Replaced opts env image txid old ⟨some image, old.txid⟩ :=
    fun h => .stale (fun hl => h hl.checksIn.rename) fun hr => h hr.checksIn.rename
  refine Spec.bind (Q := fun _ d => d = ⟨some image, old.txid⟩ ∧ env.Passes .rename)
    (env.spec_act (fun hp => ⟨rfl, hp⟩) (fun hp _ _ => hstale hp) fun h _ => absurd htake h) ?_
  rintro - - ⟨rfl, hpass⟩
  exact settle_spec hpass image txid old

/-- A restore that returns has put its image in place, with its position. -/
theorem fullRestore_returns (c : Codec) (opts : ReplicaOptions) (env : RestoreEnv) (d : Disk) :
    Spec (fullRestore c opts env) d
      (fun txid d' => ∃ image, prepare c env = .ok (image, txid) ∧ env.Passes .rename ∧
        d' = ⟨some image, some (txidLine txid)⟩) fun _ _ => True := by
  unfold fullRestore
  split
  · -- no image could be made
    trivial
  · rename_i image txid hprep
    refine Spec.bind (Q := fun _ d' => d'.db = some image ∧ env.Passes .rename)
      (env.spec_act (fun hp => ⟨rfl, hp⟩) (fun _ _ _ => trivial) fun _ _ => trivial) ?_
    rintro - d₁ ⟨hd₁, hrename⟩
    unfold settle
    refine Spec.bind (Q := fun _ d' => d'.db = some image) (env.spec_bestEffort_id (fun _ => hd₁)
      fun _ _ => trivial) fun _ d₂ hd₂ => ?_
    refine Spec.bind (Q := fun _ d' => d'.db = some image) (env.spec_bestEffort_id (fun _ => hd₂)
      fun _ _ => trivial) fun _ d₃ hd₃ => ?_
    refine Spec.bind (Q := fun _ d' => d'.db = some image) (env.spec_bestEffort_id (fun _ => hd₃)
      fun _ _ => trivial) fun _ d₄ hd₄ => ?_
    refine Spec.bind (Q := fun _ d' => d'.db = some image) ?_ fun _ d₅ hd₅ => ?_
    · -- the integrity check either accepts the image, or the restore fails
      unfold checkIntegrity
      split
      · exact hd₄
      · refine Spec.bind (Q := fun _ d' => d'.db = some image) (env.spec_act_id (fun _ => hd₄)
          fun _ _ => trivial) fun _ e₁ he₁ => ?_
        refine Spec.bind (Q := fun _ d' => d'.db = some image) (env.spec_act_id (fun _ => he₁)
          fun _ _ => trivial) fun _ e₂ he₂ => ?_
        split
        · exact Spec.bind (Q := fun _ _ => True) (env.spec_bestEffort (fun _ => trivial)
            (fun _ => trivial) (fun _ _ _ => trivial) fun _ _ _ => trivial) fun _ _ _ => trivial
        · exact he₂
    · refine Spec.bind (Q := fun _ d' => d' = ⟨some image, some (txidLine txid)⟩) ?_ ?_
      · -- the position is written last, beside the image
        unfold writeTxidFile
        refine Spec.bind (Q := fun _ d' => d'.db = some image) (env.spec_act_id (fun _ => hd₅)
          fun _ _ => trivial) fun _ e₁ he₁ => ?_
        refine Spec.bind (Q := fun _ d' => d'.db = some image) (env.spec_act_id (fun _ => he₁)
          fun _ _ => trivial) fun _ e₂ he₂ => ?_
        refine Spec.bind (Q := fun _ d' => d'.db = some image) (env.spec_act_id (fun _ => he₂)
          fun _ _ => trivial) fun _ e₃ he₃ => ?_
        refine Spec.bind (Q := fun _ d' => d' = ⟨some image, some (txidLine txid)⟩)
          (env.spec_act (fun _ => by rw [he₃]) (fun _ _ _ => trivial) fun _ _ => trivial) ?_
        rintro - - rfl
        exact env.spec_bestEffort_id (fun _ => rfl) fun _ _ => trivial
      · rintro - - rfl
        exact ⟨image, hprep, hrename, rfl⟩

/-! ## All or nothing -/

/-- What a restore promises of the replica it finds and the replica it leaves, `made` being the
image it makes and its transaction: the old replica, or the new one with its position, or no
database if there was none; never a new image under another position, and never a loss. -/
structure AllOrNothing (opts : ReplicaOptions) (made : Bytes → Nat → Prop) (old new : Disk) :
    Prop where
  pair : new = old ∨ (∃ image txid, made image txid ∧ new = ⟨some image, some (txidLine txid)⟩) ∨
    (old.db = none ∧ syncRoute opts new = .ok .restore)
  position : ∀ image txid, made image txid → new.db = some image →
    new = old ∨ new.txid = some (txidLine txid)
  kept : old.db ≠ none → new.db ≠ none

/-- A run that is not stopped between its two renames: the new image does not get into place, or it
gets its position, or it is refused and removed where no database was before. A run that is stopped
there does no harm if the image or the position was there already. -/
def RestoreEnv.Orderly (c : Codec) (opts : ReplicaOptions) (env : RestoreEnv) (old : Disk) : Prop :=
  ∀ image txid, prepare c env = .ok (image, txid) → env.Takes .rename →
    env.Labels opts ∨ (env.Removes opts ∧ old.db = none) ∨
      (¬ env.Removes opts ∧ (old.db = some image ∨ old.txid = some (txidLine txid)))

/-- A restore that changes nothing keeps its promise. -/
theorem AllOrNothing.refl (opts : ReplicaOptions) (made : Bytes → Nat → Prop) (d : Disk) :
    AllOrNothing opts made d d := ⟨.inl rfl, fun _ _ _ _ => .inl rfl, id⟩

/-- A new image under the position from before keeps the promise only if one of the two is the old
one. -/
theorem allOrNothing_stale_iff {made : Bytes → Nat → Prop} {image : Bytes} {txid : Nat}
    (hmade : ∀ image' txid', made image' txid' ↔ image' = image ∧ txid' = txid) (old : Disk) :
    AllOrNothing opts made old ⟨some image, old.txid⟩ ↔
      old.db = some image ∨ old.txid = some (txidLine txid) := by
  constructor
  · intro h
    rcases h.position image txid ((hmade _ _).mpr ⟨rfl, rfl⟩) rfl with hsame | hlabel
    · exact .inl (congrArg Disk.db hsame).symm
    · exact .inr hlabel
  · rintro (hdb | htxid)
    · rw [← hdb]
      exact .refl opts made old
    · rw [htxid]
      refine ⟨.inr (.inl ⟨image, txid, (hmade _ _).mpr ⟨rfl, rfl⟩, rfl⟩), ?_,
        fun _ => Option.some_ne_none image⟩
      intro image' txid' hm _
      obtain ⟨-, rfl⟩ := (hmade _ _).mp hm
      exact .inr rfl

/-- **Restores are all or nothing exactly when they are not stopped between their renames.**
Whatever the bucket shows, whatever replica there was, whatever the integrity check says and
wherever the run fails, is cancelled or dies, it keeps the promise if and only if it is orderly. -/
theorem fullRestore_allOrNothing_iff (c : Codec) (opts : ReplicaOptions) (env : RestoreEnv)
    (old : Disk) :
    AllOrNothing opts (fun image txid => prepare c env = .ok (image, txid)) old
        (leftBy (fullRestore c opts env) old) ↔
      env.Orderly c opts old := by
  by_cases hland : ∃ image txid, prepare c env = .ok (image, txid) ∧ env.Takes .rename
  · -- the image was renamed into place
    obtain ⟨image, txid, hprep, htake⟩ := hland
    have hmade : ∀ image' txid', prepare c env = .ok (image', txid') ↔
        image' = image ∧ txid' = txid := by
      intro image' txid'
      rw [hprep, Except.ok.injEq, Prod.mk.injEq]
      exact ⟨fun h => ⟨h.1.symm, h.2.symm⟩, fun h => ⟨h.1.symm, h.2.symm⟩⟩
    have horderly : env.Orderly c opts old ↔ env.Labels opts ∨ (env.Removes opts ∧ old.db = none) ∨
        (¬ env.Removes opts ∧ (old.db = some image ∨ old.txid = some (txidLine txid))) := by
      constructor
      · intro h
        exact h image txid hprep htake
      · intro h image' txid' hprep' _
        obtain ⟨rfl, rfl⟩ := (hmade _ _).mp hprep'
        exact h
    rw [horderly]
    have hdisk := fullRestore_disk opts hprep htake old
    generalize leftBy (fullRestore c opts env) old = new at hdisk ⊢
    cases hdisk with
    -- the new pair is there
    | labelled hlabels =>
        refine ⟨fun _ => .inl hlabels,
          fun _ => ⟨.inr (.inl ⟨image, txid, hprep, rfl⟩), ?_, fun _ => Option.some_ne_none image⟩⟩
        intro image' txid' hprep' _
        obtain ⟨-, rfl⟩ := (hmade _ _).mp hprep'
        exact .inr rfl
    -- the check refused the image: right only if there was nothing to keep
    | removed hremoves =>
        have hlabel : ¬ env.Labels opts := by
          intro h
          rcases h.accepts with hnone | ⟨-, hok⟩
          · exact hremoves.answered.asked hnone
          · exact hremoves.refused hok
        constructor
        · intro h
          refine .inr (.inl ⟨hremoves, ?_⟩)
          by_contra hdb
          exact h.kept hdb rfl
        · rintro (h | ⟨-, hdb⟩ | ⟨hno, -⟩)
          · exact absurd h hlabel
          · have hsame : (⟨none, old.txid⟩ : Disk) = old := by rw [← hdb]
            rw [hsame]
            exact .refl opts _ old
          · exact absurd hremoves hno
    -- the position is not written: the old one stays beside the new image
    | stale hlabel hremove =>
        rw [allOrNothing_stale_iff hmade old]
        constructor
        · exact fun h => .inr (.inr ⟨hremove, h⟩)
        · rintro (h | ⟨h, -⟩ | ⟨-, h⟩)
          · exact absurd h hlabel
          · exact absurd h hremove
          · exact h
  · -- nothing was renamed, and the old pair is there
    have hkept := fullRestore_kept opts old
      fun image txid hprep htake => hland ⟨image, txid, hprep, htake⟩
    rw [hkept]
    refine ⟨fun _ image txid hprep htake => absurd ⟨image, txid, hprep, htake⟩ hland,
      fun _ => .refl opts _ old⟩

/-- The surroundings of a restore without trouble from a bucket that stays as it is. -/
def calmEnv (b : Bucket) (verdict : String) : RestoreEnv where
  bucket _ := b
  turn _ := .done
  verdict := verdict

/-- In calm surroundings every step is done. -/
theorem calmEnv_steps (b : Bucket) (verdict : String) (e : ReplicaError) (ps : List RestorePoint) :
    (calmEnv b verdict).steps e ps = .ok () := by
  induction ps with
  | nil => rfl
  | cons p ps ih => exact ih

/-- Files of at least a header pass the check of sizes. -/
theorem checkSizes_eq_ok {b : Bucket} {infos : List FileInfo}
    (h : ∀ info ∈ infos, headerSize ≤ b.sizeOf info) : checkSizes b infos = .ok () := by
  induction infos with
  | nil => rfl
  | cons info infos ih =>
      have hle := h info (List.mem_cons_self ..)
      rw [checkSizes, if_neg (by omega), ih fun x hx => h x (List.mem_cons_of_mem _ hx)]

/-- In calm surroundings a plan opens the stored bodies. -/
theorem openPlan_calmEnv {b : Bucket} (verdict : String) {infos : List FileInfo} {rdrs : List Bytes}
    (h : List.Forall₂ (fun (info : FileInfo) body =>
      b.openLtxFile info.level info.minTxid info.maxTxid = some body) infos rdrs) (i : Nat) :
    openPlan (calmEnv b verdict) i infos = .ok rdrs := by
  induction h generalizing i with
  | nil => rfl
  | cons hopen _ ih =>
      rw [openPlan]
      show (match b.openLtxFile _ _ _ with
        | none => _
        | some body => _) = _
      rw [hopen]
      dsimp only
      rw [ih]
      rfl

/-- A restore without trouble makes the image of the plan's files. -/
theorem prepare_calmEnv {b : Bucket} (verdict : String) {infos : List FileInfo} {rdrs : List Bytes}
    {merged image : Bytes} {hdr : Header} {trailer : Trailer}
    (hplan : calcRestorePlan b.listing 0 = .ok infos)
    (hsizes : ∀ info ∈ infos, headerSize ≤ b.sizeOf info)
    (hopen : List.Forall₂ (fun (info : FileInfo) body =>
      b.openLtxFile info.level info.minTxid info.maxTxid = some body) infos rdrs)
    (hmerge : compact c headerFlagNoChecksum false rdrs = .ok (merged, hdr, trailer))
    (himage : decodeDatabaseTo c merged = .ok image) :
    prepare c (calmEnv b verdict)
      = .ok (presentAsRollbackJournal image, (infos.getLast?.map FileInfo.maxTxid).getD 0) := by
  have hlisted : (calmEnv b verdict).listed = b := rfl
  unfold prepare
  rw [calmEnv_steps, ok_bind, hlisted, hplan, liftError, ok_bind, checkSizes_eq_ok hsizes, ok_bind,
    openPlan_calmEnv verdict hopen, ok_bind, calmEnv_steps, ok_bind, hmerge, liftError, ok_bind]
  dsimp only
  rw [calmEnv_steps, ok_bind, himage, liftError, ok_bind, calmEnv_steps, ok_bind]
  rfl

/-- A bucket with a single snapshot. -/
def snapshotBucket (c : Codec) (f : LtxFile) : Bucket := fun level =>
  if level = snapshotLevel then [⟨1, f.hdr.maxTxid.toNat, none, f.bytes c⟩] else []

/-- The plan of the sample bucket is its snapshot. -/
theorem snapshotBucket_plan (c : Codec) (f : LtxFile) :
    calcRestorePlan (snapshotBucket c f).listing 0
      = .ok [⟨snapshotLevel, 1, f.hdr.maxTxid.toNat, none⟩] := by
  refine calcRestorePlan_snapshots rfl fun level hlevel => ?_
  have hne : level ≠ snapshotLevel := Nat.ne_of_lt hlevel
  rw [Bucket.listing, Bucket.ltxFiles, snapshotBucket, if_neg hne]
  rfl

/-- A complete snapshot alone in the bucket is restored. -/
theorem prepare_snapshotBucket (hc : c.Lawful) {f : LtxFile} (hs : f.hdr.isSnapshot)
    (hcomplete : f.patch.Complete f.lock) (verdict : String) :
    ∃ image, prepare c (calmEnv (snapshotBucket c f) verdict) =
      .ok (image, f.hdr.maxTxid.toNat) := by
  have hgrow : CoversChain f.lock 0 (patches [f]) := ⟨hcomplete, trivial⟩
  have hok : Compactable f [] := compactable_of_covers (.singleton f) hgrow fun _ => hcomplete
  have hself : List.Forall₂ (Summarizes f.lock) [f] [[f]] := .cons (.file f.lock f) .nil
  have hsum : Summarizes f.lock (mergedFile c f [] hok) [f] := summarizes_mergedFile hself hok
  have hdb := (hsum.decodeDatabaseTo_eq hc ⟨0, fun _ => []⟩ hgrow hs hcomplete).2.2
  have hopen : (snapshotBucket c f).openLtxFile snapshotLevel 1 f.hdr.maxTxid.toNat
      = some (f.bytes c) := by
    simp [Bucket.openLtxFile, snapshotBucket, Stored.key]
  have hsize : headerSize ≤ (f.bytes c).length := by
    rw [f.bytes_eq, List.length_append, Header.encode_length]
    omega
  refine ⟨_, prepare_calmEnv verdict (snapshotBucket_plan c f) ?_ (.cons hopen .nil)
    (compact_eq_mergedFile hc hok) hdb⟩
  intro info hinfo
  obtain rfl := List.mem_singleton.mp hinfo
  rw [Bucket.sizeOf, hopen]
  exact hsize

/-- The only page of a database without tables: the header, which begins with "SQLite format 3" and
counts free pages, and an empty leaf. -/
def emptyDatabase (freePages : UInt8) : Bytes :=
  [83, 81, 76, 105, 116, 101, 32, 102, 111, 114, 109, 97, 116, 32, 51] ++
    [0, 2, 0, 1, 1, 0, 64, 32, 32, 0, 0, 0, 1, 0, 0, 0, 1, 0, 0, 0, 0, 0, 0, 0, freePages, 0, 0, 0,
      1, 0, 0, 0, 4] ++
    List.replicate 8 0 ++ [0, 0, 0, 1] ++ List.replicate 32 0 ++ [0, 0, 0, 1, 0, 46, 138, 18] ++
    [13, 0, 0, 0, 0, 2, 0, 0] ++ List.replicate 404 0

/-- The empty database has one page. -/
theorem emptyDatabase_length (freePages : UInt8) : (emptyDatabase freePages).length = 512 := by
  simp only [emptyDatabase, List.length_append, List.length_replicate, List.length_cons,
    List.length_nil]

/-- That page makes a file. -/
theorem emptyDatabase_pagesOk (freePages : UInt8) :
    PagesOk (onePageRangeHeader 1 2) 0 [(1, emptyDatabase freePages)] := by
  have hlength := emptyDatabase_length freePages
  -- only the length of the page matters
  generalize emptyDatabase freePages = page at hlength ⊢
  have hlock := onePageRangeHeader_lockPgno 1 2
  have hne : 1 ≠ (onePageRangeHeader 1 2).lockPgno := by
    rw [hlock]
    decide
  refine ⟨⟨Nat.one_pos, Nat.le_refl 1, hlength, hne, ?_⟩, trivial⟩
  rw [SeqOk, hlock]
  split
  · rfl
  · exact Nat.one_pos

/-- A snapshot of the first two transactions of a database, the header of which counts a free page
too many. -/
def twoTxSnapshot : LtxFile where
  hdr := onePageRangeHeader 1 2
  pages := [(1, emptyDatabase 1)]
  valid := onePageRangeHeader_valid (by decide) (by decide)
  pagesOk := emptyDatabase_pagesOk 1
  noChecksum := onePageRangeHeader_noChecksum 1 2
  commit_ne_zero := by decide

/-- A healthy replica at the first transaction. -/
def healthyDisk : Disk := ⟨some (emptyDatabase 0), some (txidLine 1)⟩

/-- What `PRAGMA quick_check` answers about such a header. -/
def freelistVerdict : String := "*** in database main ***\nFreelist: size is 0 but should be 1"

/-- A replica that resets itself and checks what it restored. -/
def checkedReset : ReplicaOptions := ⟨.quick, false, true⟩

/-- The integrity check refuses the new image, and the replica that was there is gone with it. -/
theorem not_allOrNothing_of_refused :
    ¬ AllOrNothing checkedReset
      (fun image txid => prepare literalCodec
        (calmEnv (snapshotBucket literalCodec twoTxSnapshot) freelistVerdict)
          = .ok (image, txid))
      healthyDisk
      (leftBy (fullRestore literalCodec checkedReset
        (calmEnv (snapshotBucket literalCodec twoTxSnapshot) freelistVerdict)) healthyDisk) := by
  intro h
  have hcomplete : twoTxSnapshot.patch.Complete twoTxSnapshot.lock := by
    intro p h0 hp _
    have hp' : p ≤ 1 := hp
    obtain rfl : p = 1 := by omega
    rfl
  obtain ⟨image, hprep⟩ :=
    prepare_snapshotBucket literalCodec_lawful (f := twoTxSnapshot) (by decide)
    hcomplete freelistVerdict
  have hdisk := fullRestore_disk checkedReset hprep (.inl rfl) healthyDisk
  generalize hnew : leftBy _ healthyDisk = new at h hdisk
  cases hdisk with
  -- the check does not accept
  | labelled hlabels =>
      rcases hlabels.accepts with hnone | ⟨-, hok⟩
      · exact absurd hnone (by decide)
      · exact absurd hok (by decide)
  | removed _ => exact h.kept (Option.some_ne_none _) rfl
  -- it refused, so the files were removed
  | stale _ hremove =>
      have hanswered : RestoreEnv.Answered checkedReset
          (calmEnv (snapshotBucket literalCodec twoTxSnapshot) freelistVerdict) :=
        ⟨by decide, rfl, rfl⟩
      exact hremove ⟨⟨rfl, .inl rfl, .inl rfl, .inl rfl⟩, hanswered, by decide, .inl rfl⟩

end Liters
