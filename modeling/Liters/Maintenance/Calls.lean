import Liters.Maintenance.Safety

/-! # The calls of a writer

The public calls that change a bucket, with every argument they take: `push`, `snapshot`, `maintain`
with any number of level intervals and `compact_level` with any level. Levels are bytes, and
`dst_level - 1` overflows at level 0: a build with overflow checks panics there, another one goes on
with level 255.

What the calls do to the ranges of the files does not depend on their contents: compaction succeeds
exactly on contiguous ranges. `Call.ranges` runs a call on a bucket without contents, and
`Call.simulates` says that it does the same as the call. -/

namespace Liters

/-- Why a call did not return a value. -/
inductive CallFailure where
  | error (e : MaintenanceError)
  | panic

/-- A call on the bucket. -/
abbrev Routine (α : Type) := Script World Mutation CallFailure α

/-- A procedure that does not panic. -/
def routine {α : Type} (p : Procedure α) : Routine α :=
  fun w => ((p w).1, (p w).2.mapError CallFailure.error)

/-- A panic. -/
def panicking {α : Type} : Routine α := fun _ => ([], .error .panic)

/-- A routine that runs only if a level is due. -/
def whenDue {α : Type} (level interval : Nat) (now : Int) (p : Routine α) (a : α) :
    Routine α := fun w =>
  if levelDue w.bucket level interval now then p w else ([], .ok a)

/-! ## Calls -/

/-- Merge the files of one level that another one does not cover yet into one file there. -/
def compactFrom (c : Codec) (srcLevel dstLevel : Nat) (createdAt : Option Int) :
    Procedure Bool := fun w =>
  match w.bucket.ltxFiles srcLevel (seekTxid w.bucket dstLevel) with
  | [] => ([], .ok false)
  | f :: fs =>
      let minTxid := fs.foldl (fun m g => min m g.minTxid) f.minTxid
      let maxTxid := fs.foldl (fun m g => max m g.maxTxid) f.maxTxid
      match w.bucket.mergeFiles c (f :: fs) with
      | .ok body => ([.put dstLevel ⟨minTxid, maxTxid, createdAt, body⟩], .ok true)
      | .error e => ([], .error e)

/-- `compact_level`. Where overflow is not checked, `dst_level - 1` wraps around. -/
def compactLevelU8 (c : Codec) (checked : Bool) (dstLevel : UInt8) (createdAt : Option Int) :
    Routine Bool :=
  if checked ∧ dstLevel = 0 then panicking
  else routine (compactFrom c (dstLevel - 1).toNat dstLevel.toNat createdAt)

/-- What a maintenance run is made of. -/
structure Steps where
  compact : Nat → UInt8 → Routine Bool
  retireL0 : Routine Nat
  snapshot : Routine (Option Nat)
  retire : Routine Nat

namespace Steps

/-- Compact each configured level that is due, the interval at index `i` being that of level `i + 1`
as a byte. -/
def compactDue (s : Steps) (opts : MaintenanceOptions) (now : Int) : Nat → List Nat → Routine Nat
  | _, [] => Script.done 0
  | i, interval :: intervals =>
      Script.andThen World.act
        (whenDue (UInt8.ofNat (i + 1)).toNat interval now (s.compact i (UInt8.ofNat (i + 1))) false)
        fun compacted =>
          Script.andThen World.act
            (if compacted ∧ UInt8.ofNat (i + 1) = 1 ∧ opts.retentionEnabled then s.retireL0
            else Script.done 0)
            fun deleted => (s.compactDue opts now (i + 1) intervals).andThen World.act
              fun more => Script.done (deleted + more)

/-- `maintain_with`. -/
def maintain (s : Steps) (opts : MaintenanceOptions) (now : Int) : Routine Nat :=
  (s.compactDue opts now 0 opts.levelIntervals).andThen World.act fun deleted =>
    Script.andThen World.act
      (whenDue snapshotLevel opts.snapshotInterval now s.snapshot none)
      fun _ => (if opts.retentionEnabled then s.retire else Script.done 0).andThen World.act
        fun more => Script.done (deleted + more)

end Steps

/-- The content of a snapshot by the transaction it is labelled with, if the database could be read.
Nothing is said about what it holds. -/
abbrev ImageSource := Nat → Option Bytes

/-- The calls of a writer that change the bucket. `createdAt` gives the creation times of the
compacted files by interval, `snapshotAt` that of the snapshot. -/
inductive Call where
  | push (pending : List (Option Int))
  | compactLevel (level : UInt8) (createdAt : Option Int)
  | snapshot (image : ImageSource) (pending : List (Option Int)) (createdAt : Option Int)
  | maintain (image : ImageSource) (opts : MaintenanceOptions) (now : Int)
      (createdAt : Nat → Option Int) (pending : List (Option Int)) (snapshotAt : Option Int)

section
variable (c : Codec) (checked : Bool) (U : Uploads)

/-- Upload what is pending, then PUT the image that was read as a snapshot of the transaction the
bucket ends at. -/
def snapshotOf (image : ImageSource) (pending : List (Option Int)) (createdAt : Option Int) :
    Procedure (Option Nat) :=
  (uploadPending c U pending).andThen World.act fun _ w =>
    if w.uploaded = 0 then ([], .ok none)
    else match image w.uploaded with
      | some body => ([.put snapshotLevel ⟨1, w.uploaded, createdAt, body⟩], .ok (some w.uploaded))
      | none => ([], .error (.image w.uploaded))

/-- A maintenance run over levels 1 to 8 with such snapshots. -/
def maintainOf (image : ImageSource) (opts : MaintenanceOptions) (now : Int)
    (createdAt : Nat → Option Int) (pending : List (Option Int)) : Procedure Nat :=
  (compactDue c opts now createdAt 1 opts.levelIntervals).andThen World.act fun deleted =>
    Script.andThen World.act
      (fun w => if levelDue w.bucket snapshotLevel opts.snapshotInterval now then
        snapshotOf c U image pending (createdAt snapshotLevel) w else ([], .ok none))
      fun _ => (if opts.retentionEnabled then enforceRetention opts now
          else Script.done 0).andThen World.act fun more => Script.done (deleted + more)

/-- The steps of a maintenance run. -/
def maintainSteps (image : ImageSource) (opts : MaintenanceOptions) (now : Int)
    (createdAt : Nat → Option Int) (pending : List (Option Int)) (snapshotAt : Option Int) :
    Steps where
  compact i level := compactLevelU8 c checked level (createdAt i)
  retireL0 := routine (enforceL0Retention opts.l0Retention now)
  snapshot := routine (snapshotOf c U image pending snapshotAt)
  retire := routine (enforceRetention opts now)

/-- Forget what a routine returns. -/
def Routine.toUnit {α : Type} (p : Routine α) : Routine Unit :=
  Script.andThen World.act p fun _ => Script.done ()

/-- A call. -/
def Call.run : Call → Routine Unit
  | .push pending => (routine (uploadPending c U pending)).toUnit
  | .compactLevel level createdAt => (compactLevelU8 c checked level createdAt).toUnit
  | .snapshot image pending createdAt => (routine (snapshotOf c U image pending createdAt)).toUnit
  | .maintain image opts now createdAt pending snapshotAt =>
      ((maintainSteps c checked U image opts now createdAt pending snapshotAt).maintain opts
        now).toUnit

/-- A call that is cut after its first `k` requests. -/
def Call.cut (call : Call) (k : Nat) (w : World) : World :=
  Script.applyAll World.act w ((call.run c checked U w).1.take k)

/-- A call that panics. -/
def Call.Panics (call : Call) (w : World) : Prop := (call.run c checked U w).2 = .error .panic

/-- The worlds that cut calls of a kind reach from the empty bucket. -/
inductive Ran (P : Call → Prop) : World → Prop where
  | start : Ran P ⟨Bucket.empty, 0⟩
  | step {w : World} (h : Ran P w) (call : Call) (hcall : P call) (k : Nat) :
      Ran P (call.cut c checked U k w)

end

/-! ## Ordinary calls -/

variable {c : Codec} {U : Uploads} {checked : Bool} {w : World}

/-- A call that compacts into levels 1 to 8 only. -/
def Call.Ordinary : Call → Prop
  | .compactLevel level _ => 1 ≤ level.toNat ∧ level.toNat ≤ 8
  | .maintain _ opts _ _ _ _ => opts.levelIntervals.length ≤ 8
  | _ => True

/-- Two procedures in a row are two routines in a row. -/
theorem routine_andThen {α β : Type} (p : Procedure α) (q : α → Procedure β) :
    routine (p.andThen World.act q) = (routine p).andThen World.act fun a => routine (q a) := by
  funext w
  unfold routine Script.andThen
  dsimp only
  cases p w with
  | mk ms r =>
      cases r with
      | ok a => rfl
      | error e => rfl

/-- A choice between procedures is a choice between routines. -/
theorem routine_ite {α : Type} (b : Prop) [Decidable b] (p q : Procedure α) :
    routine (if b then p else q) = if b then routine p else routine q := by
  split <;> rfl

/-- A procedure run when its level is due is a routine run then. -/
theorem routine_whenDue {α : Type} (level interval : Nat) (now : Int) (p : Procedure α) (a : α) :
    routine (fun w => if levelDue w.bucket level interval now then p w else ([], .ok a))
      = whenDue level interval now (routine p) a := by
  funext w
  unfold routine whenDue
  dsimp only
  split <;> rfl

/-- The levels 1 to 8 as bytes. -/
theorem toNat_ofNat_level {i : Nat} (h : i < 8) :
    (UInt8.ofNat (i + 1)).toNat = i + 1 ∧ (UInt8.ofNat (i + 1) - 1).toNat = i ∧
      (UInt8.ofNat (i + 1) = 1 ↔ i + 1 = 1) ∧ UInt8.ofNat (i + 1) ≠ 0 := by
  have : ∀ i < 8, (UInt8.ofNat (i + 1)).toNat = i + 1 ∧ (UInt8.ofNat (i + 1) - 1).toNat = i ∧
      (UInt8.ofNat (i + 1) = 1 ↔ i + 1 = 1) ∧ UInt8.ofNat (i + 1) ≠ 0 := by decide
  exact this i h

/-- Within levels 1 to 8 compaction by byte is compaction. -/
theorem compactLevelU8_ofNat {i : Nat} (h : i < 8) (createdAt : Option Int) :
    compactLevelU8 c checked (UInt8.ofNat (i + 1)) createdAt =
      routine (compactLevel c (i + 1) createdAt) := by
  obtain ⟨hlevel, hsrc, -, hne⟩ := toNat_ofNat_level h
  rw [compactLevelU8, if_neg fun hz => hne hz.2, hlevel, hsrc]
  rfl

/-- With at most eight intervals, a maintenance run compacts into levels 1 to 8 only. -/
theorem compactDue_eq {image : ImageSource} {opts : MaintenanceOptions} {now : Int}
    {createdAt createdAt' : Nat → Option Int} {pending : List (Option Int)}
    {snapshotAt : Option Int} (hcreated : ∀ i < 8, createdAt' (i + 1) = createdAt i) {i : Nat}
    {intervals : List Nat} (h : i + intervals.length ≤ 8) :
    (maintainSteps c checked U image opts now createdAt pending snapshotAt).compactDue opts now
      i intervals = routine (compactDue c opts now createdAt' (i + 1) intervals) := by
  -- over the intervals that are left; the level of the one at hand is one above its index
  induction intervals generalizing i with
  | nil => rfl
  | cons interval intervals ih =>
      rw [List.length_cons] at h
      have hi : i < 8 := by omega
      obtain ⟨hlevel, -, hone, -⟩ := toNat_ofNat_level hi
      have hcompact : (maintainSteps c checked U image opts now createdAt pending
          snapshotAt).compact i
          (UInt8.ofNat (i + 1)) = routine (compactLevel c (i + 1) (createdAt' (i + 1))) := by
        rw [hcreated i hi]
        exact compactLevelU8_ofNat hi _
      rw [Steps.compactDue, Liters.compactDue, hlevel, hcompact]
      refine Eq.trans ?_ (routine_andThen _ _).symm
      refine congrArg₂ (Script.andThen World.act) (routine_whenDue ..).symm ?_
      funext compacted
      refine Eq.trans ?_ (routine_andThen _ _).symm
      rw [routine_ite, ih (by omega)]
      -- compact_level prunes level 0 after level 1
      refine congrArg₂ (Script.andThen World.act) ?_ ?_
      · simp only [hone]
        rfl
      · funext deleted
        refine Eq.trans ?_ (routine_andThen _ _).symm
        rfl

/-- Such a run is the maintenance run of the lower levels. -/
theorem maintain_eq {image : ImageSource} {opts : MaintenanceOptions} {now : Int}
    {createdAt createdAt' : Nat → Option Int} {pending : List (Option Int)}
    {snapshotAt : Option Int} (hcreated : ∀ i < 8, createdAt' (i + 1) = createdAt i)
    (hsnapshot : createdAt' snapshotLevel = snapshotAt)
    (h : opts.levelIntervals.length ≤ 8) :
    (maintainSteps c checked U image opts now createdAt pending snapshotAt).maintain opts now
      = routine (maintainOf c U image opts now createdAt' pending) := by
  rw [Steps.maintain, compactDue_eq hcreated (by omega), maintainOf, hsnapshot]
  refine Eq.trans ?_ (routine_andThen _ _).symm
  refine congrArg _ ?_
  funext deleted
  refine Eq.trans ?_ (routine_andThen _ _).symm
  refine congrArg₂ (Script.andThen World.act) (routine_whenDue ..).symm ?_
  funext _
  refine Eq.trans ?_ (routine_andThen _ _).symm
  rw [routine_ite]
  rfl

/-- The creation times of a maintenance run by level. -/
def levelTimes (createdAt : Nat → Option Int) (snapshotAt : Option Int) (level : Nat) :
    Option Int :=
  if level = snapshotLevel then snapshotAt else createdAt (level - 1)

/-- What an ordinary call requests. -/
def Call.requests (c : Codec) (U : Uploads) : Call → World → List Mutation
  | .push pending, w => (uploadPending c U pending w).1
  | .compactLevel level createdAt, w => (Liters.compactLevel c level.toNat createdAt w).1
  | .snapshot image pending createdAt, w => (snapshotOf c U image pending createdAt w).1
  | .maintain image opts now createdAt pending snapshotAt, w =>
      (maintainOf c U image opts now (levelTimes createdAt snapshotAt) pending w).1

/-- What a procedure without a value requests, and that it does not panic. -/
theorem routine_toUnit {α : Type} (p : Procedure α) (w : World) :
    ((routine p).toUnit w).1 = (p w).1 ∧ ((routine p).toUnit w).2 ≠ .error .panic := by
  unfold Routine.toUnit Script.andThen routine
  dsimp only
  cases p w with
  | mk ms r =>
      cases r with
      | error e => exact ⟨rfl, fun h => by cases h⟩
      | ok a => exact ⟨List.append_nil ms, fun h => by cases h⟩

/-- **An ordinary call** makes these requests, and does not panic. -/
theorem Call.Ordinary.run_eq {call : Call} (h : call.Ordinary) (checked : Bool) (w : World) :
    (call.run c checked U w).1 = call.requests c U w ∧ ¬ call.Panics c checked U w := by
  cases call with
  | push pending => exact routine_toUnit _ w
  | snapshot image pending createdAt => exact routine_toUnit _ w
  | compactLevel level createdAt =>
      obtain ⟨hlow, hhigh⟩ := h
      have hlevel : level = UInt8.ofNat (level.toNat - 1 + 1) := by
        rw [Nat.sub_add_cancel hlow]
        exact (UInt8.ofNat_toNat).symm
      have hrun : compactLevelU8 c checked (UInt8.ofNat (level.toNat - 1 + 1)) createdAt =
          routine _ :=
        compactLevelU8_ofNat (by omega) createdAt
      rw [← hlevel, Nat.sub_add_cancel hlow] at hrun
      rw [Call.Panics, Call.run, hrun]
      exact routine_toUnit _ w
  | maintain image opts now createdAt pending snapshotAt =>
      have htimes : ∀ i < 8, levelTimes createdAt snapshotAt (i + 1) = createdAt i := fun i hi =>
        if_neg (show i + 1 ≠ snapshotLevel by rw [snapshotLevel]; omega)
      have hsnapshot : levelTimes createdAt snapshotAt snapshotLevel = snapshotAt := if_pos rfl
      rw [Call.Panics, Call.run, maintain_eq htimes hsnapshot h]
      exact routine_toUnit _ w

/-! ## Other contents -/

/-- A file with another content. -/
def Stored.mapBody (f : Stored → Bytes) (s : Stored) : Stored := { s with body := f s }

/-- A bucket with other contents, by level and file. -/
def World.mapBodies (f : Nat → Stored → Bytes) (w : World) : World :=
  ⟨fun level => (w.bucket level).map (Stored.mapBody (f level)), w.uploaded⟩

/-- A request with such a content. -/
def Mutation.mapBodies (f : Nat → Stored → Bytes) : Mutation → Mutation
  | .put level s => .put level (s.mapBody (f level))
  | .delete level minTxid maxTxid => .delete level minTxid maxTxid

/-- Changing bodies and inserting a file commute. -/
theorem map_mapBody_insertFile (f : Stored → Bytes) (s : Stored) (files : List Stored) :
    (Bucket.insertFile s files).map (Stored.mapBody f)
      = Bucket.insertFile (s.mapBody f) (files.map (Stored.mapBody f)) := by
  induction files with
  | nil => rfl
  | cons x files ih =>
      rw [Bucket.insertFile, List.map_cons, Bucket.insertFile]
      by_cases hs : s.Before x
      · rw [if_pos hs, if_pos (show (s.mapBody f).Before (x.mapBody f) from hs)]
        rfl
      · rw [if_neg hs, if_neg (show ¬ (s.mapBody f).Before (x.mapBody f) from hs)]
        by_cases hkey : s.key = x.key
        · rw [if_pos hkey, if_pos (show (s.mapBody f).key = (x.mapBody f).key from hkey)]
          rfl
        · rw [if_neg hkey, if_neg (show ¬ (s.mapBody f).key = (x.mapBody f).key from hkey),
            List.map_cons, ih]

section
variable (f : Nat → Stored → Bytes)

/-- Requests do the same with other contents. -/
theorem World.mapBodies_act (w : World) (m : Mutation) :
    (w.act m).mapBodies f = (w.mapBodies f).act (m.mapBodies f) := by
  have hbucket : (fun level => ((w.act m).bucket level).map (Stored.mapBody (f level)))
      = ((w.mapBodies f).act (m.mapBodies f)).bucket := by
    funext level
    -- only the level that is written to changes, and there the two commute
    cases m with
    | put l s =>
        show (w.bucket.setLevel l (Bucket.insertFile s (w.bucket l)) level).map
          (Stored.mapBody (f level))
          = (w.mapBodies f).bucket.setLevel l
            (Bucket.insertFile (s.mapBody (f l)) ((w.mapBodies f).bucket l)) level
        unfold Bucket.setLevel
        split
        · rename_i hlevel
          subst hlevel
          exact map_mapBody_insertFile _ s _
        · rfl
    -- a DELETE picks by key, and the keys stay
    | delete l minTxid maxTxid =>
        show (w.bucket.setLevel l ((w.bucket l).filter _) level).map (Stored.mapBody (f level))
          = (w.mapBodies f).bucket.setLevel l (((w.mapBodies f).bucket l).filter _) level
        unfold Bucket.setLevel
        split
        · rename_i hlevel
          subst hlevel
          show List.map (Stored.mapBody (f level)) _
            = List.filter _ (List.map (Stored.mapBody (f level)) (w.bucket level))
          rw [List.filter_map]
          rfl
        · rfl
  -- bodies do not enter into what counts as uploaded
  have huploaded : (w.act m).uploaded = ((w.mapBodies f).act (m.mapBodies f)).uploaded := by
    cases m with
    | put l s =>
        cases l with
        | zero => rfl
        | succ l => rfl
    | delete l minTxid maxTxid => rfl
  unfold World.mapBodies at hbucket huploaded ⊢
  rw [hbucket, huploaded]

/-- Listings do not show contents. -/
@[simp] theorem ltxFiles_mapBodies (w : World) :
    (w.mapBodies f).bucket.ltxFiles = w.bucket.ltxFiles := by
  funext level seek
  unfold Bucket.ltxFiles World.mapBodies
  rw [List.filter_map, List.map_map]
  rfl

/-- The newest file's info does not depend on bodies. -/
@[simp] theorem maxLtxFileInfo_mapBodies (w : World) :
    (w.mapBodies f).bucket.maxLtxFileInfo = w.bucket.maxLtxFileInfo := by
  funext level
  rw [Bucket.maxLtxFileInfo, Bucket.maxLtxFileInfo, ltxFiles_mapBodies]

/-- Neither does the seek position. -/
@[simp] theorem seekTxid_mapBodies (w : World) :
    seekTxid (w.mapBodies f).bucket = seekTxid w.bucket := by
  funext level
  rw [seekTxid, seekTxid, maxLtxFileInfo_mapBodies]

/-- Neither does whether a level is due. -/
@[simp] theorem levelDue_mapBodies (w : World) :
    levelDue (w.mapBodies f).bucket = levelDue w.bucket := by
  funext level interval now
  rw [levelDue, levelDue, maxLtxFileInfo_mapBodies]

/-- Deletes name no content. -/
theorem map_mapBodies_deletes (infos : List FileInfo) :
    (Bucket.deleteLtxFiles infos).map (Mutation.mapBodies f) = Bucket.deleteLtxFiles infos := by
  rw [Bucket.deleteLtxFiles, List.map_map]
  rfl

/-- Retention looks at listings only. -/
theorem retireSnapshots_mapBodies (retention : Nat) (now : Int) (w : World) :
    retireSnapshots retention now (w.mapBodies f) = retireSnapshots retention now w := by
  unfold retireSnapshots
  rw [ltxFiles_mapBodies]

/-- Retiring a level does not look at bodies. -/
theorem retireLevel_mapBodies (floor level : Nat) (w : World) :
    retireLevel floor level (w.mapBodies f) = retireLevel floor level w := by
  unfold retireLevel
  rw [ltxFiles_mapBodies]

/-- Neither does retention of level 0. -/
theorem enforceL0Retention_mapBodies (grace : Nat) (now : Int) (w : World) :
    enforceL0Retention grace now (w.mapBodies f) = enforceL0Retention grace now w := by
  unfold enforceL0Retention
  rw [ltxFiles_mapBodies, maxLtxFileInfo_mapBodies]

end

/-- Retention of snapshots requests deletes of level 9. -/
theorem retireSnapshots_deletes (retention : Nat) (now : Int) (w : World) :
    ∃ infos, (retireSnapshots retention now w).1 = Bucket.deleteLtxFiles infos ∧
      ∀ f ∈ infos, f.level = snapshotLevel := by
  unfold retireSnapshots
  dsimp only
  split
  · exact ⟨[], rfl, fun f hf => by cases hf⟩
  · refine ⟨_, rfl, fun f hf => ?_⟩
    obtain ⟨hmem, -⟩ := (expiredSnapshots_spec _ _ _ _).1 f hf
    rw [Bucket.ltxFiles_zero] at hmem
    obtain ⟨s, -, rfl⟩ := List.mem_map.mp hmem
    rfl

/-- The cascade requests deletes of files of the level below the floor. -/
theorem retireLevel_deletes (floor level : Nat) (w : World) :
    ∃ infos, (retireLevel floor level w).1 = Bucket.deleteLtxFiles infos ∧
      ∀ f ∈ infos, f.level = level ∧ f.maxTxid < floor := by
  unfold retireLevel
  dsimp only
  split
  · exact ⟨[], rfl, fun f hf => by cases hf⟩
  · refine ⟨_, rfl, fun f hf => ?_⟩
    obtain ⟨hmem, hfloor⟩ := List.mem_filter.mp hf
    have hlisted := List.dropLast_subset _ hmem
    rw [Bucket.ltxFiles_zero] at hlisted
    obtain ⟨s, -, rfl⟩ := List.mem_map.mp hlisted
    exact ⟨rfl, of_decide_eq_true hfloor⟩

/-- What may be deleted from level 0 is listed there. -/
theorem deletableL0_subset (maxL1 newest : Nat) (cutoff : Int) (infos : List FileInfo) :
    ∀ f ∈ deletableL0 maxL1 newest cutoff infos, f ∈ infos := by
  induction infos with
  | nil => exact fun f hf => hf
  | cons info infos ih =>
      intro f hf
      rw [deletableL0] at hf
      split at hf
      · cases hf
      split at hf
      · cases hf
      split at hf
      · split at hf
        · rcases List.mem_cons.mp hf with rfl | hf
          · exact List.mem_cons_self ..
          · exact List.mem_cons_of_mem _ (ih f hf)
        · cases hf
      · cases hf

/-- Level-0 retention requests deletes of level 0. -/
theorem enforceL0Retention_deletes (grace : Nat) (now : Int) (w : World) :
    ∃ infos, (enforceL0Retention grace now w).1 = Bucket.deleteLtxFiles infos ∧
      ∀ f ∈ infos, f.level = 0 := by
  unfold enforceL0Retention
  dsimp only
  split
  · exact ⟨[], rfl, fun f hf => by cases hf⟩
  split
  · exact ⟨[], rfl, fun f hf => by cases hf⟩
  · refine ⟨_, rfl, fun f hf => ?_⟩
    have hmem := deletableL0_subset _ _ _ _ f hf
    rw [Bucket.ltxFiles_zero] at hmem
    obtain ⟨s, -, rfl⟩ := List.mem_map.mp hmem
    rfl

/-! ## Ranges without contents -/

/-- A file without its content. -/
def Stored.hollow (s : Stored) : Stored := { s with body := [] }

/-- A request without contents. -/
def Mutation.hollow (m : Mutation) : Mutation := m.mapBodies fun _ _ => []

/-- A bucket without contents. -/
def World.hollow (w : World) : World := w.mapBodies fun _ _ => []

/-- Requests do the same with and without contents. -/
theorem World.hollow_act (w : World) (m : Mutation) : (w.act m).hollow = w.hollow.act m.hollow :=
  World.mapBodies_act _ w m

/-- Listings are the same with and without contents. -/
@[simp] theorem ltxFiles_hollow (w : World) : w.hollow.bucket.ltxFiles = w.bucket.ltxFiles :=
  ltxFiles_mapBodies _ w

/-- The seek position does not depend on bodies at all. -/
@[simp] theorem seekTxid_hollow (w : World) : seekTxid w.hollow.bucket = seekTxid w.bucket :=
  seekTxid_mapBodies _ w

/-- Neither does whether a level is due. -/
@[simp] theorem levelDue_hollow (w : World) : levelDue w.hollow.bucket = levelDue w.bucket :=
  levelDue_mapBodies _ w

/-- Errors are not told apart, panics are. -/
def SameFailure : CallFailure → CallFailure → Prop
  | .error _, .error _ => True
  | .panic, .panic => True
  | _, _ => False

/-- `q` does on ranges what `p` does on files. -/
abbrev OnRanges (c : Codec) (U : Uploads) {α : Type} (p q : Routine α) : Prop :=
  Script.Simulates World.act (Filed c U) World.hollow Mutation.hollow SameFailure p q

/-- Routines that act on ranges alike do so one after the other. -/
theorem OnRanges.andThen {α β : Type} {p q : Routine α} {p' q' : α → Routine β}
    (h : OnRanges c U p q) (h' : ∀ a, OnRanges c U (p' a) (q' a)) :
    OnRanges c U (p.andThen World.act p') (q.andThen World.act q') :=
  Script.Simulates.andThen World.hollow_act h h'

/-- They do so when a level is due. -/
theorem OnRanges.whenDue {α : Type} {p q : Routine α} (h : OnRanges c U p q) (level interval : Nat)
    (now : Int) (a : α) : OnRanges c U (whenDue level interval now p a)
    (whenDue level interval now q a) := by
  have hdue : ∀ w : World, levelDue w.hollow.bucket level interval now
      = levelDue w.bucket level interval now := fun w => by rw [levelDue_hollow]
  refine ⟨fun w hw => ?_, fun w hw => ?_, fun w hw => ?_⟩
  · unfold Liters.whenDue
    rw [hdue]
    split
    · exact h.mutations w hw
    · rfl
  · unfold Liters.whenDue
    rw [hdue]
    split
    · exact h.ends w hw
    · exact .ok a
  · unfold Liters.whenDue
    split
    · exact h.keeps w hw
    · exact trivial

/-- They do so in both branches of a choice. -/
theorem OnRanges.ite {α : Type} {p q p' q' : Routine α} (b : Prop) [Decidable b]
    (h : OnRanges c U p q) (h' : OnRanges c U p' q') :
    OnRanges c U (if b then p else p') (if b then q else q') := by
  split
  · exact h
  · exact h'

/-! ## Calls on ranges -/

/-- PUT the range of the next level-0 file. -/
def uploadRange (createdAt : Option Int) : Procedure Unit := fun w =>
  if w.uploaded + 1 < 2 ^ 64 - 1 then
    ([.put 0 ⟨w.uploaded + 1, w.uploaded + 1, createdAt, []⟩], .ok ())
  else ([], .ok ())

/-- PUT the ranges of pending level-0 files. -/
def uploadRanges : List (Option Int) → Procedure Unit
  | [] => Script.done ()
  | createdAt :: rest => (uploadRange createdAt).andThen World.act fun _ => uploadRanges rest

/-- PUT the range of a snapshot after those of pending level-0 files. -/
def snapshotRange (image : ImageSource) (pending : List (Option Int)) (createdAt : Option Int) :
    Procedure (Option Nat) :=
  (uploadRanges pending).andThen World.act fun _ w =>
    if w.uploaded = 0 then ([], .ok none)
    else match image w.uploaded with
      | some _ => ([.put snapshotLevel ⟨1, w.uploaded, createdAt, []⟩], .ok (some w.uploaded))
      | none => ([], .error (.image w.uploaded))

instance : DecidableRel Contiguous := fun f g =>
  inferInstanceAs (Decidable (isContiguous f.maxTxid g.minTxid g.maxTxid = true))

/-- Merge ranges, which succeeds if they are contiguous. -/
def compactRange (srcLevel dstLevel : Nat) (createdAt : Option Int) : Procedure Bool := fun w =>
  match w.bucket.ltxFiles srcLevel (seekTxid w.bucket dstLevel) with
  | [] => ([], .ok false)
  | f :: fs =>
      let minTxid := fs.foldl (fun m g => min m g.minTxid) f.minTxid
      let maxTxid := fs.foldl (fun m g => max m g.maxTxid) f.maxTxid
      if (f :: fs).IsChain Contiguous then
        ([.put dstLevel ⟨minTxid, maxTxid, createdAt, []⟩], .ok true)
      else ([], .error (.notFound srcLevel minTxid maxTxid))

/-- `compact_level` on ranges. -/
def compactRangeU8 (checked : Bool) (dstLevel : UInt8) (createdAt : Option Int) : Routine Bool :=
  if checked ∧ dstLevel = 0 then panicking
  else routine (compactRange (dstLevel - 1).toNat dstLevel.toNat createdAt)

/-- The steps of a maintenance run on ranges. -/
def rangeSteps (checked : Bool) (image : ImageSource) (opts : MaintenanceOptions) (now : Int)
    (createdAt : Nat → Option Int) (pending : List (Option Int)) (snapshotAt : Option Int) :
    Steps where
  compact i level := compactRangeU8 checked level (createdAt i)
  retireL0 := routine (enforceL0Retention opts.l0Retention now)
  snapshot := routine (snapshotRange image pending snapshotAt)
  retire := routine (enforceRetention opts now)

/-- A call on ranges. -/
def Call.ranges (checked : Bool) : Call → Routine Unit
  | .push pending => (routine (uploadRanges pending)).toUnit
  | .compactLevel level createdAt => (compactRangeU8 checked level createdAt).toUnit
  | .snapshot image pending createdAt => (routine (snapshotRange image pending createdAt)).toUnit
  | .maintain image opts now createdAt pending snapshotAt =>
      ((rangeSteps checked image opts now createdAt pending snapshotAt).maintain opts now).toUnit

/-- A procedure that looks at ranges only, and deletes. -/
theorem onRanges_of_deletes {α : Type} {p : Procedure α}
    (hread : ∀ f w, p (World.mapBodies f w) = p w)
    (hdelete : ∀ w, ∃ infos, (p w).1 = Bucket.deleteLtxFiles infos) :
    OnRanges c U (routine p) (routine p) := by
  refine ⟨fun w hw => ?_, fun w hw => ?_, fun w hw => ?_⟩
  · obtain ⟨infos, hinfos⟩ := hdelete w
    show (p w.hollow).1 = (p w).1.map Mutation.hollow
    rw [World.hollow, hread, hinfos]
    exact (map_mapBodies_deletes _ infos).symm
  · show Script.SameEnd SameFailure ((p w).2.mapError CallFailure.error)
      ((p w.hollow).2.mapError CallFailure.error)
    rw [World.hollow, hread]
    cases (p w).2 with
    | ok a => exact .ok a
    | error e => exact .error trivial
  · obtain ⟨infos, hinfos⟩ := hdelete w
    show Script.AllowedAll World.act _ w (p w).1
    rw [hinfos]
    clear hinfos
    induction infos generalizing w with
    | nil => exact trivial
    | cons f infos ih =>
        have hkeep : Filed c U (w.act (.delete f.level f.minTxid f.maxTxid)) :=
          ⟨hw.bound, (hw.delete_files ..).1, (hw.delete_files ..).2⟩
        exact ⟨hkeep, ih _ hkeep⟩

/-- Doing nothing acts on ranges alike. -/
theorem onRanges_done {α : Type} (a : α) : OnRanges c U (Script.done a) (Script.done a) :=
  Script.simulates_done a

/-- A PUT of a valid file. -/
theorem Filed.put {n level : Nat} {s : Stored} (h : Filed c U w) (hn : w.uploaded ≤ n)
    (hs : StoredOk c U n s) (hbound : n < 2 ^ 64 - 1) (hup : (w.act (.put level s)).uploaded = n) :
    Filed c U (w.act (.put level s)) := by
  obtain ⟨hfiles, hsorted⟩ := h.put_files level hn hs
  refine ⟨hup ▸ hbound, ?_, hsorted⟩
  rw [hup]
  exact hfiles

/-- **An upload** acts on ranges as one without a body. -/
theorem upload_onRanges (createdAt : Option Int) :
    OnRanges c U (routine (upload c U createdAt)) (routine (uploadRange createdAt)) := by
  refine ⟨fun w hw => ?_, fun w hw => ?_, fun w hw => ?_⟩
  · -- the same file, without its body
    show (uploadRange createdAt w.hollow).1 = (upload c U createdAt w).1.map Mutation.hollow
    unfold uploadRange upload
    show (if w.uploaded + 1 < 2 ^ 64 - 1 then _
      else _ : List Mutation × Except MaintenanceError Unit).1 = _
    split <;> rfl
  · show Script.SameEnd SameFailure ((upload c U createdAt w).2.mapError CallFailure.error)
      ((uploadRange createdAt w.hollow).2.mapError CallFailure.error)
    -- an upload cannot fail
    have h₁ : (upload c U createdAt w).2 = .ok () := by
      unfold upload
      split <;> rfl
    have h₂ : (uploadRange createdAt w.hollow).2 = .ok () := by
      unfold uploadRange
      split <;> rfl
    rw [h₁, h₂]
    exact .ok ()
  · show Script.AllowedAll World.act _ w (upload c U createdAt w).1
    -- the patch of one transaction is exact over it
    unfold upload
    split
    · rename_i hn
      obtain ⟨hmin, hmax⟩ := U.txid (w.uploaded + 1) (by omega) hn
      have hsize := U.size (w.uploaded + 1) (by omega) hn
      have he : U.history.Exact U.lock (w.uploaded + 1) (w.uploaded + 1)
          (U.file (w.uploaded + 1)).patch := History.exact_patch (h := U.history) (by omega)
      refine ⟨hw.put (Nat.le_succ _) ⟨Nat.le_refl _, _, rfl, hsize, hmin, hmax, he⟩ hn ?_, trivial⟩
      exact Nat.max_eq_right (Nat.le_succ _)
    · exact trivial

/-- So do all uploads of a call. -/
theorem uploadPending_onRanges (pending : List (Option Int)) :
    OnRanges c U (routine (uploadPending c U pending)) (routine (uploadRanges pending)) := by
  induction pending with
  | nil => exact onRanges_done ()
  | cons createdAt rest ih =>
      rw [uploadPending, uploadRanges, routine_andThen, routine_andThen]
      exact (upload_onRanges createdAt).andThen fun _ => ih

/-- The images of a source hold what the transactions did. -/
def ImageSource.Exact (c : Codec) (U : Uploads) (image : ImageSource) : Prop :=
  ∀ t body, image t = some body → 1 ≤ t → t < 2 ^ 64 - 1 →
    ∀ createdAt, StoredOk c U t ⟨1, t, createdAt, body⟩

/-- So does a snapshot with an exact image. -/
theorem snapshotOf_onRanges {image : ImageSource} (hexact : image.Exact c U)
    (pending : List (Option Int)) (createdAt : Option Int) :
    OnRanges c U (routine (snapshotOf c U image pending createdAt))
      (routine (snapshotRange image pending createdAt)) := by
  refine (congrArg₂ (OnRanges c U) (routine_andThen _ _) (routine_andThen _ _)).mpr ?_
  refine (uploadPending_onRanges pending).andThen fun _ => ?_
  have huploaded : ∀ w : World, w.hollow.uploaded = w.uploaded := fun w => rfl
  refine ⟨fun w hw => ?_, fun w hw => ?_, fun w hw => ?_⟩
  all_goals
    unfold routine
    dsimp only
  · -- the same snapshot, without its body
    rw [huploaded]
    split
    · rfl
    · cases image w.uploaded <;> rfl
  · -- the image is read in both, or in neither
    rw [huploaded]
    split
    · exact .ok none
    · cases image w.uploaded with
      | none => exact .error trivial
      | some body => exact .ok _
  · split
    · exact trivial
    · rename_i hzero
      cases hbody : image w.uploaded with
      | none => exact trivial
      | some body =>
          exact ⟨hw.put (Nat.le_refl _) (hexact _ _ hbody (by omega) hw.bound _) hw.bound rfl,
            trivial⟩

/-- Compaction of files is compaction of ranges. -/
theorem compactFrom_onRanges (hc : c.Lawful) (srcLevel dstLevel : Nat) (createdAt : Option Int) :
    OnRanges c U (routine (compactFrom c srcLevel dstLevel createdAt))
      (routine (compactRange srcLevel dstLevel createdAt)) := by
  have hrun : ∀ w, Filed c U w →
      (compactRange srcLevel dstLevel createdAt w.hollow).1
        = (compactFrom c srcLevel dstLevel createdAt w).1.map Mutation.hollow ∧
      Script.SameEnd (fun _ _ => True) (compactFrom c srcLevel dstLevel createdAt w).2
        (compactRange srcLevel dstLevel createdAt w.hollow).2 ∧
      Script.AllowedAll World.act (fun w m => Filed c U (w.act m)) w
        (compactFrom c srcLevel dstLevel createdAt w).1 := by
    intro w hw
    unfold compactRange compactFrom
    rw [ltxFiles_hollow, seekTxid_hollow]
    cases hsrcs : w.bucket.ltxFiles srcLevel (seekTxid w.bucket dstLevel) with
    | nil => exact ⟨rfl, .ok false, trivial⟩
    | cons f fs =>
        dsimp only
        -- the sources are listed in order
        obtain ⟨s, rest, hfilter, rfl, rfl⟩ := List.map_eq_cons_iff.mp hsrcs
        obtain ⟨hlisted, hmin⟩ := hw.sources hfilter
        cases hbody : w.bucket.mergeFiles c
            (s.info srcLevel :: rest.map (Stored.info srcLevel)) with
        | error e =>
            have hnot : ¬ (s.info srcLevel :: rest.map (Stored.info srcLevel)).IsChain
                Contiguous := by
              intro hchain
              obtain ⟨body, hok⟩ := (hw.mergeFiles hc hlisted hmin).1 hchain
              rw [hbody] at hok
              cases hok
            rw [if_neg hnot]
            exact ⟨rfl, .error trivial, trivial⟩
        | ok body =>
            obtain ⟨hchain, g, rfl, hcar⟩ := (hw.mergeFiles hc hlisted hmin).2 body hbody
            have hok := hcar.storedOk (c := c) createdAt
            rw [if_pos hchain]
            refine ⟨rfl, .ok true, ?_, trivial⟩
            rw [foldl_min_of_le hmin, foldl_max_of_isChain hchain]
            refine hw.put (Nat.le_refl _) hok hw.bound ?_
            cases dstLevel with
            | zero => exact Nat.max_eq_left hok.1
            | succ l => rfl
  refine ⟨fun w hw => (hrun w hw).1, fun w hw => ?_, fun w hw => (hrun w hw).2.2⟩
  have hend := (hrun w hw).2.1
  show Script.SameEnd SameFailure
    ((compactFrom c srcLevel dstLevel createdAt w).2.mapError CallFailure.error)
    ((compactRange srcLevel dstLevel createdAt w.hollow).2.mapError CallFailure.error)
  generalize (compactFrom c srcLevel dstLevel createdAt w).2 = r at hend ⊢
  generalize (compactRange srcLevel dstLevel createdAt w.hollow).2 = r' at hend ⊢
  cases hend with
  | ok a => exact .ok a
  | error _ => exact .error trivial

/-- So does the retirement of snapshots. -/
theorem retireSnapshots_onRanges (retention : Nat) (now : Int) :
    OnRanges c U (routine (retireSnapshots retention now))
      (routine (retireSnapshots retention now)) :=
  onRanges_of_deletes (fun f w => retireSnapshots_mapBodies f _ _ w) fun w =>
    (retireSnapshots_deletes _ _ w).imp fun _ h => h.1

/-- So does the retirement of a level. -/
theorem retireLevel_onRanges (floor level : Nat) :
    OnRanges c U (routine (retireLevel floor level)) (routine (retireLevel floor level)) :=
  onRanges_of_deletes (fun f w => retireLevel_mapBodies f _ _ w) fun w =>
    (retireLevel_deletes _ _ w).imp fun _ h => h.1

/-- So does the cascade over the levels. -/
theorem retireLevels_onRanges (floor : Nat) (levels : List Nat) :
    OnRanges c U (routine (retireLevels floor levels)) (routine (retireLevels floor levels)) := by
  induction levels with
  | nil => exact onRanges_done 0
  | cons level levels ih =>
      refine (congrArg₂ (OnRanges c U) (routine_andThen _ _) (routine_andThen _ _)).mpr ?_
      refine (retireLevel_onRanges floor level).andThen fun _ => ?_
      refine (congrArg₂ (OnRanges c U) (routine_andThen _ _) (routine_andThen _ _)).mpr ?_
      exact ih.andThen fun _ => onRanges_done _

/-- So does the retention of level 0. -/
theorem enforceL0Retention_onRanges (grace : Nat) (now : Int) :
    OnRanges c U (routine (enforceL0Retention grace now))
      (routine (enforceL0Retention grace now)) :=
  onRanges_of_deletes (fun f w => enforceL0Retention_mapBodies f _ _ w) fun w =>
    (enforceL0Retention_deletes _ _ w).imp fun _ h => h.1

/-- So does retention as a whole. -/
theorem enforceRetention_onRanges (opts : MaintenanceOptions) (now : Int) :
    OnRanges c U (routine (enforceRetention opts now)) (routine (enforceRetention opts now)) := by
  refine (congrArg₂ (OnRanges c U) (routine_andThen _ _) (routine_andThen _ _)).mpr ?_
  refine (retireSnapshots_onRanges _ now).andThen fun r => ?_
  cases r with
  | none => exact onRanges_done 0
  | some r =>
      refine (congrArg₂ (OnRanges c U) (routine_andThen _ _) (routine_andThen _ _)).mpr ?_
      refine OnRanges.andThen ?_ fun _ => ?_
      · rw [routine_ite]
        exact OnRanges.ite _ (onRanges_done 0) (retireLevels_onRanges _ _)
      · refine (congrArg₂ (OnRanges c U) (routine_andThen _ _) (routine_andThen _ _)).mpr ?_
        exact (enforceL0Retention_onRanges _ now).andThen fun _ => onRanges_done _

/-- So does a compaction. -/
theorem compactLevelU8_onRanges (hc : c.Lawful) (level : UInt8) (createdAt : Option Int) :
    OnRanges c U (compactLevelU8 c checked level createdAt)
      (compactRangeU8 checked level createdAt) := by
  refine OnRanges.ite _ ?_ (compactFrom_onRanges hc _ _ createdAt)
  exact ⟨fun w hw => rfl, fun w hw => .error trivial, fun w hw => trivial⟩

/-- The steps of one maintenance run do on ranges what those of another one do on files. -/
structure Steps.OnRanges (c : Codec) (U : Uploads) (s t : Steps) : Prop where
  compact : ∀ i level, Liters.OnRanges c U (s.compact i level) (t.compact i level)
  retireL0 : Liters.OnRanges c U s.retireL0 t.retireL0
  snapshot : Liters.OnRanges c U s.snapshot t.snapshot
  retire : Liters.OnRanges c U s.retire t.retire

/-- So do the compactions of a maintenance run. -/
theorem Steps.OnRanges.compactDue {s t : Steps} (h : Steps.OnRanges c U s t)
    (opts : MaintenanceOptions) (now : Int) (i : Nat) (intervals : List Nat) :
    Liters.OnRanges c U (s.compactDue opts now i intervals)
      (t.compactDue opts now i intervals) := by
  induction intervals generalizing i with
  | nil => exact onRanges_done 0
  | cons interval intervals ih =>
      refine ((h.compact i _).whenDue _ _ _ _).andThen fun compacted => ?_
      refine (OnRanges.ite _ h.retireL0 (onRanges_done 0)).andThen fun deleted => ?_
      exact (ih (i + 1)).andThen fun _ => onRanges_done _

/-- So does a maintenance run. -/
theorem Steps.OnRanges.maintain {s t : Steps} (h : Steps.OnRanges c U s t)
    (opts : MaintenanceOptions) (now : Int) :
    Liters.OnRanges c U (s.maintain opts now) (t.maintain opts now) := by
  refine (h.compactDue opts now 0 _).andThen fun deleted => ?_
  refine (h.snapshot.whenDue _ _ _ _).andThen fun _ => ?_
  exact (OnRanges.ite _ h.retire (onRanges_done 0)).andThen fun _ => onRanges_done _

/-- The snapshots of a call hold what the transactions did. -/
def Call.Exact (c : Codec) (U : Uploads) : Call → Prop
  | .push _ => True
  | .compactLevel _ _ => True
  | .snapshot image _ _ => image.Exact c U
  | .maintain image _ _ _ _ _ => image.Exact c U

/-- **Contents do not matter.** A call changes the ranges of the files as its image on ranges
does. -/
theorem Call.onRanges (hc : c.Lawful) {call : Call} (hexact : call.Exact c U) :
    OnRanges c U (call.run c checked U) (call.ranges checked) := by
  cases call with
  | push pending => exact (uploadPending_onRanges pending).andThen fun _ => onRanges_done ()
  | compactLevel level createdAt =>
      exact (compactLevelU8_onRanges hc level createdAt).andThen fun _ => onRanges_done ()
  | snapshot image pending createdAt =>
      exact (snapshotOf_onRanges hexact pending createdAt).andThen fun _ => onRanges_done ()
  | maintain image opts now createdAt pending snapshotAt =>
      refine OnRanges.andThen ?_ fun _ => onRanges_done ()
      refine Steps.OnRanges.maintain ⟨fun i level => ?_, ?_, ?_, ?_⟩ opts now
      · exact compactLevelU8_onRanges hc level _
      · exact enforceL0Retention_onRanges _ now
      · exact snapshotOf_onRanges hexact pending snapshotAt
      · exact enforceRetention_onRanges opts now

/-! ## Runs on ranges -/

/-- A call, run to its end, on a bucket without contents. -/
def Call.afterRanges (checked : Bool) (w : World) (call : Call) : World :=
  Script.applyAll World.act w (call.ranges checked w).1

/-- Calls of a kind, run to their ends one after the other, reach a bucket with these ranges. -/
theorem Ran.of_ranges (checked : Bool) (hc : c.Lawful) {P : Call → Prop} (calls : List Call)
    (hcalls : ∀ x ∈ calls, P x) (hexact : ∀ x ∈ calls, x.Exact c U) :
    ∃ w, Ran c checked U P w ∧ Filed c U w ∧
      w.hollow = calls.foldl (Call.afterRanges checked) ⟨Bucket.empty, 0⟩ := by
  induction calls using List.reverseRecOn with
  | nil =>
      exact ⟨_, .start, ⟨by decide, fun _ s hs => (by cases hs), fun _ => .nil⟩, rfl⟩
  | append_singleton calls call ih =>
      obtain ⟨w, hran, hfiled, hhollow⟩ := ih (fun x hx => hcalls x (List.mem_append_left _ hx))
        fun x hx => hexact x (List.mem_append_left _ hx)
      have hsim : OnRanges c U (call.run c checked U) (call.ranges checked) :=
        Call.onRanges hc (hexact call (by simp))
      refine ⟨_, hran.step call (hcalls call (by simp)) (call.run c checked U w).1.length, ?_, ?_⟩
      · rw [Call.cut, List.take_length]
        exact Script.AllowedAll.keeps (fun w m (_ : Filed c U w) (hm : Filed c U (w.act m)) => hm)
          (hsim.keeps w hfiled) hfiled
      · rw [Call.cut, List.take_length, Script.abs_applyAll World.hollow_act,
          ← hsim.mutations w hfiled, List.foldl_append, hhollow]
        rfl

end Liters
