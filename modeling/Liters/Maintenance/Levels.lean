import Liters.Maintenance.Calls
import Liters.Maintenance.Restorable
import Liters.Writer.SnapshotLevel

/-! # What level 9 holds

Restores and followers take the newest level-9 file as a base: `calc_restore_plan` starts a plan
there, and `finish_incremental` applies it over any position. That is right for full images only. A
snapshot is one, as `snapshot_with` writes every page of the database that it reads; a compaction
into level 9 need not be one. As long as calls compact into levels 1 to 8 only, every level-9 file
is a valid base. -/

namespace Liters

variable {c : Codec} {U : Uploads} {checked : Bool} {w : World}

/-- A file that is a base for a restore and for any follower: it starts at transaction 1, carries
every page but the lock page, decodes to an image with as many pages as it says, and leads there
from any image. -/
def FullBase (c : Codec) (s : Stored) : Prop :=
  s.minTxid = 1 ∧ ∃ (f : LtxFile) (img : Image Bytes), s.body = f.bytes c ∧ f.hdr.minTxid = 1 ∧
    f.hdr.maxTxid.toNat = s.maxTxid ∧
    f.pages.map Prod.fst = snapshotPgnos f.lock f.hdr.commit.toNat ∧ img.size = f.hdr.commit.toNat ∧
    decodeDatabaseTo c s.body
      = .ok (img.toBytes f.lock (List.replicate f.hdr.pageSize.toNat 0)) ∧
    ∀ a : Image Bytes,
      Image.AgreeOff f.lock (a.apply (List.replicate f.hdr.pageSize.toNat 0) f.patch) img

/-- Level 9 holds full images only, every file lies in one of the levels 0 to 9, and no call of the
kind panics. -/
structure LevelsOk (c : Codec) (checked : Bool) (U : Uploads) (P : Call → Prop) (w : World) :
    Prop where
  full : ∀ s ∈ w.bucket snapshotLevel, FullBase c s
  levels : ∀ level, snapshotLevel < level → w.bucket level = []
  calls : ∀ call, P call → ¬ call.Panics c checked U w

/-! ## Snapshots of a database -/

/-- What `snapshot_with` reads behind its sync: the page size, the files at each moment, where the
sync ended and the time. -/
structure DatabaseRead where
  pageSize : UInt32
  live : Nat → Local.Files
  syncedEnd : Nat
  now : Int64

/-- The file that it makes, labelled with a transaction. -/
def DatabaseRead.image (c : Codec) (read : DatabaseRead) : ImageSource := fun txid =>
  match Local.snapshotFile c read.pageSize.toNat read.live read.syncedEnd txid read.now with
  | .ok f => some (f.bytes c)
  | .error _ => none

/-- The snapshots of a call are read from a database. -/
def Call.FromDatabase (c : Codec) : Call → Prop
  | .push _ => True
  | .compactLevel _ _ => True
  | .snapshot image _ _ => ∃ read : DatabaseRead, image = read.image c
  | .maintain image _ _ _ _ _ => ∃ read : DatabaseRead, image = read.image c

/-- A file with all page numbers is complete. -/
theorem LtxFile.complete_of_pgnos {f : LtxFile}
    (h : f.pages.map Prod.fst = snapshotPgnos f.lock f.hdr.commit.toNat) :
    f.patch.Complete f.lock := by
  rintro p hpos hle hne
  have hmem : p ∈ f.pages.map Prod.fst := by
    rw [h]
    have hle' : p ≤ f.hdr.commit.toNat := hle
    exact List.mem_filter.mpr ⟨List.mem_range'_1.mpr (by omega), decide_eq_true hne⟩
  obtain ⟨⟨_, d⟩, hp, rfl⟩ := List.mem_map.mp hmem
  exact Option.isSome_of_eq_some (LtxFile.mem_pages_iff.mp hp)

/-- A complete patch leaves nothing of what it is applied to. -/
theorem Image.apply_agreeOff {skip : Nat} {e : Patch Bytes} (h : e.Complete skip) (zero : Bytes)
    (a b : Image Bytes) :
    Image.AgreeOff skip (a.apply zero e) (b.apply zero e) := by
  refine ⟨rfl, fun p hpos hle hne => ?_⟩
  obtain ⟨v, hv⟩ := Option.isSome_iff_exists.mp (h p hpos hle hne)
  simp only [Image.apply, hv, Option.getD_some]

/-- **A snapshot is a base**, whatever the application commits while it is read. -/
theorem DatabaseRead.fullBase (hc : c.Lawful) {read : DatabaseRead} {t : Nat} {body : Bytes}
    (h : read.image c t = some body) (ht : t < 2 ^ 64) (createdAt : Option Int) :
    FullBase c ⟨1, t, createdAt, body⟩ := by
  unfold DatabaseRead.image at h
  split at h
  · rename_i f hfile
    obtain rfl := Option.some.inj h
    obtain ⟨hmin, hmax, hsize, hpgnos⟩ := Local.snapshotFile_complete hfile
    have hlock : f.lock = lockPgno read.pageSize.toNat := by
      rw [LtxFile.lock, Header.lockPgno, hsize, UInt32.ofNat_toNat]
    rw [← hlock] at hpgnos
    have hcomplete := LtxFile.complete_of_pgnos hpgnos
    refine ⟨rfl, f, _, rfl, hmin, ?_, hpgnos, rfl,
      decodeDatabaseTo_bytes hc (by simp [Header.isSnapshot, hmin]) hcomplete ⟨0, fun _ => []⟩,
      fun a => Image.apply_agreeOff hcomplete _ a _⟩
    rw [hmax]
    exact UInt64.toNat_ofNat_of_lt' ht
  · cases h

/-! ## Ordinary calls -/

/-- The requests of ordinary calls: the next level-0 file, files of levels 1 to 8, full images and
deletes. -/
inductive Placed (c : Codec) : Mutation → Prop where
  | upload (s : Stored) (hmax : s.maxTxid < 2 ^ 64 - 1) : Placed c (.put 0 s)
  | level (l : Nat) (s : Stored) (hlow : 1 ≤ l) (hhigh : l < snapshotLevel) : Placed c (.put l s)
  | snapshot (s : Stored) (hfull : FullBase c s) : Placed c (.put snapshotLevel s)
  | delete (l minTxid maxTxid : Nat) : Placed c (.delete l minTxid maxTxid)

/-- A world whose level 9 holds full images, without files above it. -/
structure Levelled (c : Codec) (w : World) : Prop where
  bound : w.uploaded < 2 ^ 64 - 1
  full : ∀ s ∈ w.bucket snapshotLevel, FullBase c s
  high : ∀ level, snapshotLevel < level → w.bucket level = []

/-- **One request** keeps this. -/
theorem levelled_step (w : World) (m : Mutation) (h : Levelled c w) (hm : Placed c m) :
    Levelled c (w.act m) := by
  have hput : ∀ (l : Nat) (s : Stored), l ≤ snapshotLevel →
      ∀ level, snapshotLevel < level → (w.act (.put l s)).bucket level = [] := by
    intro l s hl level hlevel
    rw [World.act_put_of_ne w s (by omega)]
    exact h.high level hlevel
  cases hm with
  -- a push only writes level 0
  | upload s hmax =>
      refine ⟨Nat.max_lt.mpr ⟨h.bound, hmax⟩, fun x hx => ?_, hput 0 s (Nat.zero_le _)⟩
      rw [World.act_put_of_ne w s (by decide)] at hx
      exact h.full x hx
  -- a compaction writes below the snapshot level
  | level l s hlow hhigh =>
      refine ⟨?_, fun x hx => ?_, hput l s hhigh.le⟩
      · cases l with
        | zero => cases hlow
        | succ l => exact h.bound
      · rw [World.act_put_of_ne w s (Nat.ne_of_gt hhigh)] at hx
        exact h.full x hx
  -- a snapshot adds a full image to level 9
  | snapshot s hfull =>
      refine ⟨h.bound, fun x hx => ?_, hput snapshotLevel s (Nat.le_refl _)⟩
      rw [World.act_put_same] at hx
      rcases Bucket.mem_insertFile.1 hx with rfl | hx
      · exact hfull
      · exact h.full x hx
  -- a DELETE leaves fewer files, full ones as before
  | delete l minTxid maxTxid =>
      refine ⟨h.bound, fun x hx => ?_, fun level hlevel => ?_⟩
      · by_cases hl : snapshotLevel = l
        · subst hl
          rw [World.act_delete_same] at hx
          exact h.full x (List.mem_of_mem_filter hx)
        · rw [World.act_delete_of_ne w _ _ hl] at hx
          exact h.full x hx
      · by_cases hl : level = l
        · subst hl
          rw [World.act_delete_same, h.high level hlevel]
          rfl
        · rw [World.act_delete_of_ne w _ _ hl]
          exact h.high level hlevel

/-- A procedure that only makes such requests. -/
abbrev Placing (c : Codec) {α : Type} (p : Procedure α) : Prop :=
  Script.Safe World.act (Levelled c) (fun _ m => Placed c m) p

/-- Procedures that place files rightly do so one after the other. -/
theorem Placing.andThen {α β : Type} {p : Procedure α} {q : α → Procedure β} (hp : Placing c p)
    (hq : ∀ a, Placing c (q a)) : Placing c (p.andThen World.act q) :=
  Script.Safe.andThen levelled_step hp hq

/-- Doing nothing places no file. -/
theorem placing_done {α : Type} (a : α) : Placing c (Script.done a) := Script.safe_done a

/-- They do so in both branches of a choice. -/
theorem Placing.ite {α : Type} {p q : Procedure α} (b : Prop) [Decidable b] (hp : Placing c p)
    (hq : Placing c q) :
    Placing c (if b then p else q) := by
  split
  · exact hp
  · exact hq

/-- Deletes lie anywhere. -/
theorem placed_deletes (w : World) (infos : List FileInfo) :
    Script.AllowedAll World.act (fun _ m => Placed c m) w (Bucket.deleteLtxFiles infos) := by
  induction infos generalizing w with
  | nil => exact trivial
  | cons f infos ih => exact ⟨.delete .., ih _⟩

/-- An upload places its file at level 0. -/
theorem upload_placing (createdAt : Option Int) : Placing c (upload c U createdAt) := by
  intro w _
  rw [upload]
  split
  · rename_i hn
    exact ⟨.upload _ hn, trivial⟩
  · exact trivial

/-- So do all uploads of a call. -/
theorem uploadPending_placing (pending : List (Option Int)) :
    Placing c (uploadPending c U pending) := by
  induction pending with
  | nil => exact placing_done ()
  | cons createdAt rest ih => exact (upload_placing createdAt).andThen fun _ => ih

/-- **A snapshot** read from a database is placed at level 9. -/
theorem snapshotOf_placing (hc : c.Lawful) (read : DatabaseRead) (pending : List (Option Int))
    (createdAt : Option Int) : Placing c (snapshotOf c U (read.image c) pending createdAt) := by
  refine (uploadPending_placing pending).andThen fun _ w hw => ?_
  by_cases hzero : w.uploaded = 0
  · simp only [if_pos hzero]
    exact trivial
  · simp only [if_neg hzero]
    cases hbody : read.image c w.uploaded with
    | none => exact trivial
    | some body =>
        have hbound := hw.bound
        exact ⟨.snapshot _ (DatabaseRead.fullBase hc hbody (by omega) createdAt), trivial⟩

/-- A compaction into levels 1 to 8 places its file there. -/
theorem compactLevel_placing {level : Nat} (hlow : 1 ≤ level) (hhigh : level < snapshotLevel)
    (createdAt : Option Int) :
    Placing c (compactLevel c level createdAt) := by
  intro w _
  unfold compactLevel
  cases w.bucket.ltxFiles (level - 1) (seekTxid w.bucket level) with
  | nil => exact trivial
  | cons f fs =>
      dsimp only
      split
      · exact ⟨.level _ _ hlow hhigh, trivial⟩
      · exact trivial

/-- Retiring snapshots places nothing. -/
theorem retireSnapshots_placing (retention : Nat) (now : Int) :
    Placing c (retireSnapshots retention now) := by
  intro w _
  unfold retireSnapshots
  dsimp only
  split
  · exact trivial
  · exact placed_deletes w _

/-- Retiring a level places nothing. -/
theorem retireLevel_placing (floor level : Nat) : Placing c (retireLevel floor level) := by
  intro w _
  unfold retireLevel
  dsimp only
  split
  · exact trivial
  · exact placed_deletes w _

/-- The cascade over the levels places nothing. -/
theorem retireLevels_placing (floor : Nat) (levels : List Nat) :
    Placing c (retireLevels floor levels) := by
  induction levels with
  | nil => exact placing_done 0
  | cons level levels ih =>
      exact (retireLevel_placing floor level).andThen fun _ => ih.andThen fun _ => placing_done _

/-- Retention of level 0 places nothing. -/
theorem enforceL0Retention_placing (grace : Nat) (now : Int) :
    Placing c (enforceL0Retention grace now) := by
  intro w _
  unfold enforceL0Retention
  dsimp only
  split
  · exact trivial
  · split
    · exact trivial
    · exact placed_deletes w _

/-- Retention as a whole places nothing. -/
theorem enforceRetention_placing (opts : MaintenanceOptions) (now : Int) :
    Placing c (enforceRetention opts now) := by
  refine (retireSnapshots_placing _ now).andThen fun r => ?_
  cases r with
  | none => exact placing_done 0
  | some r =>
      refine (Placing.ite _ (placing_done 0) (retireLevels_placing _ _)).andThen fun _ => ?_
      exact (enforceL0Retention_placing _ now).andThen fun _ => placing_done _

/-- The compactions of a maintenance run place their files at levels 1 to 8. -/
theorem compactDue_placing (opts : MaintenanceOptions) (now : Int) (createdAt : Nat → Option Int)
    {intervals : List Nat} {level : Nat} (hlow : 1 ≤ level)
    (hhigh : level + intervals.length ≤ snapshotLevel) :
    Placing c (compactDue c opts now createdAt level intervals) := by
  induction intervals generalizing level with
  | nil => exact placing_done 0
  | cons interval intervals ih =>
      rw [List.length_cons] at hhigh
      refine Placing.andThen (fun w hw => ?_) fun compacted => ?_
      · by_cases hdue : levelDue w.bucket level interval now
        · simp only [if_pos hdue]
          exact compactLevel_placing hlow (by omega) _ w hw
        · simp only [if_neg hdue]
          exact trivial
      · refine (Placing.ite _ (enforceL0Retention_placing _ now) (placing_done 0)).andThen
          fun deleted => ?_
        exact (ih (by omega) (by omega)).andThen fun _ => placing_done _

/-- **A maintenance run** over at most eight intervals places its files rightly. -/
theorem maintainOf_placing (hc : c.Lawful) (read : DatabaseRead) {opts : MaintenanceOptions}
    (hlevels : opts.levelIntervals.length ≤ 8) (now : Int) (createdAt : Nat → Option Int)
    (pending : List (Option Int)) :
    Placing c (maintainOf c U (read.image c) opts now createdAt pending) := by
  have hnine : 1 + opts.levelIntervals.length ≤ snapshotLevel := by
    rw [snapshotLevel]
    omega
  refine (compactDue_placing opts now createdAt (Nat.le_refl 1) hnine).andThen fun _ => ?_
  refine Placing.andThen (fun w hw => ?_) fun _ => ?_
  · by_cases hdue : levelDue w.bucket snapshotLevel opts.snapshotInterval now
    · simp only [if_pos hdue]
      exact snapshotOf_placing hc read pending _ w hw
    · simp only [if_neg hdue]
      exact trivial
  · exact (Placing.ite _ (enforceRetention_placing opts now) (placing_done 0)).andThen fun _ =>
      placing_done _

/-- **Ordinary calls** whose snapshots are read from a database make such requests only. -/
theorem Call.Ordinary.placed (hc : c.Lawful) {call : Call} (h : call.Ordinary)
    (hread : call.FromDatabase c) (hw : Levelled c w) :
    Script.AllowedAll World.act (fun _ m => Placed c m) w (call.requests c U w) := by
  cases call with
  | push pending => exact uploadPending_placing pending w hw
  | compactLevel level createdAt =>
      exact compactLevel_placing h.1 (Nat.lt_succ_of_le h.2) createdAt w hw
  | snapshot image pending createdAt =>
      obtain ⟨read, rfl⟩ := hread
      exact snapshotOf_placing hc read pending createdAt w hw
  | maintain image opts now createdAt pending snapshotAt =>
      obtain ⟨read, rfl⟩ := hread
      exact maintainOf_placing hc read h now _ pending w hw

/-- **Runs of ordinary calls.** -/
theorem Ran.levelled (hc : c.Lawful)
    (h : Ran c checked U (fun call => call.Ordinary ∧ call.FromDatabase c) w) :
    Levelled c w := by
  induction h with
  | start => exact ⟨by decide, fun s hs => (by cases hs), fun level _ => rfl⟩
  | @step w _ call hcall k ih =>
      rw [Call.cut, (hcall.1.run_eq checked w).1]
      exact (hcall.1.placed hc hcall.2 ih).keeps_take levelled_step ih k

/-- **Level 9 holds full images only.** In every run of pushes, snapshots, `compact_level` calls
into levels 1 to 8 and maintenance runs with at most eight level intervals, each cut after any
number of requests, whose snapshots are made of whatever files are found: every level-9 file is a
base for restores and followers, every file lies in one of the levels 0 to 9, and no such call
panics. -/
theorem ran_levelsOk (hc : c.Lawful)
    (h : Ran c checked U (fun call => call.Ordinary ∧ call.FromDatabase c) w) :
    LevelsOk c checked U (fun call => call.Ordinary ∧ call.FromDatabase c) w where
  full := (h.levelled hc).full
  levels := (h.levelled hc).high
  calls _ hcall := (hcall.1.run_eq checked w).2

/-- The two transactions of a database that is written to. -/
def growingRead : DatabaseRead := ⟨512, fun m => Local.growingFiles (m + 1), 1104, 0⟩

/-- The image is the file that was made. -/
theorem DatabaseRead.image_of_ok {read : DatabaseRead} {t : Nat} {f : LtxFile}
    (h : Local.snapshotFile c read.pageSize.toNat read.live read.syncedEnd t read.now = .ok f) :
    read.image c t = some (f.bytes c) := by
  unfold DatabaseRead.image
  rw [h]

/-- The image of the sample database. -/
theorem growingRead_image :
    growingRead.image literalCodec 2 = some (Local.bothSnapshot.bytes literalCodec) := by
  have hfile : Local.snapshotFile literalCodec 512 (fun m => Local.growingFiles (m + 1)) 1104 2 0 =
      .ok Local.bothSnapshot :=
    @Local.snapshotFile_eq_ok literalCodec 512 (fun m => Local.growingFiles (m + 1)) 1104 2 0 _ _ _
      Local.bothSnapshot
      Local.growingWorld.newGrown Local.growingWorld.live Local.growingWorld.snapshot rfl
  exact DatabaseRead.image_of_ok hfile

/-- The requests of a first snapshot behind two transactions. -/
theorem snapshotOf_two {image : ImageSource} {body : Bytes} (hbody : image 2 = some body) :
    (snapshotOf c U image [none, none] none ⟨Bucket.empty, 0⟩).1
      = [.put 0 ⟨1, 1, none, (U.file 1).bytes c⟩, .put 0 ⟨2, 2, none, (U.file 2).bytes c⟩,
        .put snapshotLevel ⟨1, 2, none, body⟩] := by
  simp [snapshotOf, uploadPending, upload, Script.andThen, Script.done, Script.applyAll, World.act,
    hbody]

/-- A snapshot of the first two transactions. -/
theorem ran_levelsOk_snapshot :
    ∃ w, Ran literalCodec true onePageUploads
      (fun call => call.Ordinary ∧ call.FromDatabase literalCodec) w ∧
      (w.bucket snapshotLevel).map Stored.key = [(1, 2)] ∧
      LevelsOk literalCodec true onePageUploads
        (fun call => call.Ordinary ∧ call.FromDatabase literalCodec) w := by
  have hempty : Ran literalCodec true onePageUploads
      (fun call => call.Ordinary ∧ call.FromDatabase literalCodec) ⟨Bucket.empty, 0⟩ := .start
  have hrun := hempty.step (.snapshot (growingRead.image literalCodec) [none, none] none)
    ⟨trivial, growingRead, rfl⟩ 3
  refine ⟨_, hrun, ?_, ran_levelsOk literalCodec_lawful hrun⟩
  have hordinary : Call.Ordinary (.snapshot (growingRead.image literalCodec) [none, none] none) :=
    trivial
  rw [Call.cut, (hordinary.run_eq true _).1, Call.requests, snapshotOf_two growingRead_image]
  generalize Local.bothSnapshot.bytes literalCodec = body
  rfl

/-! ## Nine level intervals -/

/-- A database that cannot be read. -/
def noRead : DatabaseRead := ⟨512, fun _ => ⟨[], []⟩, 0, 0⟩

/-- Maintenance with an interval for level 9, and without snapshots of its own. -/
def nineLevels : Call :=
  .maintain (noRead.image literalCodec) ⟨List.replicate 9 0, 1000, 0, 0, false⟩ 0 (fun _ => some 0)
    [] (some 0)

/-- A push, maintenance, and the same again. -/
def nineLevelsRun : List Call := [.push [some 0], nineLevels, .push [some 0], nineLevels]

/-- The second run merges transaction 2 alone into level 9. -/
theorem nineLevelsRun_keys :
    ((nineLevelsRun.foldl (Call.afterRanges false) ⟨Bucket.empty, 0⟩).bucket snapshotLevel).map
      Stored.key
      = [(1, 1), (2, 2)] := by
  decide +kernel

/-- A database that cannot be read has no image. -/
theorem noRead_image (t : Nat) : noRead.image literalCodec t = none := rfl

/-- After a push, maintenance with nine level intervals, another push and the same maintenance,
level 9 holds a file that starts at transaction 2. -/
theorem not_ran_levelsOk :
    ¬ ∀ w, Ran literalCodec false onePageUploads (Call.FromDatabase literalCodec) w →
      LevelsOk literalCodec false onePageUploads (Call.FromDatabase literalCodec) w := by
  intro h
  have hnine : nineLevels.FromDatabase literalCodec ∧
      nineLevels.Exact literalCodec onePageUploads := by
    refine ⟨⟨noRead, rfl⟩, fun t body hbody => ?_⟩
    rw [noRead_image] at hbody
    cases hbody
  have hcalls : ∀ x ∈ nineLevelsRun, x.FromDatabase literalCodec ∧
      x.Exact literalCodec onePageUploads := by
    simp only [nineLevelsRun, List.forall_mem_cons]
    exact ⟨⟨trivial, trivial⟩, hnine, ⟨trivial, trivial⟩, hnine, by simp⟩
  obtain ⟨w, hran, -, hw⟩ :=
    Ran.of_ranges false literalCodec_lawful nineLevelsRun (fun x hx => (hcalls x hx).1)
    fun x hx => (hcalls x hx).2
  have hkeys := nineLevelsRun_keys
  rw [← hw] at hkeys
  have hmem : (2, 2) ∈ (w.hollow.bucket snapshotLevel).map Stored.key := by
    rw [hkeys]
    decide
  obtain ⟨x, hx, hkey⟩ := List.mem_map.mp hmem
  obtain ⟨s, hs, rfl⟩ := List.mem_map.mp hx
  have hone := ((h w hran).full s hs).1
  have htwo : s.minTxid = 2 := (Prod.mk.inj hkey).1
  omega

end Liters
