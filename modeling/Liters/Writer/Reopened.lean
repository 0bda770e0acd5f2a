import Liters.Writer.LiveDb
import Mathlib.Logic.Relation

/-! # While the writer is closed

A writer is closed and opened again. In between, applications commit, checkpoint, restart the WAL
and cut it, as often and in whatever order they like. Its next sync goes by one frame and the salts
that are left in the WAL. -/

namespace Liters

namespace Local

open WalReader LogEntry

/-- What applications make of a database while the writer is closed. -/
abbrev AppRun (pageSize : Nat) : LiveDb → LiveDb → Prop :=
  Relation.ReflTransGen fun d d' => ∃ act, AppStep pageSize d act d'

/-- The writer is opened again: of its state only the advisory offset was kept. -/
def LiveDb.reopened (d : LiveDb) (offset : Nat) : LiveDb := { d with state := ⟨offset, false⟩ }

variable {pageSize : Nat} {d d' : LiveDb}

/-- **Every run of the applications keeps track.** -/
theorem Tracked.appRun (h : Tracked pageSize d) (hrun : AppRun pageSize d d') :
    Tracked pageSize d' := by
  induction hrun with
  | refl => exact h
  | tail _ hstep ih =>
      obtain ⟨_, hstep⟩ := hstep
      exact ih.appStep hstep

/-- The L0 files have nothing to do with the state of the writer. -/
theorem Tracked.reopened (h : Tracked pageSize d) (offset : Nat) :
    Tracked pageSize (d.reopened offset) := by
  refine ⟨h.written, h.salts, h.length, h.locked, fun ltx hltx => ?_, h.caught⟩
  have hends := h.newest ltx hltx
  exact ⟨hends.seen, hends.aligned, hends.last, hends.same, hends.other⟩

/-- **No commit is lost while the writer is closed**, if what was committed before the WAL was last
restarted or cut is noticed: where some of it was not synced, the WAL is not taken for the one
behind the newest L0 file. -/
theorem reopened_sync_catches_up {c : Codec} {now : Int64} {outcome : Local.SyncOutcome}
    {l0 : Option LtxFile} {offset : Nat} (htracked : Tracked pageSize d)
    (hrun : AppRun pageSize d d')
    (hnoticed : d'.missed = true → ¬ TakenForNext pageSize (d'.reopened offset))
    (hsync : verifyAndSync c pageSize d'.files (d'.reopened offset).state d'.chain now =
      .ok (outcome, l0)) :
    Image.AgreeOff (lockPgno pageSize) (fold pageSize (d'.chain ++ l0.toList)) d'.database :=
  ((htracked.appRun hrun).reopened offset).sync hnoticed hsync

/-! ## A database with two synced commits -/

/-- The WAL of a new database: two commits. -/
def twoWal : Bytes := walBytes true 512 7 9 [(⟨1, 1⟩, filled 1), (⟨2, 2⟩, filled 2)]

/-- A reader at the top of it. -/
def twoReader : WalReader where
  r := twoWal
  bigEndian := true
  pageSize := 512
  salt1 := 7
  salt2 := 9
  chksum := storedChecksum twoWal 24

/-- The page map of the third commit. -/
def thirdMap : PageMap := ⟨SortedMap.empty.insert 2 1104, 1640, 2⟩

/-- The writer is closed: the two commits are synced. -/
def closedDb : LiveDb where
  files := ⟨[], twoWal⟩
  base := emptyBase
  seen := [(7, 9)]
  chain := [leftL0]
  state := {}
  unsynced := false
  missed := false

/-- A third transaction is committed. -/
def leftDb : LiveDb := { closedDb with files := ⟨[], leftWal⟩, unsynced := true }

/-- Where the sync of the third commit resumes. -/
def leftInfo : SyncInfo where
  offset := 1104
  salt1 := 7
  salt2 := 9
  snapshotting := false

/-- What the files hold, by evaluation. -/
structure ReopenedWorld : Prop where
  newTwo : new twoWal = .ok twoReader
  twoChain : twoReader.Chain maxOffset 2
  twoEnd : ¬ (twoReader.Linked 2 ∧ twoReader.slotStart 2 < maxOffset)
  twoFrames : twoReader.entries 0 2 = [⟨1, 32, 1⟩, ⟨2, 568, 2⟩]
  twoMap : (twoReader.pageMapUntil 1104).1 = leftMap
  twoWhole : twoReader.pageMap.1 = leftMap
  firstPage : readAt twoWal 56 512 = filled 1
  secondPage : readAt twoWal 592 512 = filled 2
  lastFrame : (beField (readAt twoWal 568 536) 0, (readAt twoWal 568 536).drop 24) = (2, filled 2)
  leftChain : leftReader.Chain maxOffset 3
  leftEnd : ¬ (leftReader.Linked 3 ∧ leftReader.slotStart 3 < maxOffset)
  leftFrames : leftReader.entries 0 3 = [⟨1, 32, 1⟩, ⟨2, 568, 2⟩, ⟨2, 1104, 2⟩]
  kept : leftWal.take 1104 = twoWal.take 1104
  leftLength : leftWal.length = 1640
  twoLength : twoWal.length = 1104
  salts : saltsAt twoWal 16 = (7, 9)
  verify : verify (some leftL0) leftWal 512 {} = .ok leftInfo
  opened : openReader leftWal leftInfo = .ok (leftReader.atSlot 2, 1104)
  thirdMap : (leftReader.atSlot 2).pageMap.1 = thirdMap
  pages : l0Pages false 512 ⟨[], leftWal⟩ 2 Local.thirdMap = .ok [(2, filled 3)]
  topOpened : openReader twoWal { offset := walHeaderSize, salt1 := 0, salt2 := 0 } =
    .ok (twoReader, 32)
  topPages : l0Pages true 512 ⟨[], twoWal⟩ 2 leftMap = .ok leftL0.pages
  flushed : pageAt 512 nextFiles.db 1 = filled 1 ∧ pageAt 512 nextFiles.db 2 = filled 3
  nextLength : nextWal.length = 1640

/-- The sample databases are in good order. -/
theorem reopenedWorld : ReopenedWorld where
  newTwo := by decide +kernel
  twoChain := by decide +kernel
  twoEnd := by decide +kernel
  twoFrames := by decide +kernel
  twoMap := by decide +kernel
  twoWhole := by decide +kernel
  firstPage := by decide +kernel
  secondPage := by decide +kernel
  lastFrame := by decide +kernel
  leftChain := by decide +kernel
  leftEnd := by decide +kernel
  leftFrames := by decide +kernel
  kept := by decide +kernel
  leftLength := by decide +kernel
  twoLength := by decide +kernel
  salts := by decide +kernel
  verify := by decide +kernel
  opened := by decide +kernel
  thirdMap := by decide +kernel
  pages := by decide +kernel
  topOpened := by decide +kernel
  topPages := by decide +kernel
  flushed := by decide +kernel
  nextLength := by decide +kernel

/-- The L0 file of the third commit. -/
def thirdL0 : LtxFile where
  hdr := l0Header 512 2 2 1104 536 0 (leftReader.atSlot 2)
  pages := [(2, filled 3)]
  valid := by decide +kernel
  pagesOk := by decide +kernel
  noChecksum := by decide
  commit_ne_zero := by decide

/-- A log whose first entry commits all the keys it grows by. -/
theorem growsFrom_cons {skip size : Nat} {e : LogEntry} {log : List LogEntry} (he : e.commit ≠ 0)
    (hfirst : ∀ k, size < k → k ≤ e.commit → k ≠ skip → k = e.key)
    (hlater : Grows skip (e :: log)) :
    GrowsFrom skip size (e :: log) := by
  refine ⟨fun front y rest hlog hfront hy k hlow hhigh hk => ?_, hlater⟩
  cases front with
  | nil =>
      cases hlog
      rw [hfirst k hlow hhigh hk]
      exact List.mem_singleton_self _
  | cons x front =>
      cases hlog
      exact absurd (hfront _ (List.mem_cons_self ..)) he

/-- The frames of the first WAL. -/
theorem frames_twoReader : twoReader.frames maxOffset = [⟨1, 32, 1⟩, ⟨2, 568, 2⟩] := by
  rw [frames, chainLength_eq reopenedWorld.twoChain reopenedWorld.twoEnd, reopenedWorld.twoFrames]

/-- The frames of the WAL left behind. -/
theorem frames_leftReader :
    leftReader.frames maxOffset = [⟨1, 32, 1⟩, ⟨2, 568, 2⟩, ⟨2, 1104, 2⟩] := by
  rw [frames, chainLength_eq reopenedWorld.leftChain reopenedWorld.leftEnd,
    reopenedWorld.leftFrames]

/-- Where the first WAL's commits end. -/
theorem committedEnd_twoReader : twoReader.committedEnd = 1104 := by
  rw [committedEnd, frames_twoReader]
  decide

/-- Where those left behind end. -/
theorem committedEnd_leftReader : leftReader.committedEnd = 1640 := by
  rw [committedEnd, frames_leftReader]
  decide

/-- Where those of the next WAL end. -/
theorem committedEnd_nextReader : nextReader.committedEnd = 568 := by
  rw [committedEnd, frames_nextReader]
  decide

/-- The first WAL is written plainly. -/
theorem writtenPlain_twoReader : WrittenPlain twoReader 512 emptyBase where
  pageSize_eq := rfl
  grows := by
    rw [frames_twoReader]
    refine growsFrom_cons (by decide) (fun k hlow hhigh _ => Nat.le_antisymm hhigh hlow)
      (grows_of_key ?_)
    simp only [List.forall_mem_cons, List.not_mem_nil]
    grind
  pgno_le := by
    rw [frames_twoReader]
    decide
  plain := by
    rw [frames_twoReader]
    decide

/-- So is the one left behind. -/
theorem writtenPlain_leftReader : WrittenPlain leftReader 512 emptyBase where
  pageSize_eq := rfl
  grows := by
    rw [frames_leftReader]
    refine growsFrom_cons (by decide) (fun k hlow hhigh _ => Nat.le_antisymm hhigh hlow)
      (grows_of_key ?_)
    simp only [List.mem_cons, List.not_mem_nil, or_false]
    rintro x (rfl | rfl | rfl) - y (rfl | rfl | rfl) k hlow hhigh - <;> dsimp only at hlow hhigh ⊢
      <;> omega
  pgno_le := by
    rw [frames_leftReader]
    decide
  plain := by
    rw [frames_leftReader]
    decide

/-- The fold is the database at the end of the two commits. -/
theorem fold_closedDb : Image.AgreeOff (lockPgno 512) (fold 512 [leftL0])
    (twoReader.stateAt emptyBase 1104) := by
  obtain ⟨hsize, hone, htwo⟩ := fold_leftL0
  have hmap := reopenedWorld.twoMap
  refine ⟨hsize.trans (stateAt_size hmap (by decide)).symm, fun p hpos hle _ => ?_⟩
  rw [hsize] at hle
  rcases eq_one_or_two hpos hle with rfl | rfl
  · have hpage : (twoReader.stateAt emptyBase 1104).page 1 = readAt twoWal 56 512 :=
      stateAt_page hmap (show leftMap.pages.find? 1 = some 32 from rfl)
    rw [hone, hpage, reopenedWorld.firstPage]
  · have hpage : (twoReader.stateAt emptyBase 1104).page 2 = readAt twoWal 592 512 :=
      stateAt_page hmap (show leftMap.pages.find? 2 = some 568 from rfl)
    rw [htwo, hpage, reopenedWorld.secondPage]

/-- There is one reader of the WAL. -/
theorem eq_twoReader {rd : WalReader} (hnew : new closedDb.files.wal = .ok rd) :
    rd = twoReader := by
  have htwo : new closedDb.files.wal = .ok twoReader := reopenedWorld.newTwo
  rw [htwo] at hnew
  exact (Except.ok.inj hnew).symm

/-- The closed database's chain ends where its WAL does. -/
theorem endsIn_closedDb : EndsIn 512 closedDb leftL0 where
  seen := by decide
  aligned := ⟨2, by decide⟩
  last := by
    rintro - frame rfl - -
    have hlast := reopenedWorld.lastFrame
    have hframe : leftL0.walEnd - (walFrameHeaderSize + 512) = 568 := by decide
    rw [hframe]
    show (beField (readAt twoWal 568 536) 0, (readAt twoWal 568 536).drop 24) ∈ leftL0.pages
    rw [hlast]
    decide +kernel
  same := by
    intro rd hnew _
    rw [eq_twoReader hnew, committedEnd_twoReader]
    have hentry : twoReader.entryAt 1 = ⟨2, 568, 2⟩ :=
      congrArg (fun l => l.getD 1 ⟨0, 0, 0⟩) reopenedWorld.twoFrames
    exact ⟨.inr ⟨1, by decide, by rw [hentry]; decide, by decide⟩, fold_closedDb⟩
  other := by
    intro rd hnew hother
    exact absurd reopenedWorld.salts hother

/-- The closed database is tracked. -/
theorem tracked_closedDb : Tracked 512 closedDb where
  written rd hnew := by
    rw [eq_twoReader hnew]
    exact writtenPlain_twoReader
  salts rd hnew := by
    rw [eq_twoReader hnew]
    decide
  length := by
    show twoWal.length < _
    rw [reopenedWorld.twoLength]
    decide
  locked rd hnew := by
    rw [eq_twoReader hnew, committedEnd_twoReader]
    refine ⟨fun _ => rfl, fun m p hpos _ hle => absurd hle (Nat.not_le.mpr hpos), fun hempty => ?_⟩
    rw [reopenedWorld.twoMap] at hempty
    cases hempty
  newest ltx hltx := by
    cases hltx
    exact endsIn_closedDb
  caught _ := by
    have hnew : new closedDb.files.wal = .ok twoReader := reopenedWorld.newTwo
    have huntil := pageMapUntil_committedEnd hnew writtenPlain_twoReader.pgno_le
    have hstate : twoReader.stateAt emptyBase maxOffset = twoReader.stateAt emptyBase 1104 := by
      rw [← committedEnd_twoReader]
      exact (congrArg (twoReader.overlay emptyBase) huntil).symm
    rw [LiveDb.database_eq hnew]
    show Image.AgreeOff _ _ (twoReader.stateAt emptyBase maxOffset)
    rw [hstate]
    exact fold_closedDb

/-- The third transaction is committed behind the two. -/
theorem commitsBehind_leftWal :
    CommitsBehind 512 emptyBase twoWal leftWal twoReader leftReader where
  before := reopenedWorld.newTwo
  after := nextWorld.newLeft
  kept := by
    rw [committedEnd_twoReader]
    exact reopenedWorld.kept
  stale := by
    rw [committedEnd_leftReader, List.drop_eq_nil_of_le reopenedWorld.leftLength.le]
    exact (List.drop_eq_nil_of_le (reopenedWorld.twoLength.le.trans (by decide))).symm
  grown := by
    rw [committedEnd_twoReader, committedEnd_leftReader]
    decide
  written := writtenPlain_leftReader
  length := by
    rw [reopenedWorld.leftLength]
    decide

/-- The commit left behind is a step of the application. -/
theorem appStep_leftDb : AppStep 512 closedDb .commit leftDb :=
  @AppStep.commit 512 closedDb twoReader leftReader leftWal commitsBehind_leftWal

/-- The next sync copies the third commit. -/
theorem verifyAndSync_leftDb :
    ∃ outcome, verifyAndSync literalCodec 512 leftDb.files (leftDb.reopened 1104).state
      leftDb.chain 0
      = .ok (outcome, some thirdL0) := by
  have hpm := reopenedWorld.thirdMap
  have hpos : posOf [leftL0] = 1 := by decide
  obtain ⟨outcome, hsync, -⟩ :=
    @sync_eq_ok literalCodec 512 ⟨[], leftWal⟩ ⟨1104, false⟩ 1 leftInfo 0
    (leftReader.atSlot 2) 1104 536 thirdL0 reopenedWorld.opened (by rw [hpm]; decide) (by decide)
    (by rw [hpm]; exact reopenedWorld.pages) (by rw [hpm]; rfl)
  refine ⟨outcome, ?_⟩
  show verify (some leftL0) leftWal 512 {} >>= _ = _
  rw [reopenedWorld.verify, ok_bind]
  show sync literalCodec 512 ⟨[], leftWal⟩ ⟨1104, false⟩ (posOf [leftL0]) leftInfo 0 = _
  rw [hpos]
  exact hsync

/-- The sync after reopening ships the third transaction. -/
theorem reopened_sync_catches_up_third :
    (∃ outcome, verifyAndSync literalCodec 512 leftDb.files (leftDb.reopened 1104).state
      leftDb.chain 0
        = .ok (outcome, some thirdL0)) ∧
      Image.AgreeOff (lockPgno 512) (fold 512 [leftL0, thirdL0]) leftDb.database := by
  obtain ⟨outcome, hsync⟩ := verifyAndSync_leftDb
  exact ⟨⟨outcome, hsync⟩, reopened_sync_catches_up tracked_closedDb (.single ⟨_, appStep_leftDb⟩)
    (fun hmissed => by cases hmissed) hsync⟩

/-! ## A commit that is not noticed -/

/-- All of it is checkpointed. -/
def checkpointedDb : LiveDb := { leftDb with files := ⟨nextFiles.db, leftWal⟩ }

/-- The WAL is restarted by a fourth commit, which takes one slot. -/
def restartedDb : LiveDb :=
  { checkpointedDb with
    files := nextFiles, base := nextBase, seen := [(8, 10), (7, 9)], missed := true }

/-- The database left behind. -/
theorem database_leftDb : leftDb.database = nextBase := by
  have hnew : new leftDb.files.wal = .ok leftReader := nextWorld.newLeft
  exact LiveDb.database_eq hnew

/-- A checkpoint leaves it as it is. -/
theorem database_checkpointedDb : checkpointedDb.database = nextBase := database_leftDb

/-- The checkpoint has written it to its file. -/
theorem flushed_nextFiles : Flushed 512 nextBase nextFiles.db where
  page p hpos hle := by
    obtain ⟨hsize, hone, htwo⟩ := nextBase_page
    rw [hsize] at hle
    rcases eq_one_or_two hpos hle with rfl | rfl
    · rw [hone]
      exact reopenedWorld.flushed.1
    · rw [htwo]
      exact reopenedWorld.flushed.2
  size := by
    rw [nextBase_page.1]
    decide +kernel

/-- The next WAL is written plainly. -/
theorem writtenPlain_nextReader : WrittenPlain nextReader 512 nextBase where
  toWrittenOver := writtenOver_nextReader
  plain := by
    rw [frames_nextReader]
    decide

/-- The checkpoint and the fourth commit are steps of the application. -/
theorem appRun_restartedDb : AppRun 512 closedDb restartedDb := by
  have hflushed := flushed_nextFiles
  have hcheckpoint : AppStep 512 leftDb .checkpoint checkpointedDb := by
    refine .checkpoint ?_
    rw [database_leftDb]
    exact ⟨fun p hpos hle => .inr (hflushed.page p hpos hle), .inr hflushed.size⟩
  have hrestart : AppStep 512 checkpointedDb .restart restartedDb := by
    rw [← database_checkpointedDb] at hflushed
    have hover : CommitsOver 512 checkpointedDb.database leftWal nextWal nextReader := by
      rw [database_checkpointedDb]
      refine ⟨nextWorld.newNext, ?_, ?_, writtenPlain_nextReader, ?_⟩
      · rw [committedEnd_nextReader]
        exact nextWorld.kept
      · rw [committedEnd_nextReader]
        decide
      · rw [reopenedWorld.nextLength]
        decide
    have hstep := @AppStep.restart 512 checkpointedDb nextReader nextWal hflushed hover (by decide)
    rw [database_checkpointedDb] at hstep
    exact hstep
  exact ((Relation.ReflTransGen.single ⟨_, appStep_leftDb⟩).tail ⟨_, hcheckpoint⟩).tail
    ⟨_, hrestart⟩

/-- The sync after a restart of the WAL. -/
theorem verifyAndSync_restartedDb :
    ∃ outcome, verifyAndSync literalCodec 512 restartedDb.files (restartedDb.reopened 1104).state
      restartedDb.chain 0
      = .ok (outcome, some nextL0) := by
  have hpm := nextWorld.nextMap
  have hpos : posOf [leftL0] = 1 := by decide
  obtain ⟨outcome, hsync, -⟩ :=
    @sync_eq_ok literalCodec 512 nextFiles ⟨1104, false⟩ 1 _ 0 nextReader 32 536 nextL0
    nextWorld.opened (by rw [hpm]; decide) (by decide) (by rw [hpm]; exact nextWorld.pages)
      (by rw [hpm]; rfl)
  refine ⟨outcome, ?_⟩
  show verify (some leftL0) nextWal 512 {} >>= _ = _
  rw [nextWorld.verify, ok_bind]
  show sync literalCodec 512 nextFiles ⟨1104, false⟩ (posOf [leftL0]) _ 0 = _
  rw [hpos]
  exact hsync

/-- Where the restarted WAL leaves the last synced frame in its slot, with the new salts in front of
it, the third commit is lost: the sync succeeds without a snapshot. -/
theorem restart_misses_commit :
    Tracked 512 closedDb ∧ closedDb.unsynced = false ∧ AppRun 512 closedDb restartedDb ∧
      (∃ outcome, verifyAndSync literalCodec 512 restartedDb.files (restartedDb.reopened 1104).state
        restartedDb.chain 0 = .ok (outcome, some nextL0)) ∧
      ¬ Image.AgreeOff (lockPgno 512) (fold 512 [leftL0, nextL0]) restartedDb.database := by
  refine ⟨tracked_closedDb, rfl, appRun_restartedDb, verifyAndSync_restartedDb, fun hagree => ?_⟩
  have hsize : (fold 512 [leftL0, nextL0]).size = 2 := rfl
  have hpage := hagree.2 2 (by decide) hsize.ge (by decide)
  have hnew : new restartedDb.files.wal = .ok nextReader := nextWorld.newNext
  have hbase : restartedDb.base = nextBase := by
    delta restartedDb
    dsimp only
  have hmap : (nextReader.pageMapUntil maxOffset).1 = nextMap := nextWorld.nextMap
  have hlast : (nextReader.stateAt nextBase maxOffset).page 2 = nextBase.page 2 := by
    have hnone : nextMap.pages.find? 2 = none := by decide
    rw [stateAt_of_pageMap hmap (by decide)]
    simp only [Image.apply, l0Patch, hnone, Option.map_none, Option.getD_none]
    rw [nextBase_page.1, if_pos le_rfl]
  rw [fold_nextL0, LiveDb.database_eq hnew, hbase, hlast, nextBase_page.2.2] at hpage
  exact filled_ne (by decide) hpage

end Local

end Liters
