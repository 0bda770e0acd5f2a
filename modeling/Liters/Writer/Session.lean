import Liters.Writer.Reopened
import Liters.Writer.CaughtUp

/-! # Sessions of a writer

A writer is opened and takes its read lock; it syncs in every push; it checkpoints in steps, between
which anyone may use the database; a call of it may fail wherever it stands; and it is closed.
`Life` is every run of this from a database without L0 files on. What each L0 file leads to is a
database that was once committed, and a sync that succeeds leads to the committed one.

A commit can be missed only where the WAL is started over while the read lock is not held, and only
the first sync under the lock has to notice it. -/

namespace Liters

namespace Local

open WalReader

/-! ## The read lock -/

/-- The read lock of a writer: whether nothing was committed since it was taken, and whether a sync
has succeeded since. -/
inductive ReadLock where
  | released
  | held (fresh settled : Bool)

/-- While the lock is held, the WAL is started over by the first commit since it was taken or before
it, and not later. -/
def ReadLock.Lets : ReadLock → AppAct → Prop
  | .released, _ => True
  | .held fresh _, act => act.resets = true → fresh = true

/-- The lock after a step of an application. -/
def ReadLock.after : ReadLock → AppAct → ReadLock
  | .released, _ => .released
  | .held fresh settled, act => .held (fresh && !act.commits) settled

/-- The lock after a sync. -/
def ReadLock.synced : ReadLock → ReadLock
  | .released => .released
  | .held fresh _ => .held fresh true

/-- A sync has succeeded since the lock was taken. -/
def ReadLock.settled : ReadLock → Bool
  | .released => false
  | .held _ settled => settled

/-! ## The calls of a writer -/

/-- Where a writer stands: closed, between two calls, or in `checkpoint`, which remembers the WAL
header it began with: before the pre-copy, behind it, while the read lock is released for the
PRAGMA, after the lock was taken again, after `write_seq`, and under the write lock. -/
inductive Call where
  | closed
  | idle
  | started (hdr : Bytes)
  | copied (hdr : Bytes)
  | released (hdr : Bytes)
  | reacquired (hdr : Bytes)
  | counted (hdr : Bytes)
  | fenced

/-- Where a sync leads: the one of `push`, the pre-copy and the post-copy. -/
def Call.synced : Call → Option Call
  | .idle => some .idle
  | .started hdr => some (.copied hdr)
  | .fenced => some .idle
  | _ => none

/-- A database with a writer. -/
structure Session where
  db : LiveDb
  call : Call
  lock : ReadLock

/-- Every step but a sync. The PRAGMA is a checkpoint of the database like any other; `write_seq`
commits. -/
inductive SessionStep (pageSize : Nat) : Session → Session → Prop where
  | app {d d' : LiveDb} {act : AppAct} {call : Call} {lock : ReadLock}
      (hstep : AppStep pageSize d act d')
      (hlock : lock.Lets act) (hfenced : call = .fenced → act = .checkpoint) :
      SessionStep pageSize ⟨d, call, lock⟩ ⟨d', call, lock.after act⟩
  | open (d : LiveDb) (offset : Nat) :
      SessionStep pageSize ⟨d, .closed, .released⟩ ⟨d.reopened offset, .idle, .held true false⟩
  | start {d : LiveDb} {hdr : Bytes} (lock : ReadLock)
      (hhdr : readWalHeader d.files.wal = .ok hdr) :
      SessionStep pageSize ⟨d, .idle, lock⟩ ⟨d, .started hdr, lock⟩
  | release (d : LiveDb) (hdr : Bytes) (lock : ReadLock) :
      SessionStep pageSize ⟨d, .copied hdr, lock⟩ ⟨d, .released hdr, .released⟩
  | reacquire (d : LiveDb) (hdr : Bytes) :
      SessionStep pageSize ⟨d, .released hdr, .released⟩ ⟨d, .reacquired hdr, .held true false⟩
  | writeSeq {d d' : LiveDb} {act : AppAct} {lock : ReadLock} (hdr : Bytes)
      (hstep : AppStep pageSize d act d')
      (hlock : lock.Lets act) (hcommits : act.commits = true) :
      SessionStep pageSize ⟨d, .reacquired hdr, lock⟩ ⟨d', .counted hdr, lock.after act⟩
  | same {d : LiveDb} {hdr : Bytes} (lock : ReadLock) (hhdr : readWalHeader d.files.wal = .ok hdr) :
      SessionStep pageSize ⟨d, .counted hdr, lock⟩ ⟨d, .idle, lock⟩
  | fence {d : LiveDb} {hdr hdr' : Bytes} (lock : ReadLock)
      (hhdr : readWalHeader d.files.wal = .ok hdr')
      (hne : hdr ≠ hdr') : SessionStep pageSize ⟨d, .counted hdr, lock⟩ ⟨d, .fenced, lock⟩
  | fail (d : LiveDb) {call : Call} (lock : ReadLock) (hopen : call ≠ .closed) :
      SessionStep pageSize ⟨d, call, lock⟩ ⟨d, .idle, lock⟩
  | close (s : Session) : SessionStep pageSize s ⟨s.db, .closed, .released⟩

/-- What a sync may have missed is noticed by it, if it is the first one under the lock. -/
def Session.Notices (pageSize : Nat) (s : Session) : Prop :=
  s.lock.settled = false → s.db.missed = true → ¬ TakenForNext pageSize s.db

/-- A run from a closed writer on whose syncs notice what they may have missed, with the databases
at which its L0 files were written. -/
inductive Life (c : Codec) (pageSize : Nat) (d₀ : LiveDb) :
    Session → List (Image Bytes) → Prop where
  | start : Life c pageSize d₀ ⟨d₀, .closed, .released⟩ []
  | step {s s' : Session} {past : List (Image Bytes)} (hlife : Life c pageSize d₀ s past)
      (hstep : SessionStep pageSize s s') : Life c pageSize d₀ s' past
  | sync {s : Session} {past : List (Image Bytes)} {call : Call} {now : Int64}
      {outcome : Local.SyncOutcome}
      {l0 : Option LtxFile} (hlife : Life c pageSize d₀ s past) (hcall : s.call.synced = some call)
      (hnotices : s.Notices pageSize)
      (hsync : verifyAndSync c pageSize s.db.files s.db.state s.db.chain now = .ok (outcome, l0)) :
      Life c pageSize d₀ ⟨s.db.synced outcome l0, call, s.lock.synced⟩
        (past ++ (l0.map fun _ => s.db.database).toList)

/-! ## Under the lock nothing is missed -/

/-- Once a sync has succeeded under the lock, nothing is missed, and nothing is committed that a WAL
which may still be started over would lose. -/
def Settled (d : LiveDb) (lock : ReadLock) : Prop :=
  ∀ fresh, lock = .held fresh true → d.missed = false ∧ (fresh = true → d.unsynced = false)

variable {c : Codec} {pageSize : Nat} {d d' d₀ : LiveDb} {s s' : Session}
  {past : List (Image Bytes)}

/-- Without a lock that settles nothing is asked. -/
theorem Settled.of_not_settled {lock : ReadLock} (h : lock.settled = false) : Settled d lock := by
  intro fresh heq
  rw [heq, ReadLock.settled] at h
  cases h

/-- **A step of the application** that the lock lets keeps it settled. -/
theorem Settled.appStep {act : AppAct} {lock : ReadLock} (h : Settled d lock)
    (hstep : AppStep pageSize d act d') (hlock : lock.Lets act) : Settled d' (lock.after act) := by
  cases lock with
  | released => exact .of_not_settled rfl
  | held fresh settled =>
      cases settled with
      | false => exact .of_not_settled rfl
      | true =>
          obtain ⟨hmissed, hunsynced⟩ := h fresh rfl
          rintro fresh' heq
          cases hstep with
          | commit =>
              cases heq
              refine ⟨hmissed, fun hfresh => ?_⟩
              simp [AppAct.commits] at hfresh
          | checkpoint =>
              cases heq
              refine ⟨hmissed, fun hfresh => hunsynced ?_⟩
              simpa [AppAct.commits] using hfresh
          | restart =>
              cases heq
              -- only a fresh lock lets the WAL be started over
              have hsynced := hunsynced (hlock rfl)
              refine ⟨?_, fun hfresh => ?_⟩
              · show (d.missed || d.unsynced) = false
                rw [hmissed, hsynced, Bool.or_self]
              · simp [AppAct.commits] at hfresh
          | truncate =>
              cases heq
              have hsynced := hunsynced (hlock rfl)
              refine ⟨?_, fun _ => hsynced⟩
              show (d.missed || d.unsynced) = false
              rw [hmissed, hsynced, Bool.or_self]

/-- So does every step of a session. -/
theorem Settled.step (h : Settled s.db s.lock) (hstep : SessionStep pageSize s s') :
    Settled s'.db s'.lock := by
  cases hstep with
  | app hstep hlock => exact h.appStep hstep hlock
  | «open» => exact .of_not_settled rfl
  | start => exact h
  | release => exact .of_not_settled rfl
  | reacquire => exact .of_not_settled rfl
  | writeSeq hdr hstep hlock => exact h.appStep hstep hlock
  | same => exact h
  | fence => exact h
  | fail => exact h
  | close => exact .of_not_settled rfl

/-- **Every step of a session** keeps the database tracked. -/
theorem Tracked.step (h : Tracked pageSize s.db) (hstep : SessionStep pageSize s s') :
    Tracked pageSize s'.db := by
  cases hstep with
  | app hstep => exact h.appStep hstep
  | «open» d offset => exact h.reopened offset
  | start => exact h
  | release => exact h
  | reacquire => exact h
  | writeSeq hdr hstep => exact h.appStep hstep
  | same => exact h
  | fence => exact h
  | fail => exact h
  | close => exact h

/-- Every step but a sync leaves the L0 files. -/
theorem SessionStep.chain_eq (hstep : SessionStep pageSize s s') : s'.db.chain = s.db.chain := by
  have happ : ∀ {d d' : LiveDb} {act : AppAct}, AppStep pageSize d act d' → d'.chain = d.chain := by
    intro d d' act happ
    cases happ <;> rfl
  cases hstep with
  | app hstep => exact happ hstep
  | writeSeq hdr hstep => exact happ hstep
  | _ => rfl

/-- A sync of a run notices what is missed: under a lock that is settled there is nothing. -/
theorem Settled.notices (h : Settled s.db s.lock) (hnotices : s.Notices pageSize) :
    s.db.missed = true → ¬ TakenForNext pageSize s.db := by
  intro hmissed
  refine hnotices ?_ hmissed
  cases hlock : s.lock with
  | released => rfl
  | held fresh settled =>
      cases settled with
      | false => rfl
      | true =>
          have hnone := (h fresh hlock).1
          rw [hmissed] at hnone
          cases hnone

/-- **Every run keeps track.** -/
theorem Life.tracked (h : Life c pageSize d₀ s past) (hstart : Tracked pageSize d₀) :
    Tracked pageSize s.db ∧ Settled s.db s.lock := by
  induction h with
  | start => exact ⟨hstart, .of_not_settled rfl⟩
  | step _ hstep ih => exact ⟨ih.1.step hstep, ih.2.step hstep⟩
  | @sync s _ _ _ _ _ _ _ hnotices hsync ih =>
      refine ⟨ih.1.synced (ih.2.notices hnotices) hsync, fun fresh heq => ?_⟩
      exact ⟨rfl, fun _ => rfl⟩

/-! ## The L0 files of a run -/

/-- The L0 files are numbered from 1 on and carry the pages by which the database grows. -/
structure L0Chain (pageSize : Nat) (chain : List LtxFile) : Prop where
  txid : ∀ i f, chain[i]? = some f → f.hdr.minTxid.toNat = i + 1 ∧ f.hdr.maxTxid.toNat = i + 1
  size : ∀ f ∈ chain, f.hdr.pageSize.toNat = pageSize
  covers : CoversChain (lockPgno pageSize) 0 (patches chain)

/-- No files are a chain. -/
theorem l0Chain_nil (pageSize : Nat) : L0Chain pageSize [] where
  txid i f hf := by cases hf
  size f hf := by cases hf
  covers := trivial

/-- The position is the number of L0 files. -/
theorem L0Chain.posOf_eq {chain : List LtxFile} (h : L0Chain pageSize chain) :
    posOf chain = chain.length := by
  rcases List.eq_nil_or_concat' chain with rfl | ⟨front, f, rfl⟩
  · rfl
  · have hlast : (front ++ [f])[front.length]? = some f := List.getElem?_concat_length
    rw [posOf, List.getLast?_concat, Option.map_some, Option.getD_some, (h.txid _ f hlast).2,
      List.length_append, List.length_singleton]

/-- The file of a sync is the next one. -/
theorem L0Chain.concat {rd : WalReader} {f : LtxFile} (h : L0Chain pageSize d.chain)
    (hmade : MadeOf pageSize d rd f) :
    L0Chain pageSize (d.chain ++ [f]) := by
  -- the number does not wrap around, as a file is never numbered zero
  have hnext : f.hdr.minTxid.toNat = d.chain.length + 1 ∧
      f.hdr.maxTxid.toNat = d.chain.length + 1 := by
    obtain ⟨hmin, hmax⟩ := hmade.txid
    have hne := f.plainOk.minTxid
    have hlt : posOf d.chain < 2 ^ 64 := by
      unfold posOf
      cases d.chain.getLast? with
      | none => exact Nat.two_pow_pos 64
      | some g => exact g.hdr.maxTxid.toNat_lt
    have hsmall : posOf d.chain + 1 < 2 ^ 64 := by
      refine lt_of_le_of_ne hlt fun heq => hne ?_
      rw [hmin, heq]
      rfl
    rw [hmin, hmax, UInt64.toNat_ofNat_of_lt' hsmall, h.posOf_eq]
    exact ⟨rfl, rfl⟩
  refine ⟨fun i g hg => ?_, fun g hg => ?_, ?_⟩
  · rcases Nat.lt_trichotomy i d.chain.length with hlt | rfl | hgt
    · rw [List.getElem?_append_left hlt] at hg
      exact h.txid i g hg
    · rw [List.getElem?_concat_length, Option.some_inj] at hg
      exact hg ▸ hnext
    · rw [List.getElem?_eq_none (by rw [List.length_append, List.length_singleton]; omega)] at hg
      cases hg
  · rcases List.mem_append.mp hg with hold | hlast
    · exact h.size g hold
    · rw [List.mem_singleton.mp hlast]
      exact hmade.pageSize
  · have hsize : lastCommit 0 (patches d.chain) = (fold pageSize d.chain).size :=
      (Image.applyAll_size (⟨0, fun _ => zeroPage pageSize⟩ : Image Bytes) (patches d.chain)).symm
    rw [patches, List.map_append, coversChain_append]
    refine ⟨h.covers, ?_, trivial⟩
    show f.patch.Covers _ (lastCommit 0 (patches d.chain))
    rw [hsize]
    exact hmade.covers

/-- **Every run numbers its L0 files** from 1 on. -/
theorem Life.l0Chain (h : Life c pageSize d₀ s past) (hstart : Tracked pageSize d₀)
    (hnew : d₀.chain = []) :
    L0Chain pageSize s.db.chain := by
  induction h with
  | start => exact hnew ▸ l0Chain_nil pageSize
  | step _ hstep ih => exact hstep.chain_eq ▸ ih
  | @sync s _ _ _ _ l0 hlife _ hnotices hsync ih =>
      obtain ⟨htracked, hsettled⟩ := hlife.tracked hstart
      cases l0 with
      | none =>
          show L0Chain pageSize (s.db.chain ++ [])
          rw [List.append_nil]
          exact ih
      | some f =>
          obtain ⟨rd, -, hmade⟩ := htracked.madeOf (hsettled.notices hnotices) hsync
          exact ih.concat hmade

/-- What the L0 files lead to, one after the other. -/
def LeadsTo (pageSize : Nat) (chain : List LtxFile) (past : List (Image Bytes)) : Prop :=
  chain.length = past.length ∧
    ∀ i img, past[i]? = some img →
      Image.AgreeOff (lockPgno pageSize) (fold pageSize (chain.take (i + 1))) img

/-- One more file leads to one more image. -/
theorem LeadsTo.concat {chain : List LtxFile} {f : LtxFile} {img : Image Bytes}
    (h : LeadsTo pageSize chain past)
    (hfold : Image.AgreeOff (lockPgno pageSize) (fold pageSize (chain ++ [f])) img) :
    LeadsTo pageSize (chain ++ [f]) (past ++ [img]) := by
  obtain ⟨hlength, hpast⟩ := h
  refine ⟨by rw [List.length_append, List.length_append, hlength]; rfl, fun i img' himg => ?_⟩
  rcases Nat.lt_trichotomy i past.length with hlt | rfl | hgt
  · rw [List.getElem?_append_left hlt] at himg
    rw [List.take_append_of_le_length (by omega)]
    exact hpast i img' himg
  · rw [List.getElem?_concat_length, Option.some_inj] at himg
    rw [← hlength, List.take_of_length_le (by rw [List.length_append]; rfl), ← himg]
    exact hfold
  · rw [List.getElem?_eq_none (by rw [List.length_append, List.length_singleton]; omega)] at himg
    cases himg

/-- **Every L0 file leads to a committed database**: the one at which it was written. -/
theorem Life.leadsTo (h : Life c pageSize d₀ s past) (hstart : Tracked pageSize d₀)
    (hnew : d₀.chain = []) :
    LeadsTo pageSize s.db.chain past := by
  induction h with
  | start =>
      refine ⟨by rw [hnew]; rfl, fun i img himg => ?_⟩
      cases himg
  | step _ hstep ih => exact hstep.chain_eq ▸ ih
  | @sync s past _ _ _ l0 hlife _ hnotices hsync ih =>
      obtain ⟨htracked, hsettled⟩ := hlife.tracked hstart
      cases l0 with
      | none =>
          show LeadsTo pageSize (s.db.chain ++ []) (past ++ [])
          rw [List.append_nil, List.append_nil]
          exact ih
      | some f => exact ih.concat (htracked.sync (hsettled.notices hnotices) hsync)

/-- **No run loses a commit.** In every run of a writer and the applications from a database without
L0 files on, whose syncs notice what may have been missed before the lock was taken: the L0 files
are numbered from 1 on; each of them leads to the database that was committed when it was written;
and whenever nothing was committed since a sync, all of them lead to the committed database. -/
theorem life_loses_nothing (hstart : Tracked pageSize d₀) (hnew : d₀.chain = [])
    (h : Life c pageSize d₀ s past) :
    L0Chain pageSize s.db.chain ∧ LeadsTo pageSize s.db.chain past ∧
      (s.db.unsynced = false →
        Image.AgreeOff (lockPgno pageSize) (fold pageSize s.db.chain) s.db.database) :=
  ⟨h.l0Chain hstart hnew, h.leadsTo hstart hnew, (h.tracked hstart).1.caught⟩

/-! ## A life with two syncs -/

/-- A new database with two commits. -/
def freshDb : LiveDb := { closedDb with chain := [], unsynced := true }

/-- A fresh database is tracked. -/
theorem tracked_freshDb : Tracked 512 freshDb := by
  have hclosed := tracked_closedDb
  refine ⟨hclosed.written, hclosed.salts, hclosed.length, hclosed.locked, fun ltx hltx => ?_,
    fun hsynced => ?_⟩
  · cases hltx
  · cases hsynced

/-- The first sync copies all of it. -/
theorem verifyAndSync_freshDb (state : SyncState) :
    ∃ outcome, verifyAndSync literalCodec 512 ⟨[], twoWal⟩ state [] 0 =
      .ok (outcome, some leftL0) := by
  have hpm := reopenedWorld.twoWhole
  obtain ⟨outcome, hsync, -⟩ := @sync_eq_ok literalCodec 512 ⟨[], twoWal⟩ state 0
    { offset := walHeaderSize, salt1 := 0, salt2 := 0,
      reason := some "first sync, no local position" } 0 twoReader 32
    1072 leftL0 reopenedWorld.topOpened (by rw [hpm]; decide) (by decide)
    (by rw [hpm]; exact reopenedWorld.topPages) (by rw [hpm]; rfl)
  refine ⟨outcome, ?_⟩
  unfold verifyAndSync
  rw [List.getLast?_nil, verify, ok_bind]
  exact hsync

/-- The database after the first sync. -/
def syncedDb (outcome : Local.SyncOutcome) : LiveDb :=
  (freshDb.reopened 0).synced outcome (some leftL0)

/-- A third transaction is committed. -/
def grownDb (outcome : Local.SyncOutcome) : LiveDb :=
  { syncedDb outcome with files := ⟨[], leftWal⟩, unsynced := true }

/-- Its writer syncs twice. -/
theorem life_freshDb :
    ∃ s past, Life literalCodec 512 freshDb s past ∧ s.db.chain = [leftL0, thirdL0] ∧
      past.length = 2 ∧
      s.db.unsynced = false := by
  obtain ⟨first, hfirst⟩ := verifyAndSync_freshDb ⟨0, false⟩
  obtain ⟨third, hthird⟩ := verifyAndSync_leftDb
  have hopened : Life literalCodec 512 freshDb ⟨freshDb.reopened 0, .idle, .held true false⟩ [] :=
    Life.start.step (.open freshDb 0)
  have hsynced : Life literalCodec 512 freshDb ⟨syncedDb first, .idle, .held true true⟩ _ :=
    hopened.sync rfl (fun _ hmissed => by cases hmissed) hfirst
  have hcommit : AppStep 512 (syncedDb first) .commit (grownDb first) :=
    .commit commitsBehind_leftWal
  have hleft : Life literalCodec 512 freshDb ⟨grownDb first, .closed, .released⟩ _ :=
    (hsynced.step (.close _)).step (.app hcommit trivial (fun heq => by cases heq))
  have hagain := (hleft.step (.open _ 1104)).sync rfl (fun _ hmissed => by cases hmissed) hthird
  exact ⟨_, _, hagain, rfl, rfl, rfl⟩

/-- The life of two pushes. -/
theorem life_loses_nothing_third :
    ∃ s past, Life literalCodec 512 freshDb s past ∧ s.db.chain = [leftL0, thirdL0] ∧
      past.length = 2 ∧
      L0Chain 512 s.db.chain ∧ LeadsTo 512 s.db.chain past ∧
      Image.AgreeOff (lockPgno 512) (fold 512 s.db.chain) s.db.database := by
  obtain ⟨s, past, hlife, hfiles, hlength, hsynced⟩ := life_freshDb
  obtain ⟨hchain, hpast, hcaught⟩ := life_loses_nothing tracked_freshDb rfl hlife
  exact ⟨s, past, hlife, hfiles, hlength, hchain, hpast, hcaught hsynced⟩

end Local

end Liters
