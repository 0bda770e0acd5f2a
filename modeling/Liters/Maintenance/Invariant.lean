import Liters.Restore.PlanCorrect
import Liters.Maintenance.Operations

/-! # What maintenance keeps

Every stored file carries exactly what the transactions of its range did. Levels 0 and 1 are
gapless; level 0 ends at the last upload and starts within level 1, which starts within the newest
snapshot. `Allowed` lists the requests maintenance makes, and `Inv.act` shows that each of them
keeps this. -/

namespace Liters

/-! ## Runs of files -/

/-- The transaction a level ends at, 0 if it is empty. -/
def endTxid (files : List Stored) : Nat := (files.getLast?.map Stored.maxTxid).getD 0

/-- `t` starts where `s` ends. -/
def Stored.Next (s t : Stored) : Prop := t.minTxid = s.maxTxid + 1

/-- A level that starts at `m + 1` or before. -/
def StartsBy (m : Nat) (files : List Stored) : Prop := ∀ s, files.head? = some s → s.minTxid ≤ m + 1

/-- An empty level ends at 0. -/
@[simp] theorem endTxid_nil : endTxid [] = 0 := rfl

/-- A level ends where its last file does. -/
@[simp] theorem endTxid_append_singleton (files : List Stored) (s : Stored) :
    endTxid (files ++ [s]) = s.maxTxid := by
  simp [endTxid]

/-- The first file of several does not matter. -/
theorem endTxid_cons {s : Stored} {files : List Stored} (h : files ≠ []) :
    endTxid (s :: files) = endTxid files := by
  obtain ⟨x, files, rfl⟩ := List.exists_cons_of_ne_nil h
  simp [endTxid]

/-- A gapless run holds every transaction from its start to its end. -/
theorem exists_mem_of_isChain {files : List Stored} (h : files.IsChain Stored.Next) {m t : Nat}
    (hstart : StartsBy m files) (hlt : m < t) (hle : t ≤ endTxid files) :
    ∃ s ∈ files, s.minTxid ≤ t ∧ t ≤ s.maxTxid := by
  induction files generalizing m with
  | nil => simp at hle; omega
  | cons s files ih =>
      have hs := hstart s rfl
      by_cases hmax : t ≤ s.maxTxid
      · exact ⟨s, List.mem_cons_self .., by omega, hmax⟩
      · cases files with
        | nil =>
            have hend : endTxid [s] = s.maxTxid := rfl
            omega
        | cons x files =>
            rw [List.isChain_cons_cons] at h
            rw [endTxid_cons (List.cons_ne_nil _ _)] at hle
            obtain ⟨y, hy, hrange⟩ := ih h.2 (m := s.maxTxid)
              (fun z hz => by obtain rfl := Option.some.inj hz; exact h.1.le) (by omega) hle
            exact ⟨y, List.mem_cons_of_mem _ hy, hrange⟩

/-- What may follow a gapless run. -/
theorem isChain_append_singleton {files : List Stored} {s : Stored} (h : files.IsChain Stored.Next)
    (hs : s.minTxid = endTxid files + 1) : (files ++ [s]).IsChain Stored.Next := by
  rw [List.isChain_append]
  refine ⟨h, .singleton s, fun x hx y hy => ?_⟩
  obtain rfl : s = y := Option.some.inj hy
  have hend : endTxid files = x.maxTxid := by
    rw [endTxid, Option.mem_def.mp hx]
    rfl
  rw [Stored.Next, hs, hend]

/-- The last file survives a filter that accepts it. -/
theorem getLast?_filter {files : List Stored} {p : Stored → Bool} {s : Stored}
    (h : files.getLast? = some s) (hp : p s) : (files.filter p).getLast? = some s := by
  obtain ⟨init, rfl⟩ := List.getLast?_eq_some_iff.mp h
  simp [hp]

/-- The first file of a sorted level is the only one with its key. -/
theorem filter_key_head {s : Stored} {files : List Stored}
    (h : (s :: files).Pairwise Stored.Before) :
    (s :: files).filter (fun x => x.key ≠ (s.minTxid, s.maxTxid)) = files := by
  have hrest : files.filter (fun x => x.key ≠ (s.minTxid, s.maxTxid)) = files := by
    refine List.filter_eq_self.mpr fun x hx => ?_
    have := (List.pairwise_cons.mp h).1 x hx
    simp only [Stored.key, ne_eq, decide_not, Bool.not_eq_true', decide_eq_false_iff_not,
      Prod.mk.injEq]
    unfold Stored.Before at this
    omega
  simpa [Stored.key] using hrest

/-! ## The invariant -/

/-- A stored file: the encoding of an LTX file that carries what the transactions of its range
did. -/
def StoredOk (c : Codec) (U : Uploads) (n : Nat) (s : Stored) : Prop :=
  s.maxTxid ≤ n ∧ ∃ f : LtxFile, s.body = f.bytes c ∧ f.hdr.pageSize = U.pageSize ∧
    f.hdr.minTxid.toNat = s.minTxid ∧ f.hdr.maxTxid.toNat = s.maxTxid ∧
    U.history.Exact U.lock s.minTxid s.maxTxid f.patch

/-- What holds of the bucket after every request. -/
structure Inv (c : Codec) (U : Uploads) (w : World) : Prop where
  bound : w.uploaded < 2 ^ 64 - 1
  files : ∀ level, ∀ s ∈ w.bucket level, StoredOk c U w.uploaded s
  sorted : ∀ level, (w.bucket level).Pairwise Stored.Before
  snapshots : ∀ s ∈ w.bucket snapshotLevel, s.minTxid = 1
  l0 : (w.bucket 0).IsChain Stored.Next
  l0_end : endTxid (w.bucket 0) = w.uploaded
  l0_start : StartsBy (endTxid (w.bucket 1)) (w.bucket 0)
  l0_single : ∀ s ∈ w.bucket 0, s.minTxid = s.maxTxid
  l1 : (w.bucket 1).IsChain Stored.Next
  l1_start : StartsBy (endTxid (w.bucket snapshotLevel)) (w.bucket 1)

/-- The part of it that does not depend on which levels are written: every file is valid, and every
level is in listing order. -/
structure Filed (c : Codec) (U : Uploads) (w : World) : Prop where
  bound : w.uploaded < 2 ^ 64 - 1
  files : ∀ level, ∀ s ∈ w.bucket level, StoredOk c U w.uploaded s
  sorted : ∀ level, (w.bucket level).Pairwise Stored.Before

/-- The requests that uploads, compaction, snapshots and retention make. -/
inductive Allowed (c : Codec) (U : Uploads) (w : World) : Mutation → Prop where
  /-- the next level-0 file -/
  | upload (s : Stored) (hbound : w.uploaded + 1 < 2 ^ 64 - 1) (hmin : s.minTxid = w.uploaded + 1)
      (hmax : s.maxTxid = w.uploaded + 1) (hok : StoredOk c U (w.uploaded + 1) s) :
      Allowed c U w (.put 0 s)
  /-- a level-1 file where level 1 ends -/
  | compactL0 (s : Stored) (hmin : s.minTxid = endTxid (w.bucket 1) + 1)
      (hok : StoredOk c U w.uploaded s) : Allowed c U w (.put 1 s)
  /-- a file of a higher level -/
  | compact (level : Nat) (s : Stored) (hlow : 2 ≤ level) (hhigh : level < snapshotLevel)
      (hok : StoredOk c U w.uploaded s) : Allowed c U w (.put level s)
  /-- a snapshot -/
  | snapshot (s : Stored) (hmin : s.minTxid = 1) (hok : StoredOk c U w.uploaded s) :
      Allowed c U w (.put snapshotLevel s)
  /-- the first level-0 file, covered by level 1 and not the newest -/
  | retireL0 (s : Stored) (rest : List Stored) (heq : w.bucket 0 = s :: rest) (hne : rest ≠ [])
      (hcovered : s.maxTxid ≤ endTxid (w.bucket 1)) :
      Allowed c U w (.delete 0 s.minTxid s.maxTxid)
  /-- the first level-1 file, covered by the newest snapshot and not the last -/
  | retireL1 (s : Stored) (rest : List Stored) (heq : w.bucket 1 = s :: rest) (hne : rest ≠ [])
      (hcovered : s.maxTxid ≤ endTxid (w.bucket snapshotLevel)) :
      Allowed c U w (.delete 1 s.minTxid s.maxTxid)
  /-- any file of a higher level but the last -/
  | retire (level minTxid maxTxid : Nat) (last : Stored) (hlow : 2 ≤ level)
      (hlast : (w.bucket level).getLast? = some last) (hne : last.key ≠ (minTxid, maxTxid)) :
      Allowed c U w (.delete level minTxid maxTxid)

variable {c : Codec} {U : Uploads} {w : World}

/-- The invariant has well-formed levels. -/
theorem Inv.filed (h : Inv c U w) : Filed c U w := ⟨h.bound, h.files, h.sorted⟩

/-- A stored file stays well formed as more is uploaded. -/
theorem StoredOk.mono {n m : Nat} {s : Stored} (h : StoredOk c U n s) (hle : n ≤ m) :
    StoredOk c U m s := ⟨h.1.trans hle, h.2⟩

/-- Its TXIDs are a range of uploaded ones. -/
theorem StoredOk.range {n : Nat} {s : Stored} (h : StoredOk c U n s) :
    1 ≤ s.minTxid ∧ s.minTxid ≤ s.maxTxid ∧ s.maxTxid ≤ n := by
  obtain ⟨hn, f, -, -, -, -, he⟩ := h
  exact ⟨he.pos, he.le, hn⟩

/-- Snapshots are in the order of their ends. -/
theorem maxTxid_le_endTxid {files : List Stored} (hsorted : files.Pairwise Stored.Before)
    (hmin : ∀ s ∈ files, s.minTxid = 1) {s : Stored} (hs : s ∈ files) :
    s.maxTxid ≤ endTxid files := by
  induction files using List.reverseRecOn with
  | nil => cases hs
  | append_singleton files x _ =>
      rw [endTxid_append_singleton]
      rcases List.mem_append.mp hs with h | h
      · have := (List.pairwise_append.mp hsorted).2.2 s h x (List.mem_singleton_self x)
        have h1 := hmin s hs
        have h2 := hmin x (by simp)
        unfold Stored.Before at this
        omega
      · rw [List.mem_singleton.mp h]

/-- A gapless run of valid files ends last. -/
theorem maxTxid_le_endTxid_of_isChain {files : List Stored} {n : Nat}
    (h : files.IsChain Stored.Next) (hok : ∀ s ∈ files, StoredOk c U n s) {s : Stored}
    (hs : s ∈ files) :
    s.maxTxid ≤ endTxid files := by
  induction files generalizing s with
  | nil => cases hs
  | cons x files ih =>
      cases files with
      | nil =>
          rw [List.mem_singleton.mp hs]
          exact Nat.le_refl _
      | cons y files =>
          rw [List.isChain_cons_cons] at h
          rw [endTxid_cons (List.cons_ne_nil _ _)]
          have hrest : ∀ z ∈ y :: files, z.maxTxid ≤ endTxid (y :: files) := fun z hz =>
            ih h.2 (fun s hs => hok s (List.mem_cons_of_mem _ hs)) hz
          rcases List.mem_cons.mp hs with rfl | hs
          · have hy := hrest y (List.mem_cons_self ..)
            have hrange := (hok y (by simp)).range
            have hnext : y.minTxid = s.maxTxid + 1 := h.1
            omega
          · exact hrest s hs

/-- Inserting a well-formed file keeps a level well formed. -/
theorem mem_insertFile_ok {n : Nat} {s : Stored} {files : List Stored} (hs : StoredOk c U n s)
    (h : ∀ x ∈ files, StoredOk c U n x) : ∀ x ∈ Bucket.insertFile s files, StoredOk c U n x := by
  intro x hx
  rcases Bucket.mem_insertFile.1 hx with rfl | hx
  · exact hs
  · exact h x hx

/-! ## One request -/

/-- Writing a level sets it and leaves the others alone. -/
theorem forall_setLevel {b : Bucket} {level : Nat} {files : List Stored} {Q : List Stored → Prop}
    (hnew : Q files) (hold : ∀ l, Q (b l)) : ∀ l, Q (b.setLevel level files l) := by
  intro l
  by_cases h : l = level
  · rw [h, Bucket.setLevel_same]
    exact hnew
  · rw [Bucket.setLevel_of_ne _ _ h]
    exact hold l

/-- The files of the bucket stay valid and sorted under a PUT of a valid file. -/
theorem Filed.put_files {n : Nat} {s : Stored} (h : Filed c U w) (level : Nat) (hn : w.uploaded ≤ n)
    (hs : StoredOk c U n s) :
    (∀ l, ∀ x ∈ w.bucket.act (.put level s) l, StoredOk c U n x) ∧
      ∀ l, (w.bucket.act (.put level s) l).Pairwise Stored.Before :=
  have hold : ∀ l, ∀ x ∈ w.bucket l, StoredOk c U n x := fun l x hx => (h.files l x hx).mono hn
  ⟨forall_setLevel (Q := fun files => ∀ x ∈ files, StoredOk c U n x)
      (mem_insertFile_ok hs (hold level)) hold,
    forall_setLevel (Q := fun files => files.Pairwise Stored.Before)
      (Bucket.pairwise_insertFile (h.sorted level)) h.sorted⟩

/-- The files of the bucket stay valid and sorted under a DELETE. -/
theorem Filed.delete_files (h : Filed c U w) (level minTxid maxTxid : Nat) :
    (∀ l, ∀ x ∈ w.bucket.act (.delete level minTxid maxTxid) l, StoredOk c U w.uploaded x) ∧
      ∀ l, (w.bucket.act (.delete level minTxid maxTxid) l).Pairwise Stored.Before :=
  ⟨forall_setLevel (Q := fun files => ∀ x ∈ files, StoredOk c U w.uploaded x)
      (fun x hx => h.files level x (List.mem_of_mem_filter hx)) h.files,
    forall_setLevel (Q := fun files => files.Pairwise Stored.Before)
      ((h.sorted level).filter _) h.sorted⟩

/-- A file that follows a gapless level is appended to it. -/
theorem Inv.insertFile_eq {level : Nat} {s : Stored} (h : Inv c U w)
    (hchain : (w.bucket level).IsChain Stored.Next)
    (hs : s.minTxid = endTxid (w.bucket level) + 1) :
    Bucket.insertFile s (w.bucket level) = w.bucket level ++ [s] := by
  refine Bucket.insertFile_of_before fun x hx => ?_
  have hend := maxTxid_le_endTxid_of_isChain hchain (h.files level) hx
  have hrange := (h.files level x hx).range
  unfold Stored.Before
  omega

/-- The newest snapshot's end never goes back under a PUT of a snapshot. -/
theorem Inv.endTxid_le_insertFile {s : Stored} (h : Inv c U w) (hmin : s.minTxid = 1) :
    endTxid (w.bucket snapshotLevel)
      ≤ endTxid (Bucket.insertFile s (w.bucket snapshotLevel)) := by
  rcases List.eq_nil_or_concat' (w.bucket snapshotLevel) with hnil | ⟨init, x, heq⟩
  · rw [hnil, endTxid_nil]
    exact Nat.zero_le _
  · have hx : x ∈ w.bucket snapshotLevel := by simp [heq]
    obtain ⟨y, hy, hkey⟩ := (Bucket.mem_insertFile (s := s)).2.1 hx
    rw [Stored.key, Stored.key, Prod.mk.injEq] at hkey
    have hend : endTxid (w.bucket snapshotLevel) = x.maxTxid := by
      rw [heq, endTxid_append_singleton]
    rw [hend, ← hkey.2]
    refine maxTxid_le_endTxid (Bucket.pairwise_insertFile (h.sorted _)) (fun z hz => ?_) hy
    rcases Bucket.mem_insertFile.1 hz with rfl | hz
    · exact hmin
    · exact h.snapshots z hz

/-- A level that has files does not start later with one more at its end. -/
theorem StartsBy.append_singleton {m : Nat} {files : List Stored} {s : Stored}
    (h : StartsBy m files) (hs : files = [] → s.minTxid ≤ m + 1) : StartsBy m (files ++ [s]) := by
  intro x hx
  cases files with
  | nil =>
      obtain rfl := Option.some.inj hx
      exact hs rfl
  | cons y files => exact h x hx

/-- A later bound on the start is a bound too. -/
theorem StartsBy.mono {m m' : Nat} {files : List Stored} (h : StartsBy m files) (hle : m ≤ m') :
    StartsBy m' files := fun s hs => (h s hs).trans (by omega)

/-- The rest of a gapless run whose first file ends by `m`. -/
theorem startsBy_of_isChain {s : Stored} {files : List Stored} {m : Nat}
    (h : (s :: files).IsChain Stored.Next) (hle : s.maxTxid ≤ m) : StartsBy m files := by
  intro x hx
  cases files with
  | nil => cases hx
  | cons y files =>
      obtain rfl := Option.some.inj hx
      have hnext : y.minTxid = s.maxTxid + 1 := (List.isChain_cons_cons.mp h).1
      omega

/-- **One request.** Whatever maintenance does to the bucket keeps the invariant. -/
theorem Inv.act {m : Mutation} (h : Inv c U w) (hm : Allowed c U w m) : Inv c U (w.act m) := by
  cases hm with
  | upload s hbound hmin hmax hok =>
      have hnext : s.minTxid = endTxid (w.bucket 0) + 1 := by rw [hmin, h.l0_end]
      have hup : max w.uploaded s.maxTxid = w.uploaded + 1 := by omega
      obtain ⟨hfiles, hsorted⟩ := h.filed.put_files 0 (Nat.le_succ _) hok
      have h0 : w.bucket.act (.put 0 s) 0 = w.bucket 0 ++ [s] := by
        rw [Bucket.act, Bucket.setLevel_same, h.insertFile_eq h.l0 hnext]
      have hother : ∀ l ≠ 0, w.bucket.act (.put 0 s) l = w.bucket l :=
        fun l hl => Bucket.setLevel_of_ne _ _ hl
      refine ⟨?_, ?_, hsorted, ?_, ?_, ?_, ?_, ?_, ?_, ?_⟩ <;> simp only [World.act, hup, h0,
        hother 1 (by decide), hother snapshotLevel (by decide)]
      · exact hbound
      · exact hfiles
      · exact h.snapshots
      · exact isChain_append_singleton h.l0 hnext
      · rw [endTxid_append_singleton, hmax]
      · -- without any level-0 file this is the first upload
        refine h.l0_start.append_singleton fun hnil => ?_
        have hzero := h.l0_end
        rw [hnil, endTxid_nil] at hzero
        omega
      · intro x hx
        rcases List.mem_append.mp hx with hx | hx
        · exact h.l0_single x hx
        · rw [List.mem_singleton.mp hx, hmin, hmax]
      · exact h.l1
      · exact h.l1_start
  | compactL0 s hmin hok =>
      obtain ⟨hfiles, hsorted⟩ := h.filed.put_files 1 (Nat.le_refl _) hok
      have h1 : w.bucket.act (.put 1 s) 1 = w.bucket 1 ++ [s] := by
        rw [Bucket.act, Bucket.setLevel_same, h.insertFile_eq h.l1 hmin]
      have hother : ∀ l ≠ 1, w.bucket.act (.put 1 s) l = w.bucket l :=
        fun l hl => Bucket.setLevel_of_ne _ _ hl
      refine ⟨h.bound, hfiles, hsorted, ?_, ?_, ?_, ?_, ?_, ?_, ?_⟩ <;> simp only [World.act, h1,
        hother 0 (by decide), hother snapshotLevel (by decide)]
      · exact h.snapshots
      · exact h.l0
      · exact h.l0_end
      · have hrange := hok.range
        rw [endTxid_append_singleton]
        exact h.l0_start.mono (by omega)
      · exact h.l0_single
      · exact isChain_append_singleton h.l1 hmin
      · refine h.l1_start.append_singleton fun hnil => ?_
        rw [hnil, endTxid_nil] at hmin
        omega
  | compact level s hlow hhigh hok =>
      obtain ⟨hfiles, hsorted⟩ := h.filed.put_files level (Nat.le_refl _) hok
      have hother : ∀ l ≠ level, w.bucket.act (.put level s) l = w.bucket l :=
        fun l hl => Bucket.setLevel_of_ne _ _ hl
      have hw : w.act (.put level s) = ⟨w.bucket.act (.put level s), w.uploaded⟩ := by
        obtain ⟨k, rfl⟩ : ∃ k, level = k + 1 := ⟨level - 1, by omega⟩
        rfl
      rw [hw]
      refine ⟨h.bound, hfiles, hsorted, ?_, ?_, ?_, ?_, ?_, ?_, ?_⟩ <;> simp only [
        hother 0 (by omega), hother 1 (by omega), hother snapshotLevel (by omega)]
      exacts [h.snapshots, h.l0, h.l0_end, h.l0_start, h.l0_single, h.l1, h.l1_start]
  | snapshot s hmin hok =>
      obtain ⟨hfiles, hsorted⟩ := h.filed.put_files snapshotLevel (Nat.le_refl _) hok
      have h9 : w.bucket.act (.put snapshotLevel s) snapshotLevel
          = Bucket.insertFile s (w.bucket snapshotLevel) := by
        rw [Bucket.act, Bucket.setLevel_same]
      have hother : ∀ l ≠ snapshotLevel, w.bucket.act (.put snapshotLevel s) l = w.bucket l :=
        fun l hl => Bucket.setLevel_of_ne _ _ hl
      refine ⟨h.bound, hfiles, hsorted, ?_, ?_, ?_, ?_, ?_, ?_, ?_⟩ <;> simp only [World.act, h9,
        hother 0 (by decide), hother 1 (by decide)]
      · intro x hx
        rcases Bucket.mem_insertFile.1 hx with rfl | hx
        · exact hmin
        · exact h.snapshots x hx
      · exact h.l0
      · exact h.l0_end
      · exact h.l0_start
      · exact h.l0_single
      · exact h.l1
      · exact h.l1_start.mono (h.endTxid_le_insertFile hmin)
  | retireL0 s rest heq hne hcovered =>
      obtain ⟨hfiles, hsorted⟩ := h.filed.delete_files 0 s.minTxid s.maxTxid
      have hchain := h.l0
      have hend := h.l0_end
      rw [heq] at hchain hend
      have h0 : w.bucket.act (.delete 0 s.minTxid s.maxTxid) 0 = rest := by
        rw [Bucket.act, Bucket.setLevel_same, heq]
        exact filter_key_head (heq ▸ h.sorted 0)
      have hother : ∀ l ≠ 0, w.bucket.act (.delete 0 s.minTxid s.maxTxid) l = w.bucket l :=
        fun l hl => Bucket.setLevel_of_ne _ _ hl
      refine ⟨h.bound, hfiles, hsorted, ?_, ?_, ?_, ?_, ?_, ?_, ?_⟩ <;> simp only [World.act, h0,
        hother 1 (by decide), hother snapshotLevel (by decide)]
      · exact h.snapshots
      · exact hchain.tail
      · rwa [endTxid_cons hne] at hend
      · exact startsBy_of_isChain hchain hcovered
      · exact fun x hx => h.l0_single x (heq ▸ List.mem_cons_of_mem s hx)
      · exact h.l1
      · exact h.l1_start
  | retireL1 s rest heq hne hcovered =>
      obtain ⟨hfiles, hsorted⟩ := h.filed.delete_files 1 s.minTxid s.maxTxid
      have hchain := h.l1
      have hstart := h.l0_start
      rw [heq] at hchain hstart
      have h1 : w.bucket.act (.delete 1 s.minTxid s.maxTxid) 1 = rest := by
        rw [Bucket.act, Bucket.setLevel_same, heq]
        exact filter_key_head (heq ▸ h.sorted 1)
      have hother : ∀ l ≠ 1, w.bucket.act (.delete 1 s.minTxid s.maxTxid) l = w.bucket l :=
        fun l hl => Bucket.setLevel_of_ne _ _ hl
      refine ⟨h.bound, hfiles, hsorted, ?_, ?_, ?_, ?_, ?_, ?_, ?_⟩ <;> simp only [World.act, h1,
        hother 0 (by decide), hother snapshotLevel (by decide)]
      · exact h.snapshots
      · exact h.l0
      · exact h.l0_end
      · rwa [endTxid_cons hne] at hstart
      · exact h.l0_single
      · exact hchain.tail
      · exact startsBy_of_isChain hchain hcovered
  | retire level minTxid maxTxid last hlow hlast hne =>
      obtain ⟨hfiles, hsorted⟩ := h.filed.delete_files level minTxid maxTxid
      have hother : ∀ l ≠ level, w.bucket.act (.delete level minTxid maxTxid) l = w.bucket l :=
        fun l hl => Bucket.setLevel_of_ne _ _ hl
      -- a level keeps its last file, so the snapshots end where they did
      have hend : endTxid (w.bucket.act (.delete level minTxid maxTxid) snapshotLevel)
          = endTxid (w.bucket snapshotLevel) := by
        by_cases hl : level = snapshotLevel
        · rw [hl] at hlast ⊢
          rw [Bucket.act, Bucket.setLevel_same, endTxid, endTxid,
            getLast?_filter hlast (by simpa using hne), hlast]
        · rw [hother snapshotLevel (Ne.symm hl)]
      refine ⟨h.bound, hfiles, hsorted, ?_, ?_, ?_, ?_, ?_, ?_, ?_⟩ <;> simp only [World.act, hend,
        hother 0 (by omega), hother 1 (by omega)]
      · intro x hx
        by_cases hl : level = snapshotLevel
        · rw [hl, Bucket.act, Bucket.setLevel_same] at hx
          exact h.snapshots x (List.mem_of_mem_filter hx)
        · rw [hother snapshotLevel (Ne.symm hl)] at hx
          exact h.snapshots x hx
      · exact h.l0
      · exact h.l0_end
      · exact h.l0_start
      · exact h.l0_single
      · exact h.l1
      · exact h.l1_start

/-- The snapshots never end earlier. -/
theorem Inv.endTxid_snapshots_le {m : Mutation} (h : Inv c U w) (hm : Allowed c U w m) :
    endTxid (w.bucket snapshotLevel) ≤ endTxid ((w.act m).bucket snapshotLevel) := by
  cases hm with
  | upload s => rw [World.act_put_of_ne w s (by decide)]
  | compactL0 s => rw [World.act_put_of_ne w s (by decide)]
  | compact level s hlow hhigh => rw [World.act_put_of_ne w s hhigh.ne']
  | snapshot s hmin =>
      rw [World.act_put_same]
      exact h.endTxid_le_insertFile hmin
  | retireL0 s => rw [World.act_delete_of_ne w _ _ (by decide)]
  | retireL1 s => rw [World.act_delete_of_ne w _ _ (by decide)]
  | retire level minTxid maxTxid last hlow hlast hne =>
      by_cases hl : level = snapshotLevel
      · subst hl
        rw [World.act_delete_same, endTxid, endTxid, getLast?_filter hlast (by simpa using hne),
          hlast]
      · rw [World.act_delete_of_ne w _ _ (Ne.symm hl)]

end Liters
