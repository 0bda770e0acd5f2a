import Liters.Maintenance.Calls

/-! # What snapshots hold does not matter

Compaction into levels 1 to 8 reads levels 0 to 7, and everything else looks at listings only. So a
run of ordinary calls does the same whatever its snapshots hold: with `World.imaged` every file of
level 9 holds the image that `img` gives for its last transaction, and `Call.Ordinary.imaged` says
that a call on such a bucket makes the requests it would have made. `Uploads.exists_image` gives
images that hold what the transactions did. -/

namespace Liters

variable {c : Codec} {U : Uploads} {w : World} {img : Nat → Bytes}

/-- The content of a file, for those of level 9 by what they are labelled with. -/
def imageAt (img : Nat → Bytes) (level : Nat) (s : Stored) : Bytes :=
  if level = snapshotLevel then img s.maxTxid else s.body

/-- A bucket whose level 9 holds given images. -/
def World.imaged (img : Nat → Bytes) (w : World) : World := w.mapBodies (imageAt img)

/-- A request of such an image. -/
def Mutation.imaged (img : Nat → Bytes) (m : Mutation) : Mutation := m.mapBodies (imageAt img)

/-- A call whose snapshots are such images. -/
def Call.imaged (img : Nat → Bytes) : Call → Call
  | .snapshot image pending createdAt =>
      .snapshot (fun t => (image t).map fun _ => img t) pending createdAt
  | .maintain image opts now createdAt pending snapshotAt =>
      .maintain (fun t => (image t).map fun _ => img t) opts now createdAt pending snapshotAt
  | call => call

/-- Changing the images and doing a request commute. -/
theorem World.imaged_act (w : World) (m : Mutation) :
    (w.act m).imaged img = (w.imaged img).act (m.imaged img) :=
  World.mapBodies_act _ w m

/-- The other levels are as they are. -/
theorem World.imaged_bucket {level : Nat} (h : level ≠ snapshotLevel) :
    (w.imaged img).bucket level = w.bucket level := by
  have hbody : Stored.mapBody (imageAt img level) = id := by
    funext s
    rw [Stored.mapBody, imageAt, if_neg h]
    rfl
  show (w.bucket level).map (Stored.mapBody (imageAt img level)) = w.bucket level
  rw [hbody, List.map_id]

/-- A put below level 9 has no image to change. -/
theorem Mutation.imaged_put {level : Nat} (h : level ≠ snapshotLevel) (s : Stored) :
    (Mutation.put level s).imaged img = .put level s := by
  rw [Mutation.imaged, Mutation.mapBodies, Stored.mapBody, imageAt, if_neg h]

/-! ## Procedures -/

/-- `q` does on a bucket with the images what `p` does. -/
abbrev OnImages (img : Nat → Bytes) {α : Type} (p q : Procedure α) : Prop :=
  Script.Simulates World.act (fun _ => True) (World.imaged img) (Mutation.imaged img) Eq p q

/-- Procedures that run alike over other images do so one after the other. -/
theorem OnImages.andThen {α β : Type} {p q : Procedure α} {p' q' : α → Procedure β}
    (h : OnImages img p q) (h' : ∀ a, OnImages img (p' a) (q' a)) :
    OnImages img (p.andThen World.act p') (q.andThen World.act q') :=
  Script.Simulates.andThen World.imaged_act h h'

/-- Doing nothing runs alike. -/
theorem onImages_done {α : Type} (a : α) : OnImages img (Script.done a) (Script.done a) :=
  Script.simulates_done a

/-- They do so in both branches of a choice. -/
theorem OnImages.ite {α : Type} {p q p' q' : Procedure α} (b : Prop) [Decidable b]
    (h : OnImages img p q) (h' : OnImages img p' q') :
    OnImages img (if b then p else p') (if b then q else q') := by
  split
  · exact h
  · exact h'

/-- Nothing is asked of the requests. -/
theorem allowedAll_true (w : World) (ms : List Mutation) :
    Script.AllowedAll World.act (fun _ _ => True) w ms := by
  induction ms generalizing w with
  | nil => exact trivial
  | cons m ms ih => exact ⟨trivial, ih _⟩

/-- Two procedures that make the same requests, the second one on the images. -/
theorem onImages_of_eq {α : Type} {p q : Procedure α}
    (h : ∀ w, (q (w.imaged img)).1 = (p w).1.map (Mutation.imaged img) ∧
      (q (w.imaged img)).2 = (p w).2) :
    OnImages img p q := by
  refine ⟨fun w _ => (h w).1, fun w _ => ?_, fun w _ => allowedAll_true w _⟩
  rw [(h w).2]
  cases (p w).2 with
  | ok a => exact .ok a
  | error e => exact .error rfl

/-- A procedure that looks at listings only, and deletes. -/
theorem onImages_of_deletes {α : Type} {p : Procedure α}
    (hread : ∀ f w, p (World.mapBodies f w) = p w)
    (hdelete : ∀ w, ∃ infos, (p w).1 = Bucket.deleteLtxFiles infos) : OnImages img p p := by
  refine onImages_of_eq fun w => ?_
  obtain ⟨infos, hinfos⟩ := hdelete w
  rw [World.imaged, hread, hinfos]
  exact ⟨(map_mapBodies_deletes _ infos).symm, rfl⟩

/-- An upload looks at no image. -/
theorem upload_onImages (createdAt : Option Int) :
    OnImages img (upload c U createdAt) (upload c U createdAt) := by
  refine onImages_of_eq fun w => ?_
  have huploaded : (w.imaged img).uploaded = w.uploaded := rfl
  rw [upload, upload, huploaded]
  split
  · exact ⟨congrArg (· :: []) (Mutation.imaged_put (by decide) _).symm, rfl⟩
  · exact ⟨rfl, rfl⟩

/-- Neither do all uploads of a call. -/
theorem uploadPending_onImages (pending : List (Option Int)) :
    OnImages img (uploadPending c U pending) (uploadPending c U pending) := by
  induction pending with
  | nil => exact onImages_done ()
  | cons createdAt rest ih => exact (upload_onImages createdAt).andThen fun _ => ih

/-- **A snapshot** stores another image if it is given another one. -/
theorem snapshotOf_onImages (image : ImageSource) (pending : List (Option Int))
    (createdAt : Option Int) :
    OnImages img (snapshotOf c U image pending createdAt)
      (snapshotOf c U (fun t => (image t).map fun _ => img t) pending createdAt) := by
  refine (uploadPending_onImages pending).andThen fun _ => onImages_of_eq fun w => ?_
  have huploaded : (w.imaged img).uploaded = w.uploaded := rfl
  rw [huploaded]
  by_cases hzero : w.uploaded = 0
  · simp only [if_pos hzero, List.map_nil, and_self]
  · simp only [if_neg hzero]
    cases image w.uploaded with
    | none => exact ⟨rfl, rfl⟩
    | some body => exact ⟨rfl, rfl⟩

/-- Files of other levels are opened as before. -/
theorem openAll_imaged {infos : List FileInfo} (h : ∀ f ∈ infos, f.level ≠ snapshotLevel) :
    (w.imaged img).bucket.openAll infos = w.bucket.openAll infos := by
  induction infos with
  | nil => rfl
  | cons f infos ih =>
      have hopen : (w.imaged img).bucket.openLtxFile f.level f.minTxid f.maxTxid
          = w.bucket.openLtxFile f.level f.minTxid f.maxTxid := by
        rw [Bucket.openLtxFile, Bucket.openLtxFile,
          World.imaged_bucket (h f (List.mem_cons_self ..))]
      rw [Bucket.openAll, Bucket.openAll, hopen, ih fun x hx => h x (List.mem_cons_of_mem _ hx)]

/-- A compaction below level 9 looks at no image. -/
theorem compactLevel_onImages {level : Nat} (hlow : 1 ≤ level) (hhigh : level < snapshotLevel)
    (createdAt : Option Int) :
    OnImages img (compactLevel c level createdAt) (compactLevel c level createdAt) := by
  refine onImages_of_eq fun w => ?_
  unfold compactLevel
  rw [World.imaged, ltxFiles_mapBodies, seekTxid_mapBodies, ← World.imaged]
  cases hsrcs : w.bucket.ltxFiles (level - 1) (seekTxid w.bucket level) with
  | nil => exact ⟨rfl, rfl⟩
  | cons f fs =>
      have hlevel : ∀ x ∈ f :: fs, x.level ≠ snapshotLevel := by
        intro x hx
        rw [← hsrcs] at hx
        obtain ⟨s, -, rfl⟩ := List.mem_map.mp hx
        show level - 1 ≠ snapshotLevel
        omega
      have hmerge : (w.imaged img).bucket.mergeFiles c (f :: fs) =
          w.bucket.mergeFiles c (f :: fs) := by
        rw [Bucket.mergeFiles, Bucket.mergeFiles, openAll_imaged hlevel]
      dsimp only
      rw [hmerge]
      cases w.bucket.mergeFiles c (f :: fs) with
      | error e => exact ⟨rfl, rfl⟩
      | ok body => exact ⟨congrArg (· :: []) (Mutation.imaged_put (Nat.ne_of_lt hhigh) _).symm, rfl⟩

/-- Neither does the cascade over the levels. -/
theorem retireLevels_onImages (floor : Nat) (levels : List Nat) :
    OnImages img (retireLevels floor levels) (retireLevels floor levels) := by
  induction levels with
  | nil => exact onImages_done 0
  | cons level levels ih =>
      refine OnImages.andThen ?_ fun _ => ih.andThen fun _ => onImages_done _
      exact onImages_of_deletes (fun f w => retireLevel_mapBodies f _ _ w)
        fun w => (retireLevel_deletes _ _ w).imp fun _ h => h.1

/-- Neither does the retention of level 0. -/
theorem enforceL0Retention_onImages (grace : Nat) (now : Int) :
    OnImages img (enforceL0Retention grace now) (enforceL0Retention grace now) :=
  onImages_of_deletes (fun f w => enforceL0Retention_mapBodies f _ _ w)
    fun w => (enforceL0Retention_deletes _ _ w).imp fun _ h => h.1

/-- Neither does retention as a whole. -/
theorem enforceRetention_onImages (opts : MaintenanceOptions) (now : Int) :
    OnImages img (enforceRetention opts now) (enforceRetention opts now) := by
  refine OnImages.andThen (onImages_of_deletes (fun f w => retireSnapshots_mapBodies f _ _ w)
    fun w => (retireSnapshots_deletes _ _ w).imp fun _ h => h.1) fun r => ?_
  cases r with
  | none => exact onImages_done 0
  | some r =>
      refine (OnImages.ite _ (onImages_done 0) (retireLevels_onImages _ _)).andThen fun _ => ?_
      exact (enforceL0Retention_onImages _ now).andThen fun _ => onImages_done _

/-- A procedure that runs if a level is due. -/
theorem OnImages.whenDue {α : Type} {p q : Procedure α} (h : OnImages img p q)
    (level interval : Nat) (now : Int) (a : α) :
    OnImages img (fun w => if levelDue w.bucket level interval now then p w else ([], .ok a))
      (fun w => if levelDue w.bucket level interval now then q w else ([], .ok a)) := by
  have hdue : ∀ w : World, levelDue (w.imaged img).bucket level interval now
      = levelDue w.bucket level interval now := fun w => by rw [World.imaged, levelDue_mapBodies]
  refine ⟨fun w hw => ?_, fun w hw => ?_, fun w _ => allowedAll_true w _⟩
  all_goals
    rw [hdue]
    by_cases hw' : levelDue w.bucket level interval now
  · simp only [if_pos hw']
    exact h.mutations w hw
  · simp only [if_neg hw']
    rfl
  · simp only [if_pos hw']
    exact h.ends w hw
  · simp only [if_neg hw']
    exact .ok a

/-- Neither do the compactions of a maintenance run. -/
theorem compactDue_onImages (opts : MaintenanceOptions) (now : Int) (createdAt : Nat → Option Int)
    {intervals : List Nat} {level : Nat} (hlow : 1 ≤ level)
    (hhigh : level + intervals.length ≤ snapshotLevel) :
    OnImages img (compactDue c opts now createdAt level intervals)
      (compactDue c opts now createdAt level intervals) := by
  induction intervals generalizing level with
  | nil => exact onImages_done 0
  | cons interval intervals ih =>
      rw [List.length_cons] at hhigh
      refine ((compactLevel_onImages hlow (by omega) _).whenDue _ _ _ _).andThen fun compacted => ?_
      refine (OnImages.ite _ (enforceL0Retention_onImages _ now) (onImages_done 0)).andThen
        fun deleted => ?_
      exact (ih (by omega) (by omega)).andThen fun _ => onImages_done _

/-- **A maintenance run** stores another image if it is given another one. -/
theorem maintainOf_onImages (image : ImageSource) {opts : MaintenanceOptions}
    (hlevels : opts.levelIntervals.length ≤ 8) (now : Int) (createdAt : Nat → Option Int)
    (pending : List (Option Int)) :
    OnImages img (maintainOf c U image opts now createdAt pending)
      (maintainOf c U (fun t => (image t).map fun _ => img t) opts now createdAt pending) := by
  have hnine : 1 + opts.levelIntervals.length ≤ snapshotLevel := by
    rw [snapshotLevel]
    omega
  refine (compactDue_onImages opts now createdAt (Nat.le_refl 1) hnine).andThen fun _ => ?_
  refine ((snapshotOf_onImages image pending _).whenDue _ _ _ _).andThen fun _ => ?_
  exact (OnImages.ite _ (enforceRetention_onImages opts now) (onImages_done 0)).andThen fun _ =>
    onImages_done _

/-- **Snapshots do not matter.** An ordinary call requests the same on a bucket with other
snapshots. -/
theorem Call.Ordinary.imaged {call : Call} (h : call.Ordinary) :
    (call.imaged img).requests c U (w.imaged img) =
      (call.requests c U w).map (Mutation.imaged img) := by
  cases call with
  | push pending => exact (uploadPending_onImages pending).mutations w trivial
  | compactLevel level createdAt =>
      exact (compactLevel_onImages h.1 (Nat.lt_succ_of_le h.2) createdAt).mutations w trivial
  | snapshot image pending createdAt =>
      exact (snapshotOf_onImages image pending createdAt).mutations w trivial
  | maintain image opts now createdAt pending snapshotAt =>
      exact (maintainOf_onImages image h now _ pending).mutations w trivial

/-- It stays ordinary. -/
theorem Call.Ordinary.imaged_ordinary {call : Call} (h : call.Ordinary) :
    (call.imaged img).Ordinary := by
  cases call with
  | push pending => exact h
  | compactLevel level createdAt => exact h
  | snapshot image pending createdAt => exact h
  | maintain image opts now createdAt pending snapshotAt => exact h

/-- Its snapshots are images that hold what the transactions did. -/
theorem Call.imaged_exact (h : ImageSource.Exact c U fun t => some (img t)) (call : Call) :
    (call.imaged img).Exact c U := by
  have himage : ∀ image : ImageSource, ImageSource.Exact c U fun t => (image t).map fun _ =>
      img t := by
    intro image t body hbody
    obtain ⟨_, -, rfl⟩ := Option.map_eq_some_iff.mp hbody
    exact h t _ rfl
  cases call with
  | push pending => exact trivial
  | compactLevel level createdAt => exact trivial
  | snapshot image pending createdAt => exact himage image
  | maintain image opts now createdAt pending snapshotAt => exact himage image

/-! ## Images of the uploads -/

/-- The uploads from transaction 1 on. -/
def Uploads.firstFiles (U : Uploads) (n : Nat) : List LtxFile := (List.range' 2 n).map U.file

/-- One of them. -/
theorem Uploads.fileOk (U : Uploads) {t n : Nat} (ht : 1 ≤ t) (hle : t ≤ n) (hn : n < 2 ^ 64 - 1) :
    FileOk U n (U.file t) := by
  obtain ⟨hmin, hmax⟩ := U.txid t ht (by omega)
  refine ⟨U.size t ht (by omega), ?_, by omega⟩
  rw [hmin, hmax]
  exact History.exact_patch (h := U.history) ht

/-- Each follows the one before it. -/
theorem Uploads.isChain_files (U : Uploads) {t n : Nat} (ht : 1 ≤ t) (hn : t + n < 2 ^ 64 - 1) :
    (U.file t :: (List.range' (t + 1) n).map U.file).IsChain LtxFile.Precedes := by
  induction n generalizing t with
  | zero => exact .singleton _
  | succ n ih =>
      rw [List.range'_succ, List.map_cons]
      refine List.isChain_cons_cons.mpr ⟨⟨?_, ?_⟩, ih (by omega) (by omega)⟩
      · rw [U.size t ht (by omega), U.size (t + 1) (by omega) (by omega)]
      · obtain ⟨-, hmax⟩ := U.txid t ht (by omega)
        obtain ⟨hmin', hmax'⟩ := U.txid (t + 1) (by omega) (by omega)
        rw [isContiguous, hmax, hmin', hmax', wrappingSucc_of_lt (by omega)]
        simp

/-- The last of the first files. -/
theorem Uploads.getLast_firstFiles (U : Uploads) (n : Nat) :
    (U.file 1 :: U.firstFiles n).getLast (List.cons_ne_nil _ _) = U.file (n + 1) := by
  cases n with
  | zero => rfl
  | succ n =>
      have hnext : 2 + n = n + 1 + 1 := by omega
      simp [Uploads.firstFiles, List.range'_1_concat, hnext]

/-- A file of the history from transaction 1 on is a full image. -/
theorem FileOk.fullImage {t : Nat} {g : LtxFile} (h : FileOk U t g) (hmin : g.hdr.minTxid.toNat = 1)
    (hmax : g.hdr.maxTxid.toNat = t) (ht : 1 ≤ t) (hn : t < 2 ^ 64 - 1) : U.FullImage t g := by
  have hexact := h.exact
  rw [hmin, hmax] at hexact
  have hcommit : g.patch.commit = (U.state t).size :=
    hexact.commit.trans (History.state_size (h := U.history) ht).symm
  refine ⟨hmin, hmax, h.size, hcommit, fun p hpos hle hlock => ?_⟩
  obtain ⟨hsome, hnone⟩ := History.state_page (h := U.history) (U.growing t hn) (Nat.le_refl t)
    (a := 1) (by omega) hle hlock (t := 0) (by omega) (Nat.zero_le t)
  rw [hexact.page p hpos (hcommit ▸ hle) hlock]
  cases hv : U.history.newestIn 1 t p with
  | some v => exact congrArg some (hsome v hv).symm
  | none =>
      -- a page that no transaction wrote lies in the empty database
      have : p ≤ 0 := (hnone hv).1
      omega

/-- **There is a full image** of every transaction: the uploads, merged. -/
theorem Uploads.exists_fullImage (U : Uploads) {t : Nat} (ht : 1 ≤ t) (hn : t < 2 ^ 64 - 1) :
    ∃ f, U.FullImage t f := by
  have hmem : ∀ x ∈ U.file 1 :: U.firstFiles (t - 1), ∃ i, 1 ≤ i ∧ i ≤ t ∧ x = U.file i := by
    intro x hx
    rcases List.mem_cons.mp hx with rfl | hx
    · exact ⟨1, Nat.le_refl 1, ht, rfl⟩
    · obtain ⟨i, hi, rfl⟩ := List.mem_map.mp hx
      obtain ⟨hlow, hhigh⟩ := List.mem_range'_1.mp hi
      exact ⟨i, by omega, by omega, rfl⟩
  have hok : ∀ x ∈ U.file 1 :: U.firstFiles (t - 1), FileOk U t x := by
    intro x hx
    obtain ⟨i, hi, hle, rfl⟩ := hmem x hx
    exact U.fileOk hi hle hn
  obtain ⟨hfirst, -⟩ := U.txid 1 (Nat.le_refl 1) (by omega)
  have hlast : ((U.file 1 :: U.firstFiles (t - 1)).getLast
      (List.cons_ne_nil _ _)).hdr.maxTxid.toNat = t := by
    rw [U.getLast_firstFiles, Nat.sub_add_cancel ht]
    exact (U.txid t ht hn).2
  obtain ⟨hcompact, hfile⟩ := FileOk.merge (c := literalCodec) hn hok
    (U.isChain_files (Nat.le_refl 1) (by omega)) fun x hx => by
      obtain ⟨i, hi, hi', rfl⟩ := hmem x (List.mem_cons_of_mem _ hx)
      rw [hfirst, (U.txid i hi (by omega)).1]
      exact hi
  exact ⟨_, hfile.fullImage hfirst hlast ht hn⟩

/-- A stored full image is valid. -/
theorem Uploads.FullImage.storedOk {t : Nat} {f : LtxFile} (h : U.FullImage t f) (ht : 1 ≤ t)
    (hn : t < 2 ^ 64 - 1) (c : Codec) (createdAt : Option Int) :
    StoredOk c U t ⟨1, t, createdAt, f.bytes c⟩ :=
  ⟨Nat.le_refl t, f, rfl, h.size, h.minTxid, h.maxTxid, h.exact ht hn⟩

/-- **A full image can be a snapshot**: there is a source that has it. -/
theorem Uploads.FullImage.exists_source {t : Nat} {f : LtxFile} (h : U.FullImage t f) :
    ∃ source : SnapshotSource U, source.file t = f := by
  have hall : ∀ i, ∃ g, (1 ≤ i → i < 2 ^ 64 - 1 → U.FullImage i g) ∧ (i = t → g = f) := by
    intro i
    by_cases hi : i = t
    · subst hi
      exact ⟨f, fun _ _ => h, fun _ => rfl⟩
    · by_cases hrange : 1 ≤ i ∧ i < 2 ^ 64 - 1
      · obtain ⟨g, hg⟩ := U.exists_fullImage hrange.1 hrange.2
        exact ⟨g, fun _ _ => hg, fun heq => absurd heq hi⟩
      · exact ⟨f, fun h1 h2 => absurd ⟨h1, h2⟩ hrange, fun _ => rfl⟩
  choose file hfile using hall
  exact ⟨⟨file, fun i => (hfile i).1⟩, (hfile t).2 rfl⟩

/-- **There are images** that hold what the transactions did. -/
theorem Uploads.exists_image (c : Codec) (U : Uploads) :
    ∃ img : Nat → Bytes, ImageSource.Exact c U fun t => some (img t) := by
  have hone : ∀ t, ∃ body, 1 ≤ t → t < 2 ^ 64 - 1 →
      ∀ createdAt, StoredOk c U t ⟨1, t, createdAt, body⟩ := by
    intro t
    by_cases ht : 1 ≤ t ∧ t < 2 ^ 64 - 1
    · obtain ⟨f, hf⟩ := U.exists_fullImage ht.1 ht.2
      exact ⟨f.bytes c, fun h1 h2 createdAt => hf.storedOk h1 h2 c createdAt⟩
    · exact ⟨[], fun h1 h2 => absurd ⟨h1, h2⟩ ht⟩
  choose img himg using hone
  refine ⟨img, fun t body hbody ht hn => ?_⟩
  obtain rfl := Option.some.inj hbody
  exact himg t ht hn

end Liters
