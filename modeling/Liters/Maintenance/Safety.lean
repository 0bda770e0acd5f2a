import Liters.Maintenance.Invariant

/-! # Maintenance makes only allowed requests

One lemma for each procedure: from a bucket with the invariant it makes only requests that are
`Allowed` at the time they are made. Merging listed files gives a file that carries exactly what the
transactions of the merged range did; and what a batch of deletes removes is, at every moment, the
first file of a gapless level or not the last file of another one. -/

namespace Liters

variable {c : Codec} {U : Uploads} {w : World}

/-! ## Merging listed files -/

/-- A file of the writer's history, up to transaction `n`. -/
structure FileOk (U : Uploads) (n : Nat) (g : LtxFile) : Prop where
  size : g.hdr.pageSize = U.pageSize
  exact : U.history.Exact U.lock g.hdr.minTxid.toNat g.hdr.maxTxid.toNat g.patch
  le : g.hdr.maxTxid.toNat ≤ n

/-- `g` is the content of the file listed as `f`. -/
structure Carries (U : Uploads) (n : Nat) (f : FileInfo) (g : LtxFile) :
    Prop extends FileOk U n g where
  minTxid : g.hdr.minTxid.toNat = f.minTxid
  maxTxid : g.hdr.maxTxid.toNat = f.maxTxid

/-- A listed file is in the bucket. -/
def Bucket.Has (b : Bucket) (f : FileInfo) : Prop :=
  ∃ s ∈ b f.level, s.key = (f.minTxid, f.maxTxid)

/-- A file of a run has the lock page of its database. -/
theorem FileOk.lock {n : Nat} {g : LtxFile} (h : FileOk U n g) : g.lock = U.lock := by
  rw [LtxFile.lock, Header.lockPgno, h.size, Uploads.lock]

/-- Listed files can be opened. -/
theorem Filed.openAll (h : Filed c U w) {infos : List FileInfo}
    (hlisted : ∀ f ∈ infos, w.bucket.Has f) :
    ∃ gs, List.Forall₂ (Carries U w.uploaded) infos gs ∧
      w.bucket.openAll infos = .ok (gs.map (LtxFile.bytes c)) := by
  induction infos with
  | nil => exact ⟨[], .nil, rfl⟩
  | cons f infos ih =>
      obtain ⟨gs, hgs, hopen⟩ := ih fun x hx => hlisted x (List.mem_cons_of_mem _ hx)
      obtain ⟨s, hs, hkey⟩ := hlisted f (List.mem_cons_self ..)
      obtain ⟨s', hs', hkey', hbody⟩ := Bucket.openLtxFile_of_mem hs
      obtain ⟨hle, g, hg, hsize, hmin, hmax, he⟩ := h.files f.level s' hs'
      rw [hkey, Stored.key, Prod.mk.injEq] at hkey'
      rw [Stored.key, Prod.mk.injEq] at hkey
      have hcar : Carries U w.uploaded f g := by
        refine ⟨⟨hsize, ?_, by omega⟩, by omega, by omega⟩
        rw [hmin, hmax]
        exact he
      refine ⟨g :: gs, .cons hcar hgs, ?_⟩
      rw [Bucket.openAll, ← hkey.1, ← hkey.2, hbody, hopen, hg]
      rfl

/-- The compactor accepts the files exactly if their listing is contiguous. -/
theorem isChain_contiguous_iff {n : Nat} {infos : List FileInfo} {gs : List LtxFile}
    (h : List.Forall₂ (Carries U n) infos gs) :
    infos.IsChain Contiguous ↔ gs.IsChain LtxFile.Precedes := by
  induction h with
  | nil => exact iff_of_true .nil .nil
  | cons hf htail ih =>
      cases htail with
      | nil => exact iff_of_true (.singleton _) (.singleton _)
      | cons hg _ =>
          rw [List.isChain_cons_cons, List.isChain_cons_cons, ih, Contiguous, LtxFile.Precedes,
            hf.size, hg.size, hf.maxTxid, hg.minTxid, hg.maxTxid]
          simp

/-- Where the listing and the files end. -/
theorem getLast_maxTxid {n : Nat} {f : FileInfo} {fs : List FileInfo} {g : LtxFile}
    {gs : List LtxFile} (h : List.Forall₂ (Carries U n) (f :: fs) (g :: gs)) :
    ((g :: gs).getLast (List.cons_ne_nil _ _)).hdr.maxTxid.toNat
      = ((f :: fs).getLast (List.cons_ne_nil _ _)).maxTxid := by
  induction fs generalizing f g gs with
  | nil =>
      obtain ⟨hfg, htail⟩ := List.forall₂_cons.mp h
      cases htail
      exact hfg.maxTxid
  | cons f' fs ih =>
      obtain ⟨hfg, htail⟩ := List.forall₂_cons.mp h
      cases gs with
      | nil => cases htail
      | cons g' gs =>
          rw [List.getLast_cons (List.cons_ne_nil _ _), List.getLast_cons (List.cons_ne_nil _ _)]
          exact ih htail

/-- The ranges and patches of files. -/
def ranged (gs : List LtxFile) : List (Ranged Bytes) :=
  gs.map fun g => ⟨g.hdr.minTxid.toNat, g.hdr.maxTxid.toNat, g.patch⟩

/-- The patches of a chain of files. -/
theorem patchesOf_ranged (gs : List LtxFile) : History.patchesOf (ranged gs) = patches gs := by
  simp [History.patchesOf, ranged, patches]

/-- Files that precede each other have ranges that extend each other. -/
theorem isChain_ranged {n : Nat} (hn : n < 2 ^ 64 - 1) {gs : List LtxFile}
    (hok : ∀ g ∈ gs, FileOk U n g) (h : gs.IsChain LtxFile.Precedes) :
    (ranged gs).IsChain History.Ranged.Extends := by
  induction gs with
  | nil => exact .nil
  | cons g gs ih =>
      cases gs with
      | nil => exact .singleton _
      | cons g' gs =>
          rw [List.isChain_cons_cons] at h
          refine List.isChain_cons_cons.mpr
            ⟨?_, ih (fun x hx => hok x (List.mem_cons_of_mem _ hx)) h.2⟩
          have hcont := h.1.2
          have hle := (hok g (List.mem_cons_self ..)).le
          rw [isContiguous, wrappingSucc_of_lt (by omega), Bool.and_eq_true, decide_eq_true_eq,
            decide_eq_true_eq] at hcont
          exact hcont

/-- **Merging files of the history** gives a file of the history. -/
theorem FileOk.merge {n : Nat} (hn : n < 2 ^ 64 - 1) {g : LtxFile} {gs : List LtxFile}
    (hok : ∀ x ∈ g :: gs, FileOk U n x) (hchain : (g :: gs).IsChain LtxFile.Precedes)
    (hmin : ∀ x ∈ gs, g.hdr.minTxid.toNat ≤ x.hdr.minTxid.toNat) :
    ∃ hc : Compactable g gs, FileOk U n (mergedFile c g gs hc) := by
  have hg := hok g (List.mem_cons_self ..)
  have hgrow : U.history.Growing U.lock n := U.growing n hn
  have hexact : U.history.AllExact U.lock n (ranged (g :: gs)) := by
    intro r hr
    obtain ⟨x, hx, rfl⟩ := List.mem_map.mp hr
    exact ⟨(hok x hx).exact, (hok x hx).le⟩
  have hext := isChain_ranged hn hok hchain
  have hlock := hg.lock
  -- a file that begins at 1 is a full image, and each after it extends it
  have hcompact : Compactable g gs := by
    refine ⟨hchain, fun hs => ?_⟩
    have hone : g.hdr.minTxid = 1 := by simpa [Header.isSnapshot] using hs
    have hcov := History.coversChain_patchesOf hgrow hexact hext (t := 0)
      (show g.hdr.minTxid.toNat ≤ 0 + 1 by rw [hone]; decide) (Nat.zero_le _)
    rw [hlock]
    exact patchesOf_ranged (g :: gs) ▸ hcov
  -- exact patches in a chain merge into an exact patch
  have hmerge := History.exact_mergeAll hgrow hexact hext (by
    intro r hr
    obtain ⟨x, hx, rfl⟩ := List.mem_map.mp hr
    exact hmin x hx)
  have hlast : History.lastMax ⟨g.hdr.minTxid.toNat, g.hdr.maxTxid.toNat, g.patch⟩ (ranged gs)
      = ((g :: gs).getLast (List.cons_ne_nil _ _)).hdr.maxTxid.toNat := by
    have hmap : (ranged (g :: gs)).getLast (List.cons_ne_nil _ _) = _ := List.getLast_map ..
    exact congrArg Ranged.max hmap
  refine ⟨hcompact, hg.size, ?_, (hok _ (List.getLast_mem _)).le⟩
  rw [mergedFile_patch, ← patchesOf_ranged]
  exact hlast ▸ hmerge

/-- Merging opened files is compacting them. -/
theorem Bucket.mergeFiles_eq_ok_iff {b : Bucket} {infos : List FileInfo} {rdrs : List Bytes}
    (hopen : b.openAll infos = .ok rdrs) {body : Bytes} :
    b.mergeFiles c infos = .ok body ↔
      ∃ hdr t, compact c headerFlagNoChecksum false rdrs = .ok (body, hdr, t) := by
  rw [Bucket.mergeFiles, hopen, ok_bind]
  cases compact c headerFlagNoChecksum false rdrs with
  | error e => simp
  | ok out => simp [Prod.ext_iff]

/-- **Merging listed files** that start no earlier than the first one: it succeeds exactly if the
listing is contiguous, and the result is a file of the history that spans it. -/
theorem Filed.mergeFiles (hc : c.Lawful) (h : Filed c U w) {f : FileInfo} {fs : List FileInfo}
    (hlisted : ∀ x ∈ f :: fs, w.bucket.Has x) (hmin : ∀ x ∈ fs, f.minTxid ≤ x.minTxid) :
    ((f :: fs).IsChain Contiguous → ∃ body, w.bucket.mergeFiles c (f :: fs) = .ok body) ∧
      ∀ body, w.bucket.mergeFiles c (f :: fs) = .ok body → (f :: fs).IsChain Contiguous ∧
        ∃ g : LtxFile, body = g.bytes c ∧
          Carries U w.uploaded
            ⟨0, f.minTxid, ((f :: fs).getLast (List.cons_ne_nil _ _)).maxTxid, none⟩ g := by
  -- the listed files open, each with a body that carries its range
  obtain ⟨gs, hgs, hopen⟩ := h.openAll hlisted
  obtain ⟨g, gs, hfg, htail, rfl⟩ := List.forall₂_cons_left_iff.mp hgs
  have hok : ∀ x ∈ g :: gs, FileOk U w.uploaded x := by
    intro x hx
    obtain ⟨i, hi⟩ := List.mem_iff_get.mp hx
    have := hgs.get (i := i) (by rw [hgs.length_eq]; exact i.2) i.2
    exact hi ▸ this.toFileOk
  have hmin' : ∀ x ∈ gs, g.hdr.minTxid.toNat ≤ x.hdr.minTxid.toNat := by
    intro x hx
    obtain ⟨i, hi⟩ := List.mem_iff_get.mp hx
    have hi' : (i : Nat) < fs.length := by rw [htail.length_eq]; exact i.2
    have hcar := htail.get hi' i.2
    rw [← hi, hfg.minTxid]
    exact (hmin _ (List.getElem_mem hi')).trans hcar.minTxid.ge
  -- the merged body carries from the first beginning to the last end
  have hmerge : (g :: gs).IsChain LtxFile.Precedes → ∃ g' : LtxFile,
      w.bucket.mergeFiles c (f :: fs) = .ok (g'.bytes c) ∧ Carries U w.uploaded
        ⟨0, f.minTxid, ((f :: fs).getLast (List.cons_ne_nil _ _)).maxTxid, none⟩ g' := by
    intro hchain
    obtain ⟨hcompact, hfile⟩ := FileOk.merge (c := c) h.bound hok hchain hmin'
    refine ⟨mergedFile c g gs hcompact, ?_, hfile, hfg.minTxid, getLast_maxTxid hgs⟩
    exact (Bucket.mergeFiles_eq_ok_iff hopen).mpr ⟨_, _, compact_eq_mergedFile hc hcompact⟩
  -- the files can be merged if and only if they are a chain
  refine ⟨fun hchain => ?_, fun body hbody => ?_⟩
  · obtain ⟨g', hg', -⟩ := hmerge ((isChain_contiguous_iff hgs).mp hchain)
    exact ⟨_, hg'⟩
  · obtain ⟨_, _, hcomp⟩ := (Bucket.mergeFiles_eq_ok_iff hopen).mp hbody
    have hchain := isChain_of_compact hcomp
    obtain ⟨g', hg', hcar⟩ := hmerge hchain
    exact ⟨(isChain_contiguous_iff hgs).mpr hchain, g', Except.ok.inj (hbody.symm.trans hg'), hcar⟩

/-- What carries a well-formed file is well formed when stored. -/
theorem Carries.storedOk {n : Nat} {f : FileInfo} {g : LtxFile} (h : Carries U n f g)
    (createdAt : Option Int) : StoredOk c U n ⟨f.minTxid, f.maxTxid, createdAt, g.bytes c⟩ := by
  have hle := h.le
  have he := h.exact
  rw [h.minTxid, h.maxTxid] at he
  rw [h.maxTxid] at hle
  exact ⟨hle, g, rfl, h.size, h.minTxid, h.maxTxid, he⟩

/-! ## Uploads and snapshots -/

/-- The script makes only allowed requests. -/
abbrev Procedure.Safe (c : Codec) (U : Uploads) {α : Type} (p : Procedure α) : Prop :=
  Script.Safe World.act (Inv c U) (Allowed c U) p

/-- **An allowed request** keeps the invariant. -/
theorem inv_step (w : World) (m : Mutation) (h : Inv c U w) (hm : Allowed c U w m) :
    Inv c U (w.act m) := h.act hm

/-- An upload is allowed. -/
theorem upload_safe (createdAt : Option Int) : (upload c U createdAt).Safe c U := by
  intro w h
  rw [upload]
  split
  · rename_i hn
    obtain ⟨hmin, hmax⟩ := U.txid (w.uploaded + 1) (by omega) hn
    have hsize := U.size (w.uploaded + 1) (by omega) hn
    have he : U.history.Exact U.lock (w.uploaded + 1) (w.uploaded + 1)
        (U.file (w.uploaded + 1)).patch := History.exact_patch (h := U.history) (by omega)
    exact ⟨.upload _ hn rfl rfl ⟨Nat.le_refl _, _, rfl, hsize, hmin, hmax, he⟩, trivial⟩
  · exact trivial

/-- So are all uploads of a call. -/
theorem uploadPending_safe (pending : List (Option Int)) :
    (uploadPending c U pending).Safe c U := by
  induction pending with
  | nil => exact Script.safe_done ()
  | cons createdAt rest ih => exact (upload_safe createdAt).andThen inv_step fun _ => ih

/-- A full image is a file of the history. -/
theorem Uploads.FullImage.exact {t : Nat} {f : LtxFile} (h : U.FullImage t f) (ht : 1 ≤ t)
    (hn : t < 2 ^ 64 - 1) : U.history.Exact U.lock 1 t f.patch := by
  have hsize : (U.state t).size = (U.history.patch t).commit := History.state_size ht
  refine ⟨Nat.le_refl _, ht, h.commit.trans hsize, fun p h0 hp hs => ?_⟩
  rw [h.commit] at hp
  rw [h.page p h0 hp hs]
  obtain ⟨hsome, hnone⟩ := History.state_page (h := U.history) (U.growing t hn) (Nat.le_refl t)
    (a := 1) (by omega) hp hs (t := 0) (by omega) (Nat.zero_le t)
  cases hv : U.history.newestIn 1 t p with
  | some v => exact congrArg some (hsome v hv)
  | none =>
      -- a page that no transaction wrote lies in the empty database
      have : p ≤ 0 := (hnone hv).1
      omega

/-- So is a snapshot from a source of full images. -/
theorem snapshot_safe (source : SnapshotSource U) (pending : List (Option Int))
    (createdAt : Option Int) : (snapshot c U source pending createdAt).Safe c U := by
  refine (uploadPending_safe pending).andThen inv_step fun _ w h => ?_
  by_cases hzero : w.uploaded = 0
  · simp only [if_pos hzero]
    exact trivial
  · simp only [if_neg hzero]
    have hfull := source.full w.uploaded (by omega) h.bound
    exact ⟨.snapshot _ rfl ⟨Nat.le_refl _, _, rfl, hfull.size, hfull.minTxid, hfull.maxTxid,
      hfull.exact (by omega) h.bound⟩, trivial⟩

/-! ## Compaction -/

/-- The newest file of a gapless level is the one it ends at. -/
theorem Filed.maxLtxFileInfo (h : Filed c U w) {level : Nat}
    (hchain : (w.bucket level).IsChain Stored.Next) :
    (∀ f, w.bucket.maxLtxFileInfo level = some f → f.maxTxid = endTxid (w.bucket level)) ∧
      (w.bucket.maxLtxFileInfo level = none → w.bucket level = []) := by
  obtain ⟨hnone, hsome⟩ := Bucket.maxByMaxTxid_spec (w.bucket.ltxFiles level 0)
  rw [Bucket.ltxFiles_zero] at hnone hsome
  rw [Bucket.maxLtxFileInfo, Bucket.ltxFiles_zero]
  refine ⟨fun f hf => ?_, fun hf => List.map_eq_nil_iff.mp (hnone hf)⟩
  obtain ⟨hmem, hmax⟩ := hsome f hf
  obtain ⟨s, hs, rfl⟩ := List.mem_map.mp hmem
  have hle := maxTxid_le_endTxid_of_isChain hchain (h.files level) hs
  rcases List.eq_nil_or_concat' (w.bucket level) with hnil | ⟨init, x, heq⟩
  · rw [hnil] at hs
    cases hs
  · have hend : endTxid (w.bucket level) = x.maxTxid := by rw [heq, endTxid_append_singleton]
    have hx := hmax (x.info level) (List.mem_map_of_mem (by simp [heq]))
    have hxmax : (x.info level).maxTxid = x.maxTxid := rfl
    have hsmax : (s.info level).maxTxid = s.maxTxid := rfl
    omega

/-- The first level-0 file from `seek` on follows what is covered up to there. -/
theorem minTxid_le_of_filter {files : List Stored} {m seek : Nat} {s : Stored} {rest : List Stored}
    (h : files.IsChain Stored.Next) (hsingle : ∀ x ∈ files, x.minTxid = x.maxTxid)
    (hstart : StartsBy m files) (hseek : seek ≤ m + 1)
    (heq : files.filter (fun x => seek ≤ x.minTxid) = s :: rest) : s.minTxid ≤ m + 1 := by
  induction files with
  | nil => cases heq
  | cons x files ih =>
      rw [List.filter_cons] at heq
      split at heq
      · obtain rfl := (List.cons.inj heq).1
        exact hstart x rfl
      · rename_i hx
        have hx' : x.minTxid < seek := by simpa using hx
        have hmax := hsingle x (List.mem_cons_self ..)
        exact ih h.tail (fun y hy => hsingle y (List.mem_cons_of_mem _ hy))
          (startsBy_of_isChain h (by omega)) heq

/-- Sorted listings start first. -/
theorem foldl_min_of_le {f : FileInfo} {fs : List FileInfo} (h : ∀ x ∈ fs, f.minTxid ≤ x.minTxid) :
    fs.foldl (fun m g => min m g.minTxid) f.minTxid = f.minTxid := by
  induction fs with
  | nil => rfl
  | cons x fs ih =>
      have hx := h x (List.mem_cons_self ..)
      rw [List.foldl_cons, Nat.min_eq_left hx, ih fun y hy => h y (List.mem_cons_of_mem _ hy)]

/-- Contiguous listings end last. -/
theorem foldl_max_of_isChain {f : FileInfo} {fs : List FileInfo}
    (h : (f :: fs).IsChain Contiguous) :
    fs.foldl (fun m g => max m g.maxTxid) f.maxTxid
      = ((f :: fs).getLast (List.cons_ne_nil _ _)).maxTxid := by
  induction fs generalizing f with
  | nil => rfl
  | cons x fs ih =>
      rw [List.isChain_cons_cons] at h
      have hlt : f.maxTxid < x.maxTxid := by
        have := h.1
        rw [Contiguous, isContiguous, Bool.and_eq_true, decide_eq_true_eq, decide_eq_true_eq]
          at this
        exact this.2
      rw [List.foldl_cons, Nat.max_eq_right hlt.le, List.getLast_cons (List.cons_ne_nil _ _)]
      exact ih h.2

/-- The sources of a compaction are in the bucket, the first one starting first. -/
theorem Filed.sources (h : Filed c U w) {level : Nat} {p : Stored → Bool} {s : Stored}
    {rest : List Stored} (hfilter : (w.bucket level).filter p = s :: rest) :
    (∀ x ∈ s.info level :: rest.map (Stored.info level), w.bucket.Has x) ∧
      ∀ x ∈ rest.map (Stored.info level), (s.info level).minTxid ≤ x.minTxid := by
  have hsub : (s :: rest).Sublist (w.bucket level) := hfilter ▸ List.filter_sublist
  have hsorted := (h.sorted level).sublist hsub
  refine ⟨fun x hx => ?_, fun x hx => ?_⟩
  · rw [← List.map_cons] at hx
    obtain ⟨y, hy, rfl⟩ := List.mem_map.mp hx
    exact ⟨y, hsub.subset hy, rfl⟩
  · obtain ⟨y, hy, rfl⟩ := List.mem_map.mp hx
    have := (List.pairwise_cons.mp hsorted).1 y hy
    unfold Stored.Before at this
    simp only [Stored.info]
    omega

/-- So is a compaction into levels 1 to 8. -/
theorem compactLevel_safe (hc : c.Lawful) {level : Nat} (hlow : 1 ≤ level)
    (hhigh : level < snapshotLevel) (createdAt : Option Int) :
    (compactLevel c level createdAt).Safe c U := by
  intro w h
  rw [compactLevel]
  cases hsrcs : w.bucket.ltxFiles (level - 1) (seekTxid w.bucket level) with
  | nil => exact trivial
  | cons f fs =>
      simp only
      -- the sources are listed in order
      obtain ⟨s, rest, hfilter, rfl, rfl⟩ := List.map_eq_cons_iff.mp hsrcs
      have hsub : (s :: rest).Sublist (w.bucket (level - 1)) := hfilter ▸ List.filter_sublist
      obtain ⟨hlisted, hmin⟩ := h.filed.sources hfilter
      cases hbody : w.bucket.mergeFiles c (s.info (level - 1) :: rest.map (Stored.info (level - 1)))
        with
      | error e => exact trivial
      | ok body =>
          obtain ⟨hchain, g, hg, hcar⟩ := (h.filed.mergeFiles hc hlisted hmin).2 body hbody
          have hok := hcar.storedOk (c := c) createdAt
          simp only [hg, foldl_min_of_le hmin, foldl_max_of_isChain hchain]
          refine ⟨?_, trivial⟩
          by_cases hone : level = 1
          · subst hone
            refine .compactL0 _ ?_ hok
            -- level 0 is gapless, so its first file behind level 1 is where level 1 ends
            obtain ⟨hsome, hnone⟩ := h.filed.maxLtxFileInfo h.l1
            have hs : seekTxid w.bucket 1 ≤ s.minTxid := by
              have : s ∈ (w.bucket 0).filter fun x => seekTxid w.bucket 1 ≤ x.minTxid := by
                rw [hfilter]
                exact List.mem_cons_self ..
              simpa using (List.mem_filter.mp this).2
            have hpos := (h.files 0 s (hsub.subset (List.mem_cons_self ..))).range
            have hle : seekTxid w.bucket 1 ≤ endTxid (w.bucket 1) + 1 →
                s.minTxid ≤ endTxid (w.bucket 1) + 1 :=
              fun hle => minTxid_le_of_filter h.l0 h.l0_single h.l0_start hle hfilter
            show s.minTxid = endTxid (w.bucket 1) + 1
            cases hmax : w.bucket.maxLtxFileInfo 1 with
            | none =>
                have hseek : seekTxid w.bucket 1 = 0 := by rw [seekTxid, hmax]
                have := hle (by omega)
                rw [hnone hmax, endTxid_nil] at this ⊢
                omega
            | some m =>
                have hseek : seekTxid w.bucket 1 = m.maxTxid + 1 := by rw [seekTxid, hmax]
                have hm := hsome m hmax
                have := hle (by omega)
                omega
          · exact .compact level _ (by omega) hhigh hok

/-! ## Retention -/

/-- The files behind the first one of a gapless run start behind its end. -/
theorem maxTxid_lt_minTxid {s : Stored} {files : List Stored}
    (h : (s :: files).IsChain Stored.Next) (hle : ∀ x ∈ files, x.minTxid ≤ x.maxTxid) :
    ∀ x ∈ files, s.maxTxid < x.minTxid := by
  induction files generalizing s with
  | nil => exact fun x hx => by cases hx
  | cons y files ih =>
      rw [List.isChain_cons_cons] at h
      have hy : y.minTxid = s.maxTxid + 1 := h.1
      have hyle := hle y (List.mem_cons_self ..)
      intro x hx
      rcases List.mem_cons.mp hx with rfl | hx
      · omega
      · have := ih h.2 (fun z hz => hle z (List.mem_cons_of_mem _ hz)) x hx
        omega

/-- Files of a higher level, none of them the last one, may go one after the other. -/
theorem allowedAll_retire {level : Nat} (hlow : 2 ≤ level) {infos : List FileInfo} {last : Stored}
    (hlast : (w.bucket level).getLast? = some last)
    (hinfos : ∀ f ∈ infos, f.level = level ∧ last.key ≠ (f.minTxid, f.maxTxid)) :
    Script.AllowedAll World.act (Allowed c U) w (Bucket.deleteLtxFiles infos) := by
  induction infos generalizing w with
  | nil => exact trivial
  | cons f infos ih =>
      obtain ⟨hlevel, hne⟩ := hinfos f (List.mem_cons_self ..)
      subst hlevel
      refine ⟨.retire f.level _ _ last hlow hlast hne, ih ?_ fun x hx =>
        hinfos x (List.mem_cons_of_mem _ hx)⟩
      exact (World.act_delete_same ..).symm ▸ getLast?_filter hlast (by simpa using hne)

/-- The files of level 1 below a floor that the newest snapshot covers may go. -/
theorem allowedAll_retireL1 {floor : Nat} {files : List Stored} (h : Inv c U w)
    (heq : w.bucket 1 = files) (hfloor : floor ≤ endTxid (w.bucket snapshotLevel)) :
    Script.AllowedAll World.act (Allowed c U) w (Bucket.deleteLtxFiles
      ((files.map (Stored.info 1)).dropLast.filter (·.maxTxid < floor))) := by
  induction files generalizing w with
  | nil => exact trivial
  | cons s files ih =>
      -- the last file of level 1 is kept
      by_cases hne : files = []
      · subst hne
        exact trivial
      · rw [List.map_cons, List.dropLast_cons_of_ne_nil (by simpa using hne), List.filter_cons]
        -- it ends below the floor, and so below the newest snapshot
        by_cases hs : (s.info 1).maxTxid < floor
        · have hallowed : Allowed c U w (.delete 1 s.minTxid s.maxTxid) :=
            .retireL1 s files heq hne (hs.le.trans hfloor)
          rw [if_pos (decide_eq_true hs), Bucket.deleteLtxFiles_cons]
          refine ⟨hallowed, ih (h.act hallowed) ?_ ?_⟩
          · rw [World.act_delete_same, heq]
            exact filter_key_head (heq ▸ h.sorted 1)
          · rwa [World.act_delete_of_ne w _ _ (by decide)]
        · -- the files behind it end later still
          have hrest : (files.map (Stored.info 1)).dropLast.filter (·.maxTxid < floor) = [] := by
            refine List.filter_eq_nil_iff.mpr fun x hx => ?_
            obtain ⟨y, hy, rfl⟩ := List.mem_map.mp (List.dropLast_subset _ hx)
            have hchain := h.l1
            rw [heq] at hchain
            have hvalid : ∀ z ∈ files, z.minTxid ≤ z.maxTxid :=
              fun z hz => (h.files 1 z (heq ▸ List.mem_cons_of_mem _ hz)).range.2.1
            have hlt := maxTxid_lt_minTxid hchain hvalid y hy
            have hle := hvalid y hy
            have hnot : ¬ y.maxTxid < floor := fun hy' => hs ((hlt.trans_le hle).trans hy')
            exact fun hd => hnot (of_decide_eq_true hd)
          rw [if_neg fun hd => hs (of_decide_eq_true hd), hrest]
          exact trivial

/-- The level-0 files that a scan finds may go. -/
theorem allowedAll_retireL0 {cutoff : Int} {files : List Stored} (h : Inv c U w)
    (heq : w.bucket 0 = files) :
    Script.AllowedAll World.act (Allowed c U) w (Bucket.deleteLtxFiles
      (deletableL0 (endTxid (w.bucket 1)) w.uploaded cutoff (files.map (Stored.info 0)))) := by
  induction files generalizing w with
  | nil => exact trivial
  | cons s files ih =>
      -- the files in their order: the first one that is kept keeps those behind it
      rw [List.map_cons, deletableL0]
      split
      · exact trivial
      rename_i hcovered
      split
      · exact trivial
      rename_i hnewest
      split
      · split
        · -- the newest file ends the level, so more files follow
          have hne : files ≠ [] := by
            rintro rfl
            have hend := h.l0_end
            rw [heq] at hend
            exact hnewest hend
          have hallowed : Allowed c U w (.delete 0 s.minTxid s.maxTxid) :=
            .retireL0 s files heq hne (Nat.not_lt.mp hcovered)
          have hrest := ih (h.act hallowed) (by
            rw [World.act_delete_same, heq]
            exact filter_key_head (heq ▸ h.sorted 0))
          rw [World.act_delete_of_ne w _ _ (by decide)] at hrest
          rw [Bucket.deleteLtxFiles_cons]
          exact ⟨hallowed, hrest⟩
        · exact trivial
      · exact trivial

/-- The highest maximum of a level. -/
theorem max?_maxTxid {level newest : Nat} {files : List Stored}
    (h : ((files.map (Stored.info level)).map FileInfo.maxTxid).max? = some newest)
    (hle : ∀ s ∈ files, s.maxTxid ≤ endTxid files) : newest = endTxid files := by
  rw [List.map_map, List.max?_eq_some_iff] at h
  obtain ⟨hmem, hmax⟩ := h
  obtain ⟨s, hs, rfl⟩ := List.mem_map.mp hmem
  have h1 : s.maxTxid ≤ endTxid files := hle s hs
  rcases List.eq_nil_or_concat' files with rfl | ⟨init, x, rfl⟩
  · cases hs
  · have h2 : x.maxTxid ≤ s.maxTxid := hmax _ (List.mem_map_of_mem (by simp))
    rw [endTxid_append_singleton] at h1 ⊢
    exact Nat.le_antisymm h1 h2

/-- So is the retention of level 0. -/
theorem enforceL0Retention_safe (grace : Nat) (now : Int) :
    (enforceL0Retention grace now).Safe c U := by
  intro w h
  rw [enforceL0Retention]
  simp only [Bucket.ltxFiles_zero]
  split
  · exact trivial
  rename_i hl1
  split
  · exact trivial
  rename_i newest hnewest
  have hmax : newest = w.uploaded := by
    rw [← h.l0_end]
    exact max?_maxTxid hnewest fun s hs => maxTxid_le_endTxid_of_isChain h.l0 (h.files 0) hs
  have hend : ((w.bucket.maxLtxFileInfo 1).map FileInfo.maxTxid).getD 0 = endTxid (w.bucket 1) := by
    obtain ⟨hsome, hnone⟩ := h.filed.maxLtxFileInfo h.l1
    cases hm : w.bucket.maxLtxFileInfo 1 with
    | none => rw [hnone hm]; rfl
    | some f => exact hsome f hm
  rw [hmax, hend]
  exact allowedAll_retireL0 h rfl

/-- Only snapshots that are listed and not the newest expire, and the floor is the end of one. -/
theorem expiredSnapshots_spec (cutoff : Int) (newest prevMax : Nat) (infos : List FileInfo) :
    (∀ f ∈ (expiredSnapshots cutoff newest prevMax infos).1, f ∈ infos ∧ f.maxTxid ≠ newest) ∧
      ((expiredSnapshots cutoff newest prevMax infos).2 = prevMax ∨
        (expiredSnapshots cutoff newest prevMax infos).2 = 0 ∨
        ∃ f ∈ infos, (expiredSnapshots cutoff newest prevMax infos).2 = f.maxTxid) := by
  induction infos generalizing prevMax with
  | nil => exact ⟨fun f hf => (by cases hf), Or.inr (Or.inl rfl)⟩
  | cons info infos ih =>
      rw [expiredSnapshots]
      split
      · rename_i hexpired
        obtain ⟨hmem, hfloor⟩ := ih info.maxTxid
        refine ⟨fun f hf => ?_, ?_⟩
        · rcases List.mem_cons.mp hf with rfl | hf
          · exact ⟨List.mem_cons_self .., hexpired.2⟩
          · exact ⟨List.mem_cons_of_mem _ (hmem f hf).1, (hmem f hf).2⟩
        · rcases hfloor with h | h | ⟨f, hf, h⟩
          · exact Or.inr (Or.inr ⟨info, List.mem_cons_self .., h⟩)
          · exact Or.inr (Or.inl h)
          · exact Or.inr (Or.inr ⟨f, List.mem_cons_of_mem _ hf, h⟩)
      · exact ⟨fun f hf => (by cases hf), Or.inl rfl⟩

/-- The invariant together with a floor that the newest snapshot covers. -/
def InvFloor (c : Codec) (U : Uploads) (floor : Nat) (w : World) : Prop :=
  Inv c U w ∧ floor ≤ endTxid (w.bucket snapshotLevel)

/-- An allowed request keeps the snapshot at the floor. -/
theorem invFloor_step {floor : Nat} (w : World) (m : Mutation) (h : InvFloor c U floor w)
    (hm : Allowed c U w m) : InvFloor c U floor (w.act m) :=
  ⟨h.1.act hm, h.2.trans (h.1.endTxid_snapshots_le hm)⟩

/-- What `retireSnapshots` deletes and the floor it returns. -/
theorem retireSnapshots_spec (h : Inv c U w) (retention : Nat) (now : Int) :
    Script.AllowedAll World.act (Allowed c U) w (retireSnapshots retention now w).1 ∧
      ∀ deleted floor, (retireSnapshots retention now w).2 = .ok (some (deleted, floor)) →
        floor ≤ endTxid (w.bucket snapshotLevel) := by
  rw [retireSnapshots]
  simp only [Bucket.ltxFiles_zero]
  split
  · exact ⟨trivial, fun _ _ hr => (by cases hr)⟩
  rename_i newest hnewest
  have hle : ∀ s ∈ w.bucket snapshotLevel, s.maxTxid ≤ endTxid (w.bucket snapshotLevel) :=
    fun s hs => maxTxid_le_endTxid (h.sorted _) h.snapshots hs
  have hmax := max?_maxTxid hnewest hle
  obtain ⟨hexpired, hfloor⟩ := expiredSnapshots_spec (cutoff now retention) newest 0
    ((w.bucket snapshotLevel).map (Stored.info snapshotLevel))
  set r := expiredSnapshots (cutoff now retention) newest 0
    ((w.bucket snapshotLevel).map (Stored.info snapshotLevel)) with hr
  refine ⟨?_, fun deleted floor heq => ?_⟩
  · rcases List.eq_nil_or_concat' (w.bucket snapshotLevel) with hnil | ⟨init, last, heq⟩
    · rw [hnil] at hnewest
      cases hnewest
    · have hlast : (w.bucket snapshotLevel).getLast? = some last := by simp [heq]
      refine allowedAll_retire (by decide) hlast fun f hf => ?_
      obtain ⟨hmem, hne⟩ := hexpired f hf
      obtain ⟨s, -, rfl⟩ := List.mem_map.mp hmem
      refine ⟨rfl, fun hkey => hne ?_⟩
      rw [hmax, heq, endTxid_append_singleton]
      exact (Prod.mk.inj hkey).2.symm
  · have hf : r.2 = floor := by
      have := Except.ok.inj heq
      simp only [Option.some.injEq, Prod.mk.injEq] at this
      exact this.2
    rcases hfloor with h0 | h0 | ⟨f, hmem, h0⟩
    · omega
    · omega
    · obtain ⟨s, hs, rfl⟩ := List.mem_map.mp hmem
      have hs' : (s.info snapshotLevel).maxTxid ≤ endTxid (w.bucket snapshotLevel) := hle s hs
      omega

/-- Retiring a level below the floor is allowed. -/
theorem retireLevel_safe {floor level : Nat} (hlevel : 1 ≤ level) :
    Script.Safe World.act (InvFloor c U floor) (Allowed c U) (retireLevel floor level) := by
  rintro w ⟨h, hfloor⟩
  rw [retireLevel]
  simp only [Bucket.ltxFiles_zero]
  split
  · exact trivial
  rename_i hlength
  by_cases hone : level = 1
  · subst hone
    exact allowedAll_retireL1 h rfl hfloor
  · rcases List.eq_nil_or_concat' (w.bucket level) with hnil | ⟨init, last, heq⟩
    · rw [hnil] at hlength
      exact absurd (Nat.zero_le 1) hlength
    · have hlast : (w.bucket level).getLast? = some last := by simp [heq]
      refine allowedAll_retire (by omega) hlast fun f hf => ?_
      -- the listing is strictly ordered, so no other file has the key of the last
      have hmem := List.mem_of_mem_filter hf
      rw [heq, List.map_append, List.map_singleton, List.dropLast_concat] at hmem
      obtain ⟨s, hs, rfl⟩ := List.mem_map.mp hmem
      have hsorted := h.sorted level
      rw [heq] at hsorted
      have hbefore := (List.pairwise_append.mp hsorted).2.2 s hs last (List.mem_singleton_self _)
      refine ⟨rfl, fun hkey => ?_⟩
      obtain ⟨hmin, hmax⟩ := Prod.mk.inj hkey
      have hmin' : last.minTxid = s.minTxid := hmin
      have hmax' : last.maxTxid = s.maxTxid := hmax
      unfold Stored.Before at hbefore
      omega

/-- So is the cascade over the levels. -/
theorem retireLevels_safe {floor : Nat} {levels : List Nat} (h : ∀ level ∈ levels, 1 ≤ level) :
    Script.Safe World.act (InvFloor c U floor) (Allowed c U) (retireLevels floor levels) := by
  induction levels with
  | nil => exact Script.safe_done 0
  | cons level levels ih =>
      exact (retireLevel_safe (h level (List.mem_cons_self ..))).andThen invFloor_step fun _ =>
        (ih fun l hl => h l (List.mem_cons_of_mem _ hl)).andThen invFloor_step fun _ =>
          Script.safe_done _

/-- So is retention as a whole. -/
theorem enforceRetention_safe (opts : MaintenanceOptions) (now : Int) :
    (enforceRetention opts now).Safe c U := by
  -- the floor stays covered from the deletes of snapshots on
  refine Script.Safe.andThen_post inv_step
    (Q := fun r w => ∀ deleted floor, r = some (deleted, floor) →
      floor ≤ endTxid (w.bucket snapshotLevel))
    (fun w h => (retireSnapshots_spec h _ now).1) (fun w h r hr deleted floor hfloor => ?_) ?_
  · obtain ⟨hallowed, hle⟩ := retireSnapshots_spec h opts.snapshotRetention now
    subst hfloor
    have hkeep : InvFloor c U floor w := ⟨h, hle deleted floor hr⟩
    exact (hallowed.keeps invFloor_step hkeep).2
  · rintro (_ | ⟨deleted, floor⟩)
    · exact Script.safe_done 0
    · rintro w ⟨h, hfloor⟩
      have hw : InvFloor c U floor w := ⟨h, hfloor deleted floor rfl⟩
      have hl0 : Script.Safe World.act (InvFloor c U floor) (Allowed c U)
          (enforceL0Retention opts.l0Retention now) :=
        fun w hw => enforceL0Retention_safe _ now w hw.1
      refine Script.Safe.andThen invFloor_step ?_ (fun _ =>
        hl0.andThen invFloor_step fun _ => Script.safe_done _) w hw
      split
      · exact Script.safe_done 0
      · refine retireLevels_safe fun level hlevel => ?_
        exact (List.mem_range'_1.mp hlevel).1

/-! ## Maintenance runs -/

/-- So are the compactions of a maintenance run. -/
theorem compactDue_safe (hc : c.Lawful) (opts : MaintenanceOptions) (now : Int)
    (createdAt : Nat → Option Int) {intervals : List Nat} {level : Nat} (hlow : 1 ≤ level)
    (hhigh : level + intervals.length ≤ snapshotLevel) :
    (compactDue c opts now createdAt level intervals).Safe c U := by
  induction intervals generalizing level with
  | nil => exact Script.safe_done 0
  | cons interval intervals ih =>
      rw [List.length_cons] at hhigh
      refine Script.Safe.andThen inv_step ?_ fun _ => Script.Safe.andThen inv_step ?_ fun _ =>
        (ih (by omega) (by omega)).andThen inv_step fun _ => Script.safe_done _
      · intro w h
        by_cases hdue : levelDue w.bucket level interval now
        · simp only [if_pos hdue]
          exact compactLevel_safe hc hlow (by omega) _ w h
        · simp only [if_neg hdue]
          exact trivial
      · split
        · exact enforceL0Retention_safe _ now
        · exact Script.safe_done 0

/-- **A maintenance run** does allowed requests only. -/
theorem maintain_safe (hc : c.Lawful) (source : SnapshotSource U) {opts : MaintenanceOptions}
    (hlevels : opts.levelIntervals.length ≤ 8) (now : Int) (createdAt : Nat → Option Int)
    (pending : List (Option Int)) : (maintain c U source opts now createdAt pending).Safe c U := by
  refine (compactDue_safe hc opts now createdAt (Nat.le_refl 1)
    (by rw [snapshotLevel]; omega)).andThen inv_step fun _ =>
    Script.Safe.andThen inv_step ?_ fun _ => Script.Safe.andThen inv_step ?_ fun _ =>
      Script.safe_done _
  · intro w h
    by_cases hdue : levelDue w.bucket snapshotLevel opts.snapshotInterval now
    · simp only [if_pos hdue]
      exact snapshot_safe source pending _ w h
    · simp only [if_neg hdue]
      exact trivial
  · split
    · exact enforceRetention_safe opts now
    · exact Script.safe_done 0

/-- **Every operation** makes only allowed requests. -/
theorem Operation.requests_allowed (hc : c.Lawful) (op : Operation U) (h : Inv c U w) :
    Script.AllowedAll World.act (Allowed c U) w (op.requests c w) := by
  cases op with
  | upload createdAt => exact upload_safe createdAt w h
  | compactLevel level low high createdAt =>
      exact compactLevel_safe hc low (Nat.lt_succ_of_le high) createdAt w h
  | snapshot source pending createdAt => exact snapshot_safe source pending createdAt w h
  | enforceRetention opts now => exact enforceRetention_safe opts now w h
  | enforceL0Retention grace now => exact enforceL0Retention_safe grace now w h
  | maintain source opts levels now createdAt pending =>
      exact maintain_safe hc source levels now createdAt pending w h

/-- **Every reachable bucket** has the invariant. -/
theorem Reachable.inv (hc : c.Lawful) (h : Reachable c U w) : Inv c U w := by
  induction h with
  | start =>
      exact ⟨by decide, fun _ s hs => (by cases hs), fun _ => .nil, fun s hs => (by cases hs), .nil,
        rfl,
        fun s hs => (by cases hs), fun s hs => (by cases hs), .nil, fun s hs => (by cases hs)⟩
  | step _ op k ih => exact (op.requests_allowed hc ih).keeps_take inv_step ih k

end Liters
