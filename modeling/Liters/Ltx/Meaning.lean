import Mathlib.Data.List.Chain
import Liters.Ltx.Compaction

/-! # What compaction means

A file that stands for a list of files: `Summarizes`. Compactions produce such files
(`summarizes_mergedFile`), also when they are nested in any way (`Grouping.compactAll_spec`), and a
complete file is materialised as the image of the list it stands for (`decodeDatabaseTo_bytes`). -/

namespace Liters

variable {c : Codec} {lock : Nat}

/-! ## Files that stand for lists of files -/

/-- `out` stands for the list `fs`: it spans the same transactions, carries the growth the list
carries, and applying it gives the image that applying the list gives, the lock page aside. -/
structure Summarizes (lock : Nat) (out : LtxFile) (fs : List LtxFile) : Prop where
  ne_nil : fs ≠ []
  head : ∀ f, fs.head? = some f →
    out.hdr.pageSize = f.hdr.pageSize ∧ out.hdr.minTxid = f.hdr.minTxid
  last : ∀ f, fs.getLast? = some f →
    out.hdr.maxTxid = f.hdr.maxTxid ∧ out.hdr.commit = f.hdr.commit
  covers : ∀ size, CoversChain lock size (patches fs) → out.patch.Covers lock size
  agree : ∀ (zero : Bytes) (a : Image Bytes), CoversChain lock a.size (patches fs) →
    Image.AgreeOff lock (a.apply zero out.patch) (a.applyAll zero (patches fs))

/-- A file summarizes itself. -/
theorem Summarizes.file (lock : Nat) (f : LtxFile) : Summarizes lock f [f] where
  ne_nil := List.cons_ne_nil _ _
  head g hg := by
    obtain rfl : f = g := Option.some.inj hg
    exact ⟨rfl, rfl⟩
  last g hg := by
    obtain rfl : f = g := Option.some.inj hg
    exact ⟨rfl, rfl⟩
  covers _ h := h.1
  agree _ _ _ := .refl ..

/-- A file has the lock page of the first file it stands for. -/
theorem Summarizes.lock_eq {out : LtxFile} {fs : List LtxFile} (h : Summarizes lock out fs)
    (hlock : ∀ f ∈ fs, f.lock = lock) : out.lock = lock := by
  cases fs with
  | nil => exact absurd rfl h.ne_nil
  | cons f fs =>
      rw [LtxFile.lock_eq (h.head f rfl).1]
      exact hlock f (List.mem_cons_self ..)

/-- The size after a list is the commit of the file that stands for it. -/
theorem Summarizes.lastCommit_eq {out : LtxFile} {fs : List LtxFile} (h : Summarizes lock out fs)
    (size : Nat) : lastCommit size (patches fs) = out.patch.commit := by
  cases fs with
  | nil => exact absurd rfl h.ne_nil
  | cons f fs =>
      have hlast := (h.last _ (List.getLast?_eq_some_getLast (List.cons_ne_nil f fs))).2
      rw [patches, List.map_cons, lastCommit_cons size 0, ← List.map_cons, ← patches,
        lastCommit_patches, ← hlast]
      rfl

/-- The patches of two sequences follow each other. -/
theorem patches_append (fs gs : List LtxFile) : patches (fs ++ gs) = patches fs ++ patches gs :=
  List.map_append

/-- The patches of a file and a sequence. -/
@[simp] theorem patches_cons (f : LtxFile) (fs : List LtxFile) :
    patches (f :: fs) = f.patch :: patches fs := rfl

section Lists

variable {outs : List LtxFile} {groups : List (List LtxFile)}

/-- The list of representatives covers the growth that the lists cover. -/
theorem coversChain_outs (h : List.Forall₂ (Summarizes lock) outs groups) {size : Nat}
    (hcov : CoversChain lock size (patches groups.flatten)) :
    CoversChain lock size (patches outs) := by
  induction h generalizing size with
  | nil => trivial
  | @cons out fs outs groups hsum _ ih =>
      rw [List.flatten_cons, patches_append, coversChain_append, hsum.lastCommit_eq] at hcov
      exact ⟨hsum.covers size hcov.1, ih hcov.2⟩

/-- Applying the representatives is applying the lists. -/
theorem applyAll_outs (h : List.Forall₂ (Summarizes lock) outs groups) (zero : Bytes)
    {a : Image Bytes} (hcov : CoversChain lock a.size (patches groups.flatten)) :
    Image.AgreeOff lock (a.applyAll zero (patches outs))
      (a.applyAll zero (patches groups.flatten)) := by
  induction h generalizing a with
  | nil => exact .refl ..
  | @cons out fs outs groups hsum _ ih =>
      rw [List.flatten_cons, patches_append, coversChain_append, hsum.lastCommit_eq] at hcov
      rw [List.flatten_cons, patches_append, patches_cons, Image.applyAll_cons,
        Image.applyAll_append]
      exact (ih hcov.2).trans ((hsum.agree zero a hcov.1).applyAll _)

/-- The first file of the lists and the representative of the first list. -/
theorem head_outs (h : List.Forall₂ (Summarizes lock) outs groups) {out : LtxFile}
    (hout : outs.head? = some out) :
    ∃ f, groups.flatten.head? = some f ∧ out.hdr.pageSize = f.hdr.pageSize ∧
      out.hdr.minTxid = f.hdr.minTxid := by
  cases h with
  | nil => cases hout
  | @cons a fs outs groups hsum _ =>
      obtain rfl : a = out := by simpa using hout
      cases fs with
      | nil => exact absurd rfl hsum.ne_nil
      | cons f fs => exact ⟨f, rfl, hsum.head f rfl⟩

/-- The last file of the lists and the representative of the last list. -/
theorem last_outs (h : List.Forall₂ (Summarizes lock) outs groups) {f : LtxFile}
    (hf : groups.flatten.getLast? = some f) :
    ∃ out, outs.getLast? = some out ∧ out.hdr.maxTxid = f.hdr.maxTxid ∧
      out.hdr.commit = f.hdr.commit := by
  induction h with
  | nil => cases hf
  | @cons out fs outs groups hsum htail ih =>
      cases htail with
      | nil =>
          rw [List.flatten_cons, List.flatten_nil, List.append_nil] at hf
          exact ⟨out, rfl, hsum.last f hf⟩
      | @cons b gs _ _ hb _ =>
          rw [List.flatten_cons, List.getLast?_append_of_ne_nil _ (by simp [hb.ne_nil])] at hf
          obtain ⟨o, ho, hspan⟩ := ih hf
          exact ⟨o, by rw [List.getLast?_cons_cons]; exact ho, hspan⟩

/-- A chain of files ends behind the transactions of its first file. -/
theorem maxTxid_le_last {f g : LtxFile} {fs : List LtxFile} (h : fs.IsChain LtxFile.Precedes)
    (hf : fs.head? = some f) (hg : fs.getLast? = some g) : f.hdr.maxTxid ≤ g.hdr.maxTxid := by
  cases fs with
  | nil => cases hf
  | cons a fs =>
      obtain rfl : a = f := Option.some.inj hf
      rw [List.getLast?_eq_some_getLast (List.cons_ne_nil a fs)] at hg
      obtain rfl := Option.some.inj hg
      exact maxTxid_le_of_isChain h

/-- The representatives of the parts of a chain are a chain. -/
theorem isChain_outs (h : List.Forall₂ (Summarizes lock) outs groups)
    (hchain : groups.flatten.IsChain LtxFile.Precedes) : outs.IsChain LtxFile.Precedes := by
  induction h with
  | nil => exact .nil
  | @cons out fs outs groups hsum htail ih =>
      rw [List.flatten_cons, List.isChain_append] at hchain
      obtain ⟨hfs, hrest, hjoin⟩ := hchain
      cases htail with
      | nil => exact .singleton _
      | @cons next gs outs groups hnext htail =>
          refine .cons_cons ?_ (ih hrest)
          -- the join lies between the last file of one part and the first of the next
          obtain ⟨l, hl⟩ : ∃ l, fs.getLast? = some l :=
            ⟨_, List.getLast?_eq_some_getLast hsum.ne_nil⟩
          obtain ⟨f, hf⟩ : ∃ f, gs.head? = some f := ⟨_, List.head?_eq_some_head hnext.ne_nil⟩
          obtain ⟨g, hg⟩ : ∃ g, gs.getLast? = some g :=
            ⟨_, List.getLast?_eq_some_getLast hnext.ne_nil⟩
          have hpre : LtxFile.Precedes l f :=
            hjoin l hl f (by rw [List.flatten_cons, List.head?_append, hf]; rfl)
          rw [List.flatten_cons, List.isChain_append] at hrest
          have hfg := maxTxid_le_last hrest.1 hf hg
          obtain ⟨hsize, hmin⟩ := hnext.head f hf
          have hlsize : l.hdr.pageSize = out.hdr.pageSize := by
            cases fs with
            | nil => exact absurd rfl hsum.ne_nil
            | cons a fs =>
                rw [(hsum.head a rfl).1]
                exact pageSize_eq_of_isChain hfs l (List.mem_of_getLast? hl)
          refine ⟨by rw [← hlsize, hsize]; exact hpre.1, ?_⟩
          have hcont := hpre.2
          simp only [isContiguous, Bool.and_eq_true, decide_eq_true_eq] at hcont ⊢
          rw [(hsum.last l hl).1, hmin, (hnext.last g hg).1]
          exact ⟨hcont.1, lt_of_lt_of_le hcont.2 (UInt64.le_iff_toNat_le.mp hfg)⟩

/-- **A compaction of representatives** stands for all the files they stand for. -/
theorem summarizes_mergedFile {f₀ : LtxFile} {fs : List LtxFile}
    (h : List.Forall₂ (Summarizes lock) (f₀ :: fs) groups) (hok : Compactable f₀ fs) :
    Summarizes lock (mergedFile c f₀ fs hok) groups.flatten where
  ne_nil := by
    cases h with
    | cons hsum _ => simp [hsum.ne_nil]
  head f hf := by
    obtain ⟨g, hg, hspan⟩ := head_outs h rfl
    obtain rfl : g = f := Option.some.inj (hg.symm.trans hf)
    exact hspan
  last f hf := by
    obtain ⟨out, hout, hspan⟩ := last_outs h hf
    rw [List.getLast?_eq_some_getLast (List.cons_ne_nil f₀ fs)] at hout
    rw [← Option.some.inj hout] at hspan
    exact hspan
  covers size hcov := by
    rw [mergedFile_patch]
    exact covers_mergeAll (coversChain_outs h hcov)
  agree zero a hcov := by
    rw [mergedFile_patch]
    exact (Image.apply_mergeAll a (List.cons_ne_nil _ _) (coversChain_outs h hcov)).trans
      (applyAll_outs h zero hcov)

end Lists

/-! ## Nested compactions -/

/-- A way of grouping a chain of files into nested compactions. -/
inductive Grouping where
  /-- A file as it is. -/
  | file (f : LtxFile)
  /-- A compaction of the results of one or more groupings. -/
  | group (first : Grouping) (rest : List Grouping)

mutual

/-- The files of a grouping, in order. -/
def Grouping.leaves : Grouping → List LtxFile
  | .file f => [f]
  | .group first rest => first.leaves ++ leavesList rest

/-- The files of several groupings, in order. -/
def leavesList : List Grouping → List LtxFile
  | [] => []
  | g :: gs => g.leaves ++ leavesList gs

end

mutual

/-- Run the compactions of a grouping, innermost first. -/
def Grouping.compactAll (c : Codec) : Grouping → Except LtxError Bytes
  | .file f => .ok (f.bytes c)
  | .group first rest => do
      let b ← first.compactAll c
      let bs ← compactList c rest
      let (out, _, _) ← compact c headerFlagNoChecksum false (b :: bs)
      return out

/-- Run several groupings. -/
def compactList (c : Codec) : List Grouping → Except LtxError (List Bytes)
  | [] => .ok []
  | g :: gs => do
      let b ← g.compactAll c
      let bs ← compactList c gs
      return b :: bs

end

mutual

/-- Every compaction whose first file starts at transaction 1 starts from a complete snapshot. -/
def Grouping.SnapshotsComplete (lock : Nat) : Grouping → Prop
  | .file _ => True
  | .group first rest =>
      (∀ f, first.leaves.head? = some f → f.hdr.isSnapshot → f.patch.Complete lock) ∧
        first.SnapshotsComplete lock ∧ snapshotsCompleteList lock rest

/-- The same of several groupings. -/
def snapshotsCompleteList (lock : Nat) : List Grouping → Prop
  | [] => True
  | g :: gs => g.SnapshotsComplete lock ∧ snapshotsCompleteList lock gs

end

/-- A list that starts with a complete file covers the growth from the empty database. -/
theorem coversChain_zero {f : LtxFile} {fs : List LtxFile} {size : Nat}
    (h : CoversChain lock size (patches (f :: fs))) (hf : f.patch.Complete lock) :
    CoversChain lock 0 (patches (f :: fs)) :=
  ⟨hf, h.2⟩

mutual

/-- **Nested compactions** of a chain succeed, and the result stands for the chain. -/
theorem Grouping.compactAll_spec (hc : c.Lawful) : ∀ (g : Grouping) {size : Nat},
    (∀ f ∈ g.leaves, f.lock = lock) → g.leaves.IsChain LtxFile.Precedes →
    CoversChain lock size (patches g.leaves) → g.SnapshotsComplete lock →
    ∃ out, g.compactAll c = .ok (out.bytes c) ∧ Summarizes lock out g.leaves
  | .file f, _, _, _, _, _ => ⟨f, by rw [Grouping.compactAll], by
      rw [Grouping.leaves]
      exact .file lock f⟩
  | .group first rest, size, hlock, hchain, hcov, hsnap => by
      rw [Grouping.leaves] at hlock hchain hcov ⊢
      rw [Grouping.SnapshotsComplete] at hsnap
      rw [patches_append, coversChain_append] at hcov
      rw [List.isChain_append] at hchain
      -- the first member, then the others from the left
      obtain ⟨out, hout, hsum⟩ := first.compactAll_spec hc
        (fun f hf => hlock f (List.mem_append_left _ hf)) hchain.1 hcov.1 hsnap.2.1
      obtain ⟨outs, groups, houts, hflat, hsums⟩ := compactList_spec hc rest
        (fun f hf => hlock f (List.mem_append_right _ hf)) hchain.2.1 hcov.2 hsnap.2.2
      -- what they give stands for all their leaves
      have hall : List.Forall₂ (Summarizes lock) (out :: outs) (first.leaves :: groups) :=
        .cons hsum hsums
      have hflat' : (first.leaves :: groups).flatten = first.leaves ++ leavesList rest := by
        rw [List.flatten_cons, ← hflat]
      -- a snapshot in front is complete, so the files behind it only extend it
      have hok : Compactable out outs := by
        refine ⟨isChain_outs hall (by rw [hflat', List.isChain_append]; exact hchain), fun hs => ?_⟩
        rw [hsum.lock_eq fun f hf => hlock f (List.mem_append_left _ hf)]
        refine coversChain_outs hall ?_
        rw [hflat']
        cases hleaves : first.leaves with
        | nil => exact absurd hleaves hsum.ne_nil
        | cons f fs =>
            have hmin := (hsum.head f (by rw [hleaves]; rfl)).2
            have hf : f.patch.Complete lock := by
              refine hsnap.1 f (by rw [hleaves]; rfl) ?_
              rwa [Header.isSnapshot, ← hmin]
            have hcov' : CoversChain lock size (patches (f :: (fs ++ leavesList rest))) := by
              rw [← List.cons_append, ← hleaves, patches_append, coversChain_append]
              exact hcov
            exact coversChain_zero hcov' hf
      refine ⟨mergedFile c out outs hok, ?_, hflat' ▸ summarizes_mergedFile hall hok⟩
      have hrun := compact_eq_mergedFile hc hok
      rw [List.map_cons] at hrun
      rw [Grouping.compactAll, hout, houts]
      simp only [ok_bind, hrun, pure_eq_ok]

/-- Several nested compactions. -/
theorem compactList_spec (hc : c.Lawful) : ∀ (gs : List Grouping) {size : Nat},
    (∀ f ∈ leavesList gs, f.lock = lock) → (leavesList gs).IsChain LtxFile.Precedes →
    CoversChain lock size (patches (leavesList gs)) → snapshotsCompleteList lock gs →
    ∃ outs groups, compactList c gs = .ok (outs.map (LtxFile.bytes c)) ∧
      leavesList gs = groups.flatten ∧ List.Forall₂ (Summarizes lock) outs groups
  | [], _, _, _, _, _ => ⟨[], [], by rw [compactList]; rfl, by rw [leavesList]; rfl, .nil⟩
  | g :: gs, size, hlock, hchain, hcov, hsnap => by
      rw [leavesList] at hlock hchain hcov ⊢
      rw [snapshotsCompleteList] at hsnap
      rw [patches_append, coversChain_append] at hcov
      rw [List.isChain_append] at hchain
      obtain ⟨out, hout, hsum⟩ := g.compactAll_spec hc
        (fun f hf => hlock f (List.mem_append_left _ hf)) hchain.1 hcov.1 hsnap.1
      obtain ⟨outs, groups, houts, hflat, hsums⟩ := compactList_spec hc gs
        (fun f hf => hlock f (List.mem_append_right _ hf)) hchain.2.1 hcov.2 hsnap.2
      refine ⟨out :: outs, g.leaves :: groups, ?_, by rw [List.flatten_cons, hflat],
        .cons hsum hsums⟩
      rw [compactList, hout, houts]
      simp only [ok_bind, pure_eq_ok, List.map_cons]

end

/-! ## Materialising -/

/-- The bytes of a database: its pages in order, with `zero` for the lock page. -/
def Image.toBytes (lock : Nat) (zero : Bytes) (a : Image Bytes) : Bytes :=
  (List.range' 1 a.size).flatMap fun p => if p = lock then zero else a.page p

/-- Images that agree outside the lock page have the same bytes. -/
theorem Image.AgreeOff.toBytes_eq {zero : Bytes} {a b : Image Bytes}
    (h : Image.AgreeOff lock a b) : a.toBytes lock zero = b.toBytes lock zero := by
  have hpage : ∀ p ∈ List.range' 1 a.size, (if p = lock then zero else a.page p)
      = if p = lock then zero else b.page p := by
    intro p hp
    rw [List.mem_range'_1] at hp
    by_cases hl : p = lock
    · rw [if_pos hl, if_pos hl]
    · rw [if_neg hl, if_neg hl, h.2 p (by omega) (by omega) hl]
  rw [Image.toBytes, Image.toBytes, ← h.1, List.flatMap_congr hpage]

/-- The page loop of `decode_database_to` over a file that holds every page. -/
theorem decodeImage_spec (hc : c.Lawful) {f : LtxFile} (zero : Bytes)
    (hzero : zero = List.replicate f.hdr.pageSize.toNat 0) (count pgno : Nat) (read q : List Page)
    (w : Bytes) (hsplit : f.pages = read ++ q)
    (hq : ∀ k, (∃ d, (k, d) ∈ q) ↔ pgno ≤ k ∧ k < pgno + count ∧ k ≠ f.lock) :
    (f.decAt c read q).decodeImage c f.hdr.lockPgno f.hdr.pageSize.toNat count pgno w
      = .ok (w ++ (List.range' pgno count).flatMap
            (fun p => if p = f.lock then zero else (f.patch.page? p).getD zero),
          f.decAt c f.pages []) := by
  have hasc : q.Pairwise (fun a b => a.1 < b.1) := by
    have := f.pages_ascending
    rw [hsplit, List.pairwise_append] at this
    exact this.2.1
  induction count generalizing pgno read q w with
  | zero =>
      have hnil : q = [] := by
        cases q with
        | nil => rfl
        | cons p q =>
            have := (hq p.1).mp ⟨p.2, List.mem_cons_self ..⟩
            omega
      subst hnil
      rw [List.append_nil] at hsplit
      simp [Decoder.decodeImage, hsplit]
  | succ count ih =>
      rw [Decoder.decodeImage, List.range'_succ, List.flatMap_cons]
      by_cases hl : pgno = f.lock
      · have hl' : pgno = f.hdr.lockPgno := hl
        rw [if_pos hl', if_pos hl, ← hzero, ih (pgno + 1) read q _ hsplit ?_ hasc,
          List.append_assoc]
        intro k
        rw [hq k]
        omega
      · have hl' : ¬ pgno = f.hdr.lockPgno := hl
        rw [if_neg hl', if_neg hl]
        -- the page itself is the next one in the file
        obtain ⟨d, hd⟩ := (hq pgno).mpr ⟨le_rfl, by omega, hl⟩
        cases q with
        | nil => cases hd
        | cons p q =>
            rw [List.pairwise_cons] at hasc
            have hp : p = (pgno, d) := by
              rcases List.mem_cons.mp hd with h | h
              · exact h.symm
              · have hlow := ((hq p.1).mp ⟨p.2, List.mem_cons_self ..⟩).1
                have := hasc.1 _ h
                simp only at this
                omega
            subst hp
            have hmem : (pgno, d) ∈ f.pages := by rw [hsplit]; simp
            obtain ⟨_, -, hok⟩ := f.pagesOk.mem hmem
            have hdec : (f.decAt c read ((pgno, d) :: q)).decodePage c f.hdr.pageSize.toNat
                = .ok (some ({ pgno }, d), f.decAt c (read ++ [(pgno, d)]) q) := by
              rw [LtxFile.decAt, List.flatMap_cons, List.append_assoc,
                Decoder.decodePage_pageFrame hc hok]
              rfl
            rw [hdec, LtxFile.mem_pages_iff.mp hmem]
            simp only [ok_bind, require_pos, Option.getD_some]
            rw [ih (pgno + 1) (read ++ [(pgno, d)]) q _ (by rw [hsplit, List.append_assoc]; rfl)
              ?_ hasc.2, List.append_assoc]
            intro k
            constructor
            · rintro ⟨e, he⟩
              have hk := (hq k).mp ⟨e, List.mem_cons_of_mem _ he⟩
              have := hasc.1 _ he
              simp only at this
              omega
            · rintro ⟨h1, h2, h3⟩
              obtain ⟨e, he⟩ := (hq k).mpr ⟨by omega, by omega, h3⟩
              rcases List.mem_cons.mp he with h | h
              · have := congrArg Prod.fst h
                simp only at this
                omega
              · exact ⟨e, h⟩

/-- **Materialising a complete snapshot** gives the database that applying it gives. -/
theorem decodeDatabaseTo_bytes (hc : c.Lawful) {f : LtxFile} (hs : f.hdr.isSnapshot)
    (hcomplete : f.patch.Complete f.lock) (a : Image Bytes) :
    decodeDatabaseTo c (f.bytes c) = .ok
      ((a.apply (List.replicate f.hdr.pageSize.toNat 0) f.patch).toBytes f.lock
        (List.replicate f.hdr.pageSize.toNat 0)) := by
  set zero : Bytes := List.replicate f.hdr.pageSize.toNat 0 with hzero
  -- a complete snapshot has every page to its commit but the lock page
  have hpages : ∀ k, (∃ d, (k, d) ∈ f.pages) ↔
      1 ≤ k ∧ k < 1 + f.hdr.commit.toNat ∧ k ≠ f.lock := by
    intro k
    constructor
    · rintro ⟨d, hd⟩
      obtain ⟨h1, h2, -, h4⟩ := LtxFile.mem_pages hd
      simp only at h1 h2 h4
      exact ⟨h1, by omega, h4⟩
    · rintro ⟨h1, h2, h3⟩
      have hsome := hcomplete k h1 (show k ≤ f.hdr.commit.toNat by omega) h3
      obtain ⟨d, hd⟩ := Option.isSome_iff_exists.mp hsome
      exact ⟨d, LtxFile.mem_pages_iff.mpr hd⟩
  have hhead := Decoder.decodeHeader_encode (c := c) f.valid
    (f.pages.flatMap (pageFrame c) ++ (PageHeader.encode {} ++ f.tail c))
  have himage := decodeImage_spec hc zero hzero f.hdr.commit.toNat 1 [] f.pages [] rfl hpages
  have hend := Decoder.decodePage_endMarker c f.hdr f.pages (f.tail c)
  -- the lock page is written as zeros, every other page as the file has it
  have hbytes : (a.apply zero f.patch).toBytes f.lock zero
      = (List.range' 1 f.hdr.commit.toNat).flatMap
          (fun p => if p = f.lock then zero else (f.patch.page? p).getD zero) := by
    refine List.flatMap_congr fun p hp => ?_
    rw [Image.apply_size, List.mem_range'_1] at hp
    have hple : p ≤ f.hdr.commit.toNat := by
      have : f.patch.commit = f.hdr.commit.toNat := rfl
      omega
    by_cases hl : p = f.lock
    · rw [if_pos hl, if_pos hl]
    · obtain ⟨d, hd⟩ := Option.isSome_iff_exists.mp (hcomplete p (by omega) hple hl)
      rw [if_neg hl, if_neg hl]
      simp only [Image.apply, hd, Option.getD_some]
  rw [decodeDatabaseTo, f.bytes_eq, hhead, ok_bind]
  simp only [show ∀ r, (Decoder.afterPages c f.hdr [] r).header = f.hdr from fun _ => rfl]
  rw [require_pos hs, ok_bind]
  rw [LtxFile.decAt] at himage
  rw [himage]
  simp only [ok_bind, LtxFile.decAt, List.flatMap_nil, List.nil_append, hend, f.finish_afterBlock,
    pure_eq_ok, hbytes]

/-! ## The result -/

/-- The growth of a chain that starts with a complete snapshot is covered from the start. -/
theorem compactable_of_covers {f₀ : LtxFile} {fs : List LtxFile} {size : Nat}
    (hchain : (f₀ :: fs).IsChain LtxFile.Precedes)
    (hgrow : CoversChain f₀.lock size (patches (f₀ :: fs)))
    (hsnap : f₀.hdr.isSnapshot → f₀.patch.Complete f₀.lock) : Compactable f₀ fs :=
  ⟨hchain, fun hs => coversChain_zero hgrow (hsnap hs)⟩

/-- A file that stands for a chain with a complete start materialises as the image of the chain. -/
theorem Summarizes.decodeDatabaseTo_eq (hc : c.Lawful) {out f₀ : LtxFile} {fs : List LtxFile}
    (h : Summarizes f₀.lock out (f₀ :: fs)) (base : Image Bytes)
    (hgrow : CoversChain f₀.lock base.size (patches (f₀ :: fs)))
    (hs : f₀.hdr.isSnapshot) (hf₀ : f₀.patch.Complete f₀.lock) :
    out.hdr.isSnapshot ∧ out.patch.Complete f₀.lock ∧
      decodeDatabaseTo c (out.bytes c) = .ok
        ((base.applyAll (List.replicate f₀.hdr.pageSize.toNat 0) (patches (f₀ :: fs))).toBytes
          f₀.lock (List.replicate f₀.hdr.pageSize.toNat 0)) := by
  obtain ⟨hsize, hmin⟩ := h.head f₀ rfl
  have hlock : out.lock = f₀.lock := LtxFile.lock_eq hsize
  have hsnap : out.hdr.isSnapshot := by rwa [Header.isSnapshot, hmin]
  have hcomplete := h.covers 0 (coversChain_zero hgrow hf₀)
  have hdb := decodeDatabaseTo_bytes hc hsnap (by rw [hlock]; exact hcomplete) base
  rw [hlock, hsize] at hdb
  exact ⟨hsnap, hcomplete, by rw [hdb, (h.agree _ base hgrow).toBytes_eq]⟩

/-- **Compaction preserves meaning.** Take a chain of files over a database `base`, each carrying
what it adds, the first one complete if it starts at transaction 1. Compacting the chain succeeds;
the output holds, in ascending order, the newest version of every page within the last commit, and
spans the chain; applied to the base it gives the image that the files give one after the other. A
chain that starts with a complete snapshot compacts to a complete snapshot that materialises as that
image. Any nesting of compactions over the chain does the same. -/
theorem compact_preserves_meaning (hc : c.Lawful) (base : Image Bytes) {f₀ : LtxFile}
    {fs : List LtxFile} (hchain : (f₀ :: fs).IsChain LtxFile.Precedes)
    (hgrow : CoversChain f₀.lock base.size (patches (f₀ :: fs)))
    (hsnap : f₀.hdr.isSnapshot → f₀.patch.Complete f₀.lock) :
    let last := (f₀ :: fs).getLast (List.cons_ne_nil _ _)
    let zero : Bytes := List.replicate f₀.hdr.pageSize.toNat 0
    let image := base.applyAll zero (patches (f₀ :: fs))
    (∃ out : LtxFile,
      compact c headerFlagNoChecksum false ((f₀ :: fs).map (LtxFile.bytes c))
        = .ok (out.bytes c, out.hdr, out.trailer c) ∧
      out.pages.Pairwise (fun a b => a.1 < b.1) ∧
      (∀ p d, (p, d) ∈ out.pages ↔
        p ≤ last.hdr.commit.toNat ∧ newest (patches (f₀ :: fs)) p = some d) ∧
      out.hdr.minTxid = f₀.hdr.minTxid ∧ out.hdr.maxTxid = last.hdr.maxTxid ∧
      out.hdr.commit = last.hdr.commit ∧
      Image.AgreeOff f₀.lock (base.apply zero out.patch) image ∧
      (f₀.hdr.isSnapshot → out.hdr.isSnapshot ∧ out.patch.Complete f₀.lock ∧
        decodeDatabaseTo c (out.bytes c) = .ok (image.toBytes f₀.lock zero))) ∧
    ∀ g : Grouping, g.leaves = f₀ :: fs → g.SnapshotsComplete f₀.lock →
      ∃ out : LtxFile, g.compactAll c = .ok (out.bytes c) ∧
        Image.AgreeOff f₀.lock (base.apply zero out.patch) image ∧
        (f₀.hdr.isSnapshot → out.hdr.isSnapshot ∧ out.patch.Complete f₀.lock ∧
          decodeDatabaseTo c (out.bytes c) = .ok (image.toBytes f₀.lock zero)) := by
  intro last zero image
  have hok := compactable_of_covers hchain hgrow hsnap
  have hself : List.Forall₂ (Summarizes f₀.lock) (f₀ :: fs) ((f₀ :: fs).map fun f => [f]) :=
    List.forall₂_map_right_iff.mpr (List.forall₂_same.mpr fun f _ => .file f₀.lock f)
  have hsum := summarizes_mergedFile (c := c) hself hok
  have hflat : ((f₀ :: fs).map fun f => [f]).flatten = f₀ :: fs :=
    List.flatMap_singleton' _
  rw [hflat] at hsum
  have hcommit : lastCommit 0 (patches (f₀ :: fs)) = last.hdr.commit.toNat := lastCommit_patches
  -- the files themselves, all in one compaction
  constructor
  · refine ⟨mergedFile c f₀ fs hok, compact_eq_mergedFile hc hok, LtxFile.pages_ascending _, ?_,
      rfl, rfl, rfl, hsum.agree zero base hgrow,
      fun hs => hsum.decodeDatabaseTo_eq hc base hgrow hs (hsnap hs)⟩
    intro p d
    rw [LtxFile.mem_pages_iff, mergedFile_patch]
    simp only [mergeAll, hcommit]
    by_cases hp : p ≤ last.hdr.commit.toNat
    · simp [hp]
    · simp [hp]
  · -- any grouping of them
    intro g hg hcomplete
    have hlock : ∀ f ∈ g.leaves, f.lock = f₀.lock := by
      intro f hf
      rw [hg] at hf
      exact LtxFile.lock_eq (pageSize_eq_of_isChain hchain f hf)
    obtain ⟨out, hrun, hsum⟩ := g.compactAll_spec hc hlock (by rw [hg]; exact hchain)
      (by rw [hg]; exact hgrow) hcomplete
    rw [hg] at hsum
    exact ⟨out, hrun, hsum.agree zero base hgrow,
      fun hs => hsum.decodeDatabaseTo_eq hc base hgrow hs (hsnap hs)⟩

/-- A snapshot of one page. -/
def onePageFile : LtxFile where
  hdr := { flags := headerFlagNoChecksum, pageSize := 512, commit := 1, minTxid := 1, maxTxid := 1 }
  pages := [(1, unrepeatedPage)]
  valid := by decide
  pagesOk := ⟨pageOk_unrepeatedPage rfl (by decide) (by decide) (by decide) rfl, trivial⟩
  noChecksum := by decide
  commit_ne_zero := by decide

/-- A later transaction that adds a second page. -/
def secondPageFile : LtxFile where
  hdr := { flags := headerFlagNoChecksum, pageSize := 512, commit := 2, minTxid := 2, maxTxid := 2 }
  pages := [(2, unrepeatedPage)]
  valid := by decide
  pagesOk := ⟨pageOk_unrepeatedPage rfl (by decide) (by decide) (by decide) Nat.two_pos, trivial⟩
  noChecksum := by decide
  commit_ne_zero := by decide

/-- A snapshot and the transaction behind it compact to a snapshot of both pages. -/
theorem compact_preserves_meaning_twoFiles :
    ∃ out : LtxFile,
      compact literalCodec headerFlagNoChecksum false
          [onePageFile.bytes literalCodec, secondPageFile.bytes literalCodec]
        = .ok (out.bytes literalCodec, out.hdr, out.trailer literalCodec) ∧
      (∃ d, (1, d) ∈ out.pages) ∧ (2, unrepeatedPage) ∈ out.pages := by
  have hchain : [onePageFile, secondPageFile].IsChain LtxFile.Precedes := by
    refine .cons_cons ⟨rfl, ?_⟩ (.singleton _)
    decide
  have hsnap : onePageFile.patch.Complete onePageFile.lock := by
    intro p h0 hp _
    have hp' : p ≤ 1 := hp
    obtain rfl : p = 1 := by omega
    rfl
  have hgrow : CoversChain onePageFile.lock 0 (patches [onePageFile, secondPageFile]) := by
    refine ⟨hsnap, fun p h1 hp _ => ?_, trivial⟩
    have h1' : 1 < p := h1
    have hp' : p ≤ 2 := hp
    obtain rfl : p = 2 := by omega
    rfl
  obtain ⟨⟨out, hrun, -, hpages, -⟩, -⟩ := compact_preserves_meaning literalCodec_lawful
    ⟨0, fun _ => []⟩ hchain hgrow fun _ => hsnap
  exact ⟨out, hrun, ⟨unrepeatedPage, (hpages 1 _).mpr ⟨by decide, rfl⟩⟩,
    (hpages 2 _).mpr ⟨by decide, rfl⟩⟩

end Liters
