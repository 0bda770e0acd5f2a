import Liters.Replica.Progress

/-! # Incremental syncs and full restores agree

A database file that holds a state of the writer, and an image that a full restore makes of that
state, are the same database: same length and same bytes, but for the lock page and the bytes of the
header that the replica sets itself. -/

namespace Liters

/-! ## Images byte by byte -/

/-- The bytes of a sequence of blocks of one size. -/
theorem byteAt_flatMap_range' {m pageSize : Nat} (block : Nat → Bytes)
    (hlen : ∀ p, 0 < p → p ≤ m → (block p).length = pageSize) :
    ((List.range' 1 m).flatMap block).length = m * pageSize ∧
      ∀ p j, 0 < p → p ≤ m → j < pageSize →
        byteAt ((List.range' 1 m).flatMap block) ((p - 1) * pageSize + j) = byteAt (block p) j := by
  induction m with
  | zero => exact ⟨by simp, fun p j h0 hp => absurd hp (by omega)⟩
  | succ m ih =>
      obtain ⟨hm, hblocks⟩ := ih fun p h0 hp => hlen p h0 (by omega)
      have hlast : (block (m + 1)).length = pageSize := hlen (m + 1) (by omega) le_rfl
      have hsplit : (List.range' 1 (m + 1)).flatMap block
          = (List.range' 1 m).flatMap block ++ block (m + 1) := by
        rw [List.range'_1_concat, List.flatMap_append, List.flatMap_singleton, Nat.add_comm 1 m]
      rw [hsplit]
      refine ⟨by rw [List.length_append, hm, hlast, Nat.succ_mul], fun p j h0 hp hj => ?_⟩
      rcases Nat.eq_or_lt_of_le hp with rfl | hlt
      · rw [Nat.add_sub_cancel, byteAt_append_right (by omega), hm, Nat.add_sub_cancel_left]
      · have hbound := pred_mul_add pageSize h0
        have hle : p * pageSize ≤ m * pageSize := Nat.mul_le_mul_right _ (by omega)
        rw [byteAt_append_left (by omega)]
        exact hblocks p j h0 (by omega) hj

/-- The header bytes that a replica sets itself. -/
def MaskedByte (i : Nat) : Prop := i = 18 ∨ i = 19 ∨ (24 ≤ i ∧ i < 28)

/-- The same database: same length and same bytes, but for the lock page and the header bytes that
the replica sets itself. -/
structure SameDatabase (pageSize lock : Nat) (f g : Bytes) : Prop where
  length : f.length = g.length
  byte : ∀ i < f.length, ¬ MaskedByte i → i / pageSize + 1 ≠ lock → byteAt f i = byteAt g i

/-- A file is the same database as itself. -/
theorem SameDatabase.refl (pageSize lock : Nat) (f : Bytes) : SameDatabase pageSize lock f f :=
  ⟨rfl, fun _ _ _ _ => rfl⟩

/-- Either of two files may be named first. -/
theorem SameDatabase.symm {pageSize lock : Nat} {f g : Bytes} (h : SameDatabase pageSize lock f g) :
    SameDatabase pageSize lock g f :=
  ⟨h.length.symm, fun i hi hmask hlock => (h.byte i (h.length ▸ hi) hmask hlock).symm⟩

/-- Files that are the same database as a third are so of each other. -/
theorem SameDatabase.trans {pageSize lock : Nat} {f g k : Bytes}
    (h : SameDatabase pageSize lock f g) (h' : SameDatabase pageSize lock g k) :
    SameDatabase pageSize lock f k :=
  ⟨h.length.trans h'.length, fun i hi hmask hlock =>
    (h.byte i hi hmask hlock).trans (h'.byte i (h.length ▸ hi) hmask hlock)⟩

/-- Presenting an image as a rollback-journal database changes masked bytes only. -/
theorem sameDatabase_present (pageSize lock : Nat) (image : Bytes) :
    SameDatabase pageSize lock (presentAsRollbackJournal image) image := by
  unfold presentAsRollbackJournal
  split
  · exact ⟨rfl, fun _ _ _ _ => rfl⟩
  · rename_i hlen
    have hsize : (pwrite image 18 [1, 1]).length = image.length := by
      rw [length_pwrite _ _ (List.cons_ne_nil _ _)]
      simp only [List.length_cons, List.length_nil]
      omega
    refine ⟨hsize, fun i _ hmask _ => ?_⟩
    unfold MaskedByte at hmask
    refine byteAt_pwrite_of_not_mem _ ?_
    simp only [List.length_cons, List.length_nil]
    omega

namespace Uploads

variable {U : Uploads} {n t : Nat}

/-- The writer's database after transaction `t` as a file. -/
def image (U : Uploads) (t : Nat) : Bytes := (U.state t).toBytes U.lock U.zero

/-- Pages have at least 512 bytes. -/
theorem pageSize_ge (U : Uploads) : 512 ≤ U.pageSize.toNat := by
  have hvalid := (isValidPageSize_bounds (U.file 1).plainOk.pageSize).1
  rwa [U.size 1 le_rfl (by omega)] at hvalid

/-- Every page of a state has the page size. -/
theorem length_page (ht : t < 2 ^ 64 - 1) (p : Nat) :
    ((U.state t).page p).length = U.pageSize.toNat := by
  induction t with
  | zero => exact List.length_replicate
  | succ t ih =>
      rw [Uploads.state, History.state_page_succ]
      cases hp : (U.history.patch (t + 1)).page? p with
      | some v =>
          have hmem : (p, v) ∈ (U.file (t + 1)).pages := LtxFile.mem_pages_iff.mpr hp
          obtain ⟨-, -, hlen, -⟩ := LtxFile.mem_pages hmem
          rw [Option.getD_some, hlen, U.size (t + 1) (by omega) ht]
      | none =>
          rw [Option.getD_none]
          split
          · exact ih (by omega)
          · exact List.length_replicate

/-- The image of a state has its size, and its pages at their places. -/
theorem image_spec (ht : t < 2 ^ 64 - 1) :
    (U.image t).length = (U.state t).size * U.pageSize.toNat ∧
      ∀ p j, 0 < p → p ≤ (U.state t).size → p ≠ U.lock → j < U.pageSize.toNat →
        byteAt (U.image t) ((p - 1) * U.pageSize.toNat + j) = byteAt ((U.state t).page p) j := by
  have hlen : ∀ p, 0 < p → p ≤ (U.state t).size →
      (if p = U.lock then U.zero else (U.state t).page p).length = U.pageSize.toNat := by
    intro p _ _
    split
    · exact List.length_replicate
    · exact length_page ht p
  have hblocks := byteAt_flatMap_range'
    (fun p => if p = U.lock then U.zero else (U.state t).page p) hlen
  refine ⟨hblocks.1, fun p j h0 hp hs hj => ?_⟩
  rw [Uploads.image, Image.toBytes, hblocks.2 p j h0 hp hj, if_neg hs]

end Uploads

variable {c : Codec} {U : Uploads} {n t : Nat} {db : Bytes}

/-- Page size, page and offset of a byte. -/
theorem div_mod_page {pageSize i m : Nat} (hps : 0 < pageSize) (hi : i < m * pageSize) :
    i / pageSize + 1 ≤ m ∧ i % pageSize < pageSize ∧
      (i / pageSize + 1 - 1) * pageSize + i % pageSize = i := by
  refine ⟨Nat.div_lt_of_lt_mul (by rwa [Nat.mul_comm]), Nat.mod_lt _ hps, ?_⟩
  rw [Nat.add_sub_cancel]
  exact Nat.div_add_mod' i pageSize

/-- A masked byte of page 1 is a masked byte of the file. -/
theorem masked_iff {pageSize i : Nat} (hps : 28 ≤ pageSize) :
    Masked (i / pageSize + 1) (i % pageSize) ↔ MaskedByte i := by
  unfold Masked MaskedByte
  constructor
  · rintro ⟨hp, hj⟩
    have hdiv := Nat.div_add_mod i pageSize
    have hzero : i / pageSize = 0 := by omega
    rw [hzero, Nat.mul_zero, Nat.zero_add] at hdiv
    omega
  · intro hi
    have hlt : i < pageSize := by omega
    rw [Nat.div_eq_of_lt hlt, Nat.mod_eq_of_lt hlt]
    exact ⟨rfl, hi⟩

/-- **What is held without newer pages is the writer's database.** -/
theorem Held.sameDatabase (h : Held U n t t db) (hn : n < 2 ^ 64 - 1) :
    SameDatabase U.pageSize.toNat U.lock db (U.image t) := by
  have hps : 28 ≤ U.pageSize.toNat := by have := U.pageSize_ge; omega
  have ht : t < 2 ^ 64 - 1 := lt_of_le_of_lt h.bound hn
  obtain ⟨hlen, hbyte⟩ := Uploads.image_spec (U := U) ht
  refine ⟨(h.length rfl).trans hlen.symm, fun i hi hmask hlock => ?_⟩
  rw [h.length rfl] at hi
  obtain ⟨hp, hj, hi'⟩ := div_mod_page (by omega) hi
  have hread : Reads U.pageSize.toNat db (i / U.pageSize.toNat + 1)
      ((U.state t).page (i / U.pageSize.toNat + 1)) := h.intact.page (Nat.succ_pos _) hp hlock
  have hb := hread.2 _ hj fun hm => hmask ((masked_iff hps).mp hm)
  rw [← hbyte _ _ (Nat.succ_pos _) hp hlock hj, hi'] at hb
  exact hb

/-- The converse: a file that is the writer's database holds it. -/
theorem SameDatabase.held (h : SameDatabase U.pageSize.toNat U.lock db (U.image t)) (ht : t ≤ n)
    (hn : n < 2 ^ 64 - 1) : Held U n t t db := by
  have hps : 28 ≤ U.pageSize.toNat := by have := U.pageSize_ge; omega
  obtain ⟨hlen, hbyte⟩ := Uploads.image_spec (U := U) (lt_of_le_of_lt ht hn)
  have hsize : db.length = (U.state t).size * U.pageSize.toNat := h.length.trans hlen
  refine ⟨le_rfl, ht, fun p h0 hp hs _ => ⟨?_, fun j hj hmask => ?_⟩, fun _ => hsize⟩
  · rw [hsize]
    exact Nat.mul_le_mul_right _ hp
  · have hbound := pred_mul_add U.pageSize.toNat h0
    have hle : p * U.pageSize.toNat ≤ (U.state t).size * U.pageSize.toNat :=
      Nat.mul_le_mul_right _ hp
    have hdiv : ((p - 1) * U.pageSize.toNat + j) / U.pageSize.toNat = p - 1 := by
      rw [Nat.mul_comm, Nat.mul_add_div (by omega), Nat.div_eq_of_lt hj, Nat.add_zero]
    have hmod : ((p - 1) * U.pageSize.toNat + j) % U.pageSize.toNat = j := by
      rw [Nat.mul_comm, Nat.mul_add_mod, Nat.mod_eq_of_lt hj]
    have hmask' : ¬ MaskedByte ((p - 1) * U.pageSize.toNat + j) := by
      rw [← masked_iff hps, hdiv, hmod, Nat.sub_add_cancel h0]
      exact hmask
    have hlock : ((p - 1) * U.pageSize.toNat + j) / U.pageSize.toNat + 1 ≠ U.lock := by
      rw [hdiv, Nat.sub_add_cancel h0]
      exact hs
    exact (h.byte _ (by omega) hmask' hlock).trans (hbyte p j h0 hp hs hj)

/-! ## What a full restore makes -/

/-- **Merging and materialising a chain** of files of the history from the first transaction on
gives the writer's database at its end. -/
theorem materialise_chain (hc : c.Lawful) (hn : n < 2 ^ 64 - 1) {f : FileInfo} {fs : List FileInfo}
    {gs : List LtxFile} (hcar : List.Forall₂ (Carries U n) (f :: fs) gs)
    (hchain : (f :: fs).IsChain Contiguous) (hmin : f.minTxid = 1) :
    ∃ merged hdr trailer,
      compact c headerFlagNoChecksum false (gs.map (LtxFile.bytes c)) = .ok (merged, hdr, trailer) ∧
      decodeDatabaseTo c merged
        = .ok (U.image ((f :: fs).getLast (List.cons_ne_nil _ _)).maxTxid) := by
  obtain ⟨g, gs, hfg, htail, rfl⟩ := List.forall₂_cons_left_iff.mp hcar
  have hok : ∀ x ∈ g :: gs, FileOk U n x := by
    intro x hx
    obtain ⟨i, hi⟩ := List.mem_iff_get.mp hx
    have := hcar.get (i := i) (by rw [hcar.length_eq]; exact i.2) i.2
    exact hi ▸ this.toFileOk
  have hgmin : g.hdr.minTxid.toNat = 1 := hfg.minTxid.trans hmin
  -- the plan is a chain of exact files, so it can be compacted
  obtain ⟨hcompact, hfile⟩ := FileOk.merge (c := c) hn hok ((isChain_contiguous_iff hcar).mp hchain)
    fun x hx => by rw [hgmin]; exact (hok x (List.mem_cons_of_mem _ hx)).exact.pos
  refine ⟨_, _, _, compact_eq_mergedFile hc hcompact, ?_⟩
  have hmaxTxid : (mergedFile c g gs hcompact).hdr.maxTxid.toNat
      = ((f :: fs).getLast (List.cons_ne_nil _ _)).maxTxid := getLast_maxTxid hcar
  rw [← hmaxTxid]
  have hminTxid : (mergedFile c g gs hcompact).hdr.minTxid = g.hdr.minTxid := rfl
  generalize mergedFile c g gs hcompact = m at hfile hminTxid ⊢
  have hone : m.hdr.minTxid = 1 := hminTxid.trans (UInt64.toNat_inj.mp hgmin)
  have hexact : U.history.Exact U.lock 1 m.hdr.maxTxid.toNat m.patch := by
    have he := hfile.exact
    rwa [hone] at he
  have hgrow : U.history.Growing U.lock n := U.growing _ hn
  have hlock := hfile.lock
  -- the result begins at 1 and is complete, so it decodes to the state it ends at
  have hcomplete : m.patch.Complete m.lock := by
    rw [hlock]
    exact hexact.covers hgrow hfile.le (t := 0) (Nat.le_refl 1) (Nat.zero_le _)
  have hagree := hexact.agreeOff hgrow hfile.le (t := 0) (Nat.le_refl 1) (Nat.zero_le _)
  rw [decodeDatabaseTo_bytes hc (by rw [Header.isSnapshot, hone]; rfl) hcomplete (U.state 0), hlock,
    hfile.size]
  exact congrArg Except.ok hagree.toBytes_eq

/-- What succeeds with renamed errors succeeded before. -/
theorem liftError_eq_ok {ε α : Type} {g : ε → ReplicaError} {x : Except ε α} {a : α}
    (h : liftError g x = .ok a) : x = .ok a := by
  cases x with
  | error e => cases h
  | ok b =>
      cases h
      rfl

/-- What is opened in a bucket of the history. -/
theorem Faithful.carries {b : Bucket} (h : Faithful c U n b) {info : FileInfo} {body : Bytes}
    (hopen : b.openLtxFile info.level info.minTxid info.maxTxid = some body) :
    ∃ g : LtxFile, body = g.bytes c ∧ Carries U n info g := by
  obtain ⟨st, hst, hmin, hmax, rfl⟩ := Bucket.mem_of_openLtxFile hopen
  obtain ⟨g, hbody, hg, hgmin, hgmax⟩ := (h.files info.level st hst).fileOk
  exact ⟨g, hbody, hg, hgmin.trans hmin, hgmax.trans hmax⟩

/-- What a plan opens in a faithful bucket carries files of its history. -/
theorem openPlan_carries {env : RestoreEnv} (hb : ∀ p, Faithful c U n (env.bucket p)) {i : Nat}
    {infos : List FileInfo} {rdrs : List Bytes} (h : openPlan env i infos = .ok rdrs) :
    ∃ gs, List.Forall₂ (Carries U n) infos gs ∧ rdrs = gs.map (LtxFile.bytes c) := by
  induction infos generalizing i rdrs with
  | nil =>
      cases h
      exact ⟨[], .nil, rfl⟩
  | cons info infos ih =>
      rw [openPlan, bind_eq_ok_iff] at h
      obtain ⟨-, -, h⟩ := h
      rw [bind_eq_ok_iff] at h
      obtain ⟨-, -, h⟩ := h
      split at h
      · cases h
      · rename_i body hopen
        rw [bind_eq_ok_iff] at h
        obtain ⟨bodies, hbodies, h⟩ := h
        obtain ⟨gs, hgs, hmap⟩ := ih hbodies
        obtain ⟨g, hbody, hg⟩ := (hb _).carries hopen
        refine ⟨g :: gs, .cons hg hgs, ?_⟩
        rw [← Except.ok.inj h, List.map_cons, hbody, hmap]

/-- A faithful bucket's listings are well formed. -/
theorem Faithful.listingOk {b : Bucket} (h : Faithful c U n b) (hn : n < 2 ^ 64 - 1) :
    ListingOk b.listing where
  sorted level := by
    rw [Bucket.listing, Bucket.ltxFiles_zero, List.pairwise_map]
    refine (h.sorted level).imp fun {s t} hst => ?_
    unfold Stored.Before at hst
    simp only [Stored.info]
    omega
  range level f hf := by
    rw [Bucket.listing, Bucket.ltxFiles_zero] at hf
    obtain ⟨s, hs, rfl⟩ := List.mem_map.mp hf
    obtain ⟨h1, h2, h3⟩ := (h.files level s hs).range
    exact ⟨h1, h2, by simp only [Stored.info]; omega⟩
  snapshots f hf := by
    rw [Bucket.listing, Bucket.ltxFiles_zero] at hf
    obtain ⟨s, hs, rfl⟩ := List.mem_map.mp hf
    exact h.snapshots s hs

/-- A plan over a bucket of the history is a chain from the first transaction on. -/
theorem Faithful.plan {b : Bucket} (h : Faithful c U n b) (hn : n < 2 ^ 64 - 1)
    {infos : List FileInfo} (hplan : calcRestorePlan b.listing 0 = .ok infos) :
    ∃ f fs, infos = f :: fs ∧ f.minTxid = 1 ∧ (f :: fs).IsChain Contiguous ∧
      (∀ x ∈ f :: fs, Listed b.listing x) ∧
      ∀ x, Listed b.listing x → x.maxTxid ≤ ((f :: fs).getLast (List.cons_ne_nil _ _)).maxTxid := by
  have hlisting := h.listingOk hn
  rcases calcRestorePlan_cases hlisting 0 with ⟨plan, hrun, hok⟩ | ⟨⟨e, hrun⟩, -⟩
  · obtain rfl : plan = infos := Except.ok.inj (hrun.symm.trans hplan)
    obtain ⟨f, hf, hfirst⟩ := hok.first
    obtain ⟨fs, rfl⟩ : ∃ fs, plan = f :: fs := List.head?_eq_some_iff.mp hf
    have hfmin : f.minTxid = 1 := by
      rcases hfirst with hsnap | hle
      · exact hlisting.snapshots f hsnap
      · obtain ⟨level, -, hmem⟩ := hok.listed f (List.mem_cons_self ..)
        exact Nat.le_antisymm hle (hlisting.range level f hmem).1
    obtain ⟨last, hlast, -, hall⟩ := hok.last
    rw [List.getLast?_eq_some_getLast (List.cons_ne_nil f fs)] at hlast
    refine ⟨f, fs, rfl, hfmin, hok.chain, hok.listed, fun x hx => ?_⟩
    rw [Option.some.inj hlast]
    exact hall rfl x hx
  · rw [hrun] at hplan
    cases hplan

/-- A chain beyond which nothing reaches gives a plan that ends where it ends. -/
theorem Faithful.exists_plan {b : Bucket} (h : Faithful c U n b) (hn : n < 2 ^ 64 - 1)
    {f : FileInfo} (hchain : HasChain b.listing f)
    (hall : ∀ g, Listed b.listing g → g.maxTxid ≤ f.maxTxid) :
    ∃ plan last, calcRestorePlan b.listing 0 = .ok plan ∧ plan.getLast? = some last ∧
      last.maxTxid = f.maxTxid := by
  have hmem : Listed b.listing f := by
    obtain ⟨fs, -, hlisted, hlast⟩ := hchain
    exact hlisted f (List.mem_of_getLast? hlast)
  rcases calcRestorePlan_cases (h.listingOk hn) 0 with ⟨plan, hrun, hok⟩ | ⟨-, hnone⟩
  · obtain ⟨last, hlast, -, hlatest⟩ := hok.last
    have hlisted := hok.listed last (List.mem_of_getLast? hlast)
    exact ⟨plan, last, hrun, hlast, Nat.le_antisymm (hall last hlisted) (hlatest rfl f hmem)⟩
  · obtain ⟨g, hg, hlt⟩ := (hnone f hchain).2 rfl
    exact absurd (hall g hg) (not_le.mpr hlt)

/-- **What a full restore makes**, whenever it makes something, from buckets of the history: the
writer's database at the transaction it reports. -/
theorem prepare_image (hc : c.Lawful) (hn : n < 2 ^ 64 - 1) {env : RestoreEnv}
    (hb : ∀ p, Faithful c U n (env.bucket p)) {image : Bytes} {txid : Nat}
    (h : prepare c env = .ok (image, txid)) :
    1 ≤ txid ∧ txid ≤ n ∧ image = presentAsRollbackJournal (U.image txid) := by
  have hlisted : Faithful c U n env.listed :=
    ⟨fun level => (hb _).files level, fun level => (hb _).sorted level, (hb _).snapshots⟩
  -- the steps of prepare, in turn: each has succeeded
  unfold prepare at h
  rw [bind_eq_ok_iff] at h
  obtain ⟨-, -, h⟩ := h
  rw [bind_eq_ok_iff] at h
  obtain ⟨infos, hinfos, h⟩ := h
  rw [bind_eq_ok_iff] at h
  obtain ⟨-, -, h⟩ := h
  rw [bind_eq_ok_iff] at h
  obtain ⟨rdrs, hrdrs, h⟩ := h
  rw [bind_eq_ok_iff] at h
  obtain ⟨-, -, h⟩ := h
  rw [bind_eq_ok_iff] at h
  obtain ⟨⟨merged, hdr, trailer⟩, hmerged, h⟩ := h
  rw [bind_eq_ok_iff] at h
  obtain ⟨-, -, h⟩ := h
  rw [bind_eq_ok_iff] at h
  obtain ⟨img, himg, h⟩ := h
  rw [bind_eq_ok_iff] at h
  obtain ⟨-, -, h⟩ := h
  rw [bind_eq_ok_iff] at h
  obtain ⟨-, -, h⟩ := h
  -- the plan is a chain from TXID 1, and what it opens carries the uploads
  have hplan : calcRestorePlan env.listed.listing 0 = .ok infos := liftError_eq_ok hinfos
  obtain ⟨f, fs, rfl, hmin, hchain, hmem, -⟩ := hlisted.plan hn hplan
  obtain ⟨gs, hcar, rfl⟩ := openPlan_carries hb hrdrs
  -- so their compaction decodes to the state at the end of the chain
  obtain ⟨merged', hdr', trailer', hcompact, hdecode⟩ := materialise_chain hc hn hcar hchain hmin
  rw [hcompact] at hmerged
  cases hmerged
  rw [hdecode] at himg
  cases himg
  cases h
  rw [List.getLast?_eq_some_getLast (List.cons_ne_nil f fs)]
  have hlast := List.getLast_mem (List.cons_ne_nil f fs)
  obtain ⟨level, -, hl⟩ := hmem _ hlast
  rw [Bucket.listing, Bucket.ltxFiles_zero] at hl
  obtain ⟨st, hst, heq⟩ := List.mem_map.mp hl
  obtain ⟨h1, h2, h3⟩ := (hlisted.files level st hst).range
  have hmax : st.maxTxid = ((f :: fs).getLast (List.cons_ne_nil f fs)).maxTxid :=
    congrArg FileInfo.maxTxid heq
  refine ⟨?_, ?_, rfl⟩
  · show 1 ≤ ((f :: fs).getLast _).maxTxid
    omega
  · show ((f :: fs).getLast _).maxTxid ≤ n
    omega

/-! ## Syncs -/

/-- A round of a replica at a known position. -/
theorem Replica.incrementalSync_spec {env : SyncEnv} {opts : ReplicaOptions} {fromTxid goal : Nat}
    {s₀ : Follower}
    (hset : ∀ pageSize, readPageSize s₀.db = some pageSize →
      Setting c U n env pageSize fromTxid goal s₀)
    (hheld : s₀.rooted = true → Held U n fromTxid s₀.reached s₀.db) :
    Spec (incrementalSync env c opts fromTxid) s₀ (fun r s' => Ended U n fromTxid goal s₀ r s')
      (fun _ s' => ∃ q, Stopped U n fromTxid s₀ q s') := by
  have hstart : Stopped U n fromTxid s₀ fromTxid { s₀ with clock := s₀.clock + 1 } :=
    ⟨le_rfl, .inl ⟨rfl, rfl⟩, hheld, fun _ => rfl, fun h => h⟩
  unfold incrementalSync
  refine Spec.bind (Q := fun _ s' => s' = { s₀ with clock := s₀.clock + 1 })
    (spec_pass rfl fun _ => ⟨_, hstart⟩) ?_
  rintro - - rfl
  rw [spec_bind, spec_get]
  dsimp only
  split
  · exact ⟨_, hstart⟩
  · rename_i pageSize hsize
    have h₀ := hset pageSize hsize
    have h₁ : Setting c U n env pageSize fromTxid goal { s₀ with clock := s₀.clock + 1 } :=
      ⟨h₀.lawful, h₀.bound, h₀.faithful, h₀.goal, h₀.root⟩
    refine (h₁.followBucket hheld).mono ?_ ?_
    · intro r s' h
      exact ⟨h.ge, h.txid, h.held, h.foreign, h.keeps, h.fresh, h.goal⟩
    · rintro - s' ⟨q, h⟩
      exact ⟨q, h.ge, h.txid, h.held, h.foreign, h.keeps⟩

/-- A round that returns, from a file that holds the position: it holds the position reported. -/
theorem Replica.incrementalSync_held (hc : c.Lawful) (hn : n < 2 ^ 64 - 1) {env : SyncEnv}
    (hmoments : ∀ i, Faithful c U n (env.moment i).bucket) {opts : ReplicaOptions}
    {fromTxid r : Nat} {txid : Option (List Char)} {f : Follower}
    (hheld : Held U n fromTxid fromTxid db)
    (hrun : incrementalSync env c opts fromTxid ⟨db, txid, 0, fromTxid, true⟩ = .ok r f) :
    fromTxid ≤ r ∧ Held U n r r f.db ∧ f.reached = r ∧ f.rooted = true ∧
      ((r = fromTxid ∧ f.txid = txid) ∨ (fromTxid < r ∧ f.txid = some (txidLine r))) := by
  have hspec : Spec (incrementalSync env c opts fromTxid) ⟨db, txid, 0, fromTxid, true⟩
      (Ended U n fromTxid 0 ⟨db, txid, 0, fromTxid, true⟩)
      (fun _ s' => ∃ q, Stopped U n fromTxid ⟨db, txid, 0, fromTxid, true⟩ q s') :=
    incrementalSync_spec
      (fun _ _ => ⟨hc, hn, hmoments, fun _ _ _ _ _ => Nat.zero_le _, fun h => (by cases h)⟩)
      fun _ => hheld
  rw [Spec, hrun] at hspec
  obtain ⟨hrooted, hreached⟩ := hspec.keeps rfl
  have hreached : f.reached = r := hreached.trans (max_eq_right hspec.ge)
  have hend := hspec.held hrooted
  rw [hreached] at hend
  exact ⟨hspec.ge, hend, hreached, hrooted, hspec.txid⟩

/-- Every restore over buckets of the history agrees with a file that holds the same transaction. -/
theorem Held.agrees (h : Held U n t t db) (hc : c.Lawful) (hn : n < 2 ^ 64 - 1) {env : RestoreEnv}
    (hb : ∀ p, Faithful c U n (env.bucket p)) {image : Bytes}
    (hprep : prepare c env = .ok (image, t)) :
    SameDatabase U.pageSize.toNat U.lock db image := by
  obtain ⟨-, -, rfl⟩ := prepare_image hc hn hb hprep
  exact (h.sameDatabase hn).trans (sameDatabase_present _ _ _).symm

/-- A list of which each element has a partner has a list of partners. -/
theorem exists_forall₂ {α β : Type} {R : α → β → Prop} {l : List α} (h : ∀ a ∈ l, ∃ b, R a b) :
    ∃ bs, List.Forall₂ R l bs := by
  induction l with
  | nil => exact ⟨[], .nil⟩
  | cons a l ih =>
      obtain ⟨b, hb⟩ := h a (List.mem_cons_self ..)
      obtain ⟨bs, hbs⟩ := ih fun x hx => h x (List.mem_cons_of_mem _ hx)
      exact ⟨b :: bs, .cons hb hbs⟩

/-- A bucket of the history whose plan ends at `t` restores to an image of `t`. -/
theorem Faithful.prepare {b : Bucket} (h : Faithful c U n b) (hc : c.Lawful) (hn : n < 2 ^ 64 - 1)
    {infos : List FileInfo} (hplan : calcRestorePlan b.listing 0 = .ok infos) {last : FileInfo}
    (hlast : infos.getLast? = some last) (verdict : String) :
    ∃ image, Liters.prepare c (calmEnv b verdict) = .ok (image, last.maxTxid) := by
  obtain ⟨f, fs, rfl, hmin, hchain, hmem, -⟩ := h.plan hn hplan
  -- each listed file opens, with a header's worth of bytes at least
  have hopens : ∀ info ∈ f :: fs, ∃ g : LtxFile, Carries U n info g ∧
      b.openLtxFile info.level info.minTxid info.maxTxid = some (g.bytes c) := by
    intro info hinfo
    obtain ⟨level, -, hl⟩ := hmem info hinfo
    rw [Bucket.listing, Bucket.ltxFiles_zero] at hl
    obtain ⟨st, hst, rfl⟩ := List.mem_map.mp hl
    obtain ⟨st', -, -, hbody⟩ := Bucket.openLtxFile_of_mem hst
    have hopen : b.openLtxFile (st.info level).level (st.info level).minTxid (st.info level).maxTxid
        = some st'.body := hbody
    obtain ⟨g, hg, hcar⟩ := h.carries hopen
    exact ⟨g, hcar, by rw [hopen, hg]⟩
  have hsizes : ∀ info ∈ f :: fs, headerSize ≤ b.sizeOf info := by
    intro info hinfo
    obtain ⟨g, -, hopen⟩ := hopens info hinfo
    rw [Bucket.sizeOf, hopen, Option.getD_some, g.bytes_eq, List.length_append,
      Header.encode_length]
    omega
  obtain ⟨gs, hgs⟩ : ∃ gs, List.Forall₂ (fun info (g : LtxFile) => Carries U n info g ∧
      b.openLtxFile info.level info.minTxid info.maxTxid = some (g.bytes c)) (f :: fs) gs :=
    exists_forall₂ hopens
  have hcar : List.Forall₂ (Carries U n) (f :: fs) gs := hgs.imp fun _ _ h => h.1
  have hopen : List.Forall₂ (fun (info : FileInfo) body =>
      b.openLtxFile info.level info.minTxid info.maxTxid = some body) (f :: fs)
      (gs.map (LtxFile.bytes c)) :=
    List.forall₂_map_right_iff.mpr (hgs.imp fun _ _ h => h.2)
  obtain ⟨merged, hdr, trailer, hcompact, hdecode⟩ := materialise_chain hc hn hcar hchain hmin
  have hprep := prepare_calmEnv verdict hplan hsizes hopen hcompact hdecode
  rw [hlast] at hprep
  exact ⟨_, hprep⟩

/-! ## When a round diverges -/

/-- The halt says that the bucket is not the one that the replica came from. -/
def Halt.Diverges : Halt → Prop
  | .error (.diverged _ _) => True
  | _ => False

namespace Replica

/-- A part of a round that diverges only if `D`. -/
def DivergesOnlyIf (D : Prop) {α : Type} (x : Sync α) : Prop :=
  ∀ s, Spec x s (fun _ _ => True) fun halt _ => halt.Diverges → D

section
variable {D : Prop} {env : SyncEnv} {opts : ReplicaOptions} {pageSize fromTxid : Nat} {α β : Type}

/-- If the bucket diverges, anything may say so. -/
theorem divergesOnlyIf_of (h : D) (x : Sync α) : DivergesOnlyIf D x :=
  fun _ => spec_of_forall (fun _ _ => trivial) fun _ _ _ => h

/-- A value says nothing. -/
theorem divergesOnlyIf_pure (a : α) : DivergesOnlyIf D (pure a : Sync α) := fun _ => trivial

/-- An error says so only if it is that of divergence. -/
theorem divergesOnlyIf_throw {halt : Halt} (h : halt.Diverges → D) :
    DivergesOnlyIf D (throw halt : Sync α) := fun _ => h

/-- One part after the other. -/
theorem DivergesOnlyIf.bind {x : Sync α} {f : α → Sync β} (hx : DivergesOnlyIf D x)
    (hf : ∀ a, DivergesOnlyIf D (f a)) : DivergesOnlyIf D (x >>= f) :=
  fun s => (hx s).bind fun a s' _ => hf a s'

/-- An effect fails with its own error only. -/
theorem divergesOnlyIf_effect {e : ReplicaError} (he : ¬ (Halt.error e).Diverges)
    (f : Moment → Follower → Follower) : DivergesOnlyIf D (effect env e f) := by
  intro s
  unfold effect
  rw [spec_bind, spec_tick]
  cases (env.moment s.clock).turn with
  | done => trivial
  | failed => exact fun h => absurd h he
  | killed took =>
      cases took with
      | false => exact fun h => absurd h id
      | true => exact fun h => absurd h id

/-- So does a step without an effect. -/
theorem divergesOnlyIf_pass {e : ReplicaError} (he : ¬ (Halt.error e).Diverges) :
    DivergesOnlyIf D (pass env e) := divergesOnlyIf_effect he _

/-- A request tells what the bucket holds at some moment. -/
theorem divergesOnlyIf_request {f : Bucket → Sync β}
    (hf : ∀ i, DivergesOnlyIf D (f (env.moment i).bucket)) :
    DivergesOnlyIf D (request env >>= f) := by
  intro s
  unfold request
  rw [spec_bind, spec_bind, spec_tick]
  cases (env.moment s.clock).turn with
  | done => exact hf _ _
  | failed => exact fun h => absurd h id
  | killed took => exact fun h => absurd h id

/-- A listing hands on what the bucket lists at its moment. -/
theorem divergesOnlyIf_listLevel {level seek : Nat} {f : List FileInfo → Sync β}
    (hf : ∀ i, DivergesOnlyIf D (f ((env.moment i).bucket.ltxFiles level seek))) :
    DivergesOnlyIf D (listLevel env level seek >>= f) := by
  unfold listLevel
  rw [bind_assoc]
  refine divergesOnlyIf_request fun i => ?_
  rw [pure_bind]
  exact hf i

/-- Writing pages never reports divergence. -/
theorem divergesOnlyIf_writePages (pages : List Page) :
    DivergesOnlyIf D (writePages env pageSize pages) := by
  induction pages with
  | nil => exact divergesOnlyIf_pure _
  | cons page pages ih => exact (divergesOnlyIf_effect id _).bind fun _ => ih

/-- Neither does applying a file. -/
theorem divergesOnlyIf_applyDecoded (hdr : Header) (pages : List Page) :
    DivergesOnlyIf D (applyDecoded env opts pageSize hdr pages) := by
  unfold applyDecoded
  refine DivergesOnlyIf.bind ?_ fun _ => ?_
  · unfold takeLock
    split
    · exact divergesOnlyIf_pass id
    · exact divergesOnlyIf_pure _
  refine DivergesOnlyIf.bind (fun _ => trivial) fun _ => ?_
  refine DivergesOnlyIf.bind ?_ fun _ => fun _ => trivial
  unfold writeFile
  refine (divergesOnlyIf_writePages pages).bind fun _ => ?_
  refine DivergesOnlyIf.bind ?_ fun _ => divergesOnlyIf_pass id
  unfold setSize
  split
  · exact divergesOnlyIf_effect id _
  · exact divergesOnlyIf_pure _

/-- Fetching and applying a file: it diverges by the page size only. -/
theorem divergesOnlyIf_applyLtxFile (hc : c.Lawful)
    (hmoments : ∀ i, Faithful c U n (env.moment i).bucket)
    (hsize : pageSize ≠ U.pageSize.toNat → D) (info : FileInfo) :
    DivergesOnlyIf D (applyLtxFile env c opts pageSize info) := by
  unfold applyLtxFile
  refine divergesOnlyIf_request fun i => ?_
  split
  · exact divergesOnlyIf_pure _
  · rename_i body hopen
    obtain ⟨g, hbody, hg⟩ := (hmoments i).carries hopen
    refine (divergesOnlyIf_pass id).bind fun _ => ?_
    refine (divergesOnlyIf_pass id).bind fun _ => ?_
    refine (divergesOnlyIf_pass id).bind fun _ => ?_
    refine DivergesOnlyIf.bind ?_ fun _ => divergesOnlyIf_pure _
    rw [hbody, applySpooled_bytes hc]
    split
    · rename_i hne
      rw [hg.size] at hne
      exact divergesOnlyIf_throw fun _ => hsize (Ne.symm hne)
    · exact divergesOnlyIf_applyDecoded _ _

/-- Neither does writing the position. -/
theorem divergesOnlyIf_persist (current : Nat) :
    DivergesOnlyIf D (persist env fromTxid current) := by
  unfold persist
  split
  · refine DivergesOnlyIf.bind ?_ fun _ => divergesOnlyIf_pure _
    unfold advanceTxidFile
    refine (divergesOnlyIf_pass id).bind fun _ => ?_
    refine (divergesOnlyIf_pass id).bind fun _ => ?_
    refine (divergesOnlyIf_pass id).bind fun _ => ?_
    refine (divergesOnlyIf_effect id _).bind fun _ => fun s => ?_
    unfold passAnyway
    rw [spec_bind, spec_tick]
    cases (env.moment s.clock).turn with
    | done => trivial
    | failed => trivial
    | killed took => exact fun h => absurd h id
  · exact divergesOnlyIf_pure _

/-- A survey of levels of which one always has a file that reaches `t` finds that. -/
theorem survey_ge {t level : Nat} (hahead : ∀ i, ∃ x ∈ (env.moment i).bucket level, t ≤ x.maxTxid)
    (levels : List Nat) (m : Nat) (newest : Option FileInfo) (s : Follower) :
    Spec (survey env levels m newest) s (fun r _ => m ≤ r.1 ∧ (level ∈ levels → t ≤ r.1))
      fun halt _ => ¬ halt.Diverges := by
  induction levels generalizing s m newest with
  | nil => exact ⟨le_rfl, fun h => (by cases h)⟩
  | cons l levels ih =>
      unfold survey listLevel request
      rw [spec_bind, spec_bind, spec_bind, spec_tick]
      cases (env.moment s.clock).turn with
      | failed => exact id
      | killed took => exact id
      | done =>
          obtain ⟨hge, hall, -⟩ := foldl_max_spec ((env.moment s.clock).bucket.ltxFiles l 0) m
          refine (ih _ _ _).mono ?_ fun _ _ h => h
          rintro r s' ⟨hle, hmem⟩
          refine ⟨hge.trans hle, fun hlevel => ?_⟩
          rcases List.mem_cons.mp hlevel with rfl | hlevel
          · obtain ⟨x, hx, ht⟩ := hahead s.clock
            rw [Bucket.ltxFiles_zero] at hall hle
            exact (ht.trans (hall (x.info level) (List.mem_map_of_mem hx))).trans hle
          · exact hmem hlevel

/-- **When a round diverges.** A round over buckets of the history diverges only if the file on disk
has another page size or the bucket was behind: each level, when it was asked, had only files that
end before the position. -/
theorem divergesOnlyIf_followBucket (hc : c.Lawful)
    (hmoments : ∀ i, Faithful c U n (env.moment i).bucket)
    (hsize : pageSize ≠ U.pageSize.toNat → D)
    (hbehind : (∀ level ∈ allLevels, ∃ i, ∀ x ∈ (env.moment i).bucket level, x.maxTxid < fromTxid) →
      D) : DivergesOnlyIf D (followBucket env c opts pageSize fromTxid) := by
  have happly : ∀ info, DivergesOnlyIf D (applyLtxFile env c opts pageSize info) :=
    divergesOnlyIf_applyLtxFile hc hmoments hsize
  have hlevel : ∀ gapMin infos current,
      DivergesOnlyIf D (fillLevel env c opts pageSize gapMin infos current) := by
    intro gapMin infos
    -- each loop is gone through by induction on its files or levels; only the two hypotheses
    -- diverge
    induction infos with
    | nil => exact fun current => divergesOnlyIf_pure _
    | cons info infos ih =>
        intro current
        unfold fillLevel
        split
        · exact divergesOnlyIf_pure _
        · split
          · exact ih _
          · refine (divergesOnlyIf_pass id).bind fun _ => (happly info).bind fun done => ?_
            split
            · split
              · exact divergesOnlyIf_pure _
              · exact ih _
            · exact divergesOnlyIf_pure _
  -- the same over the levels of a gap
  have hgap : ∀ gapMin levels after saw404,
      DivergesOnlyIf D (fillFollowGap env c opts pageSize gapMin levels after saw404) := by
    intro gapMin levels after saw404
    induction levels with
    | nil => exact divergesOnlyIf_pure _
    | cons level levels ih =>
        unfold fillFollowGap
        refine divergesOnlyIf_listLevel fun i => (hlevel _ _ _).bind ?_
        rintro ⟨current, ended⟩
        cases ended with
        | filled => exact divergesOnlyIf_pure _
        | notFound => exact divergesOnlyIf_pure _
        | exhausted =>
            dsimp only
            split
            · exact divergesOnlyIf_pure _
            · exact ih
  -- and over the level 0 files, a gap closed where one is
  have hlevel0 : ∀ infos current saw404,
      DivergesOnlyIf D (applyLevel0 env c opts pageSize infos current saw404) := by
    intro infos
    induction infos with
    | nil => exact fun current saw404 => divergesOnlyIf_pure _
    | cons info infos ih =>
        intro current saw404
        unfold applyLevel0
        refine (divergesOnlyIf_pass id).bind fun _ => DivergesOnlyIf.bind ?_ ?_
        · unfold closeGap
          split
          · exact hgap _ _ _ _
          · exact divergesOnlyIf_pure _
        · rintro ⟨current, saw404⟩
          dsimp only
          split
          · exact ih _ _
          · split
            · exact divergesOnlyIf_pure _
            · refine (happly info).bind fun done => ?_
              split
              · exact ih _ _
              · exact divergesOnlyIf_pure _
  -- divergence proper is found by the survey, when the round has not moved
  have hfinish : ∀ current allow,
      DivergesOnlyIf D (finishIncremental env c opts pageSize fromTxid current allow) := by
    intro current allow
    unfold finishIncremental
    split
    · rename_i hsame
      by_cases hbelow : ∀ level ∈ allLevels, ∃ i, ∀ x ∈ (env.moment i).bucket level,
        x.maxTxid < fromTxid
      · exact divergesOnlyIf_of (hbehind hbelow) _
      · -- one level always has a file that reaches the position
        push Not at hbelow
        obtain ⟨level, hmem, hahead⟩ := hbelow
        intro s
        refine Spec.bind ((survey_ge hahead allLevels 0 none s).mono (fun _ _ h => h)
          fun halt _ h hdiv => absurd hdiv h) ?_
        rintro ⟨bucketMax, newest⟩ s₁ ⟨-, hge⟩
        have hge : fromTxid ≤ bucketMax := hge hmem
        dsimp only
        split
        · trivial
        · split
          · rename_i hlt
            rw [hsame.1] at hlt
            exact absurd hge (not_le.mpr hlt)
          · refine DivergesOnlyIf.bind ?_ (fun current => divergesOnlyIf_persist current) s₁
            unfold fallBack
            split
            · exact divergesOnlyIf_pure _
            · split
              · refine (divergesOnlyIf_pass id).bind fun _ => (happly _).bind fun done => ?_
                split
                · exact divergesOnlyIf_pure _
                · exact divergesOnlyIf_throw fun h => absurd h id
              · exact divergesOnlyIf_pure _
    · exact divergesOnlyIf_persist _
  unfold followBucket
  refine divergesOnlyIf_listLevel fun i => DivergesOnlyIf.bind ?_ fun r => hfinish _ _
  unfold applyListed
  split
  · refine (hgap _ _ _ _).bind ?_
    rintro ⟨current, saw404⟩
    exact divergesOnlyIf_pure _
  · exact hlevel0 _ _ _

/-- The same of a round that opens the file on disk first. -/
theorem incrementalSync_diverges (hc : c.Lawful)
    (hmoments : ∀ i, Faithful c U n (env.moment i).bucket) {s₀ f : Follower} {halt : Halt}
    (hrun : incrementalSync env c opts fromTxid s₀ = .error halt f) (hdiv : halt.Diverges) :
    readPageSize s₀.db ≠ some U.pageSize.toNat ∨
      ∀ level ∈ allLevels, ∃ i, ∀ x ∈ (env.moment i).bucket level, x.maxTxid < fromTxid := by
  have hspec : Spec (incrementalSync env c opts fromTxid) s₀ (fun _ _ => True) fun halt _ =>
      halt.Diverges → (readPageSize s₀.db ≠ some U.pageSize.toNat ∨
        ∀ level ∈ allLevels, ∃ i, ∀ x ∈ (env.moment i).bucket level, x.maxTxid < fromTxid) := by
    unfold incrementalSync pass effect
    rw [spec_bind, spec_bind, spec_tick]
    -- the first step of the round cannot diverge
    cases (env.moment s₀.clock).turn with
    | failed => exact fun h => absurd h id
    | killed took =>
        cases took with
        | false => exact fun h => absurd h id
        | true => exact fun h => absurd h id
    | done =>
        dsimp only
        rw [spec_modify, spec_bind, spec_get]
        dsimp only
        -- without a page size the round stops with another error
        split
        · exact fun h => absurd h id
        · rename_i pageSize hsize
          refine divergesOnlyIf_followBucket hc hmoments (fun hne => .inl ?_) .inr _
          rw [hsize]
          exact fun h => hne (Option.some.inj h)
  rw [Spec, hrun] at hspec
  exact hspec hdiv

end

end Replica

/-- How a restore as part of a sync ends: with its image and position in place; without a trace; or,
if it stops after its image was renamed into place, as `Replaced` says. -/
inductive RestoreOutcome (c : Codec) (opts : ReplicaOptions) (env : RestoreEnv) (fromTxid : Nat)
    (s : Site) : Except Halt SyncResult × Site → Prop where
  | returned {image : Bytes} {txid : Nat} (hprep : prepare c env = .ok (image, txid)) :
      RestoreOutcome c opts env fromTxid s
        (.ok ⟨true, fromTxid, txid⟩, ⟨⟨some image, some (txidLine txid)⟩, txid, true⟩)
  | untouched (halt : Halt) : RestoreOutcome c opts env fromTxid s (.error halt, s)
  | landed (halt : Halt) {image : Bytes} {txid : Nat} {disk : Disk}
      (hprep : prepare c env = .ok (image, txid)) (htake : env.Takes .rename)
      (hdisk : Replaced opts env image txid s.disk disk) :
      RestoreOutcome c opts env fromTxid s (.error halt, ⟨disk, txid, true⟩)

/-- The ghosts of a restore whose image gets into place. -/
theorem RestoreEnv.made_of_takes {env : RestoreEnv} {image : Bytes} {txid : Nat}
    (hprep : prepare c env = .ok (image, txid)) (htake : env.Takes .rename) :
    env.made c = some txid := by
  unfold RestoreEnv.made
  rw [hprep]
  rcases htake with hdone | hkilled
  · rw [hdone]
  · rw [hkilled]

/-- The ghosts of a restore whose image does not. -/
theorem RestoreEnv.made_of_not_takes {env : RestoreEnv}
    (h : ∀ image txid, prepare c env = .ok (image, txid) → ¬ env.Takes .rename) :
    env.made c = none := by
  unfold RestoreEnv.made
  split
  · rename_i image txid hprep hdone
    exact absurd (.inl hdone) (h image txid hprep)
  · rename_i image txid hprep hkilled
    exact absurd (.inr hkilled) (h image txid hprep)
  · rfl

/-- **A restore** ends in one of its outcomes. -/
theorem restoreSite_outcome (c : Codec) (opts : ReplicaOptions) (env : RestoreEnv) (fromTxid : Nat)
    (s : Site) : RestoreOutcome c opts env fromTxid s (restoreSite c opts env fromTxid s) := by
  have hreturns := fullRestore_returns c opts env s.disk
  unfold restoreSite
  by_cases hland : ∃ image txid, prepare c env = .ok (image, txid) ∧ env.Takes .rename
  · obtain ⟨image, txid, hprep, htake⟩ := hland
    have hdisk := fullRestore_disk opts hprep htake s.disk
    rw [RestoreEnv.made_of_takes hprep htake]
    unfold leftBy at hdisk
    cases hrun : fullRestore c opts env s.disk with
    -- the image is in place, and its position was written
    | ok txid' disk =>
        rw [Spec, hrun] at hreturns
        obtain ⟨image', hprep', -, rfl⟩ := hreturns
        obtain ⟨rfl, rfl⟩ := Prod.mk.inj (Except.ok.inj (hprep'.symm.trans hprep))
        exact .returned hprep
    -- the image is in place, and a later step failed
    | error halt disk =>
        rw [hrun] at hdisk
        exact .landed halt hprep htake hdisk
  · -- no image was renamed: the restore cannot have returned
    have hno : ∀ image txid, prepare c env = .ok (image, txid) → ¬ env.Takes .rename :=
      fun image txid hprep htake => hland ⟨image, txid, hprep, htake⟩
    have hkept := fullRestore_kept opts s.disk hno
    rw [RestoreEnv.made_of_not_takes hno]
    unfold leftBy at hkept
    cases hrun : fullRestore c opts env s.disk with
    | ok txid disk =>
        rw [Spec, hrun] at hreturns
        obtain ⟨image, hprep, hpass, -⟩ := hreturns
        exact absurd (.inl hpass) (hno image txid hprep)
    | error halt disk =>
        rw [hrun] at hkept
        obtain rfl : disk = s.disk := hkept
        exact .untouched halt

/-- How a sync ends. Without a database, or without a position, it restores or gives up; otherwise
it makes a round, after which only a round that diverged is followed by a restore. -/
inductive SyncOutcome (c : Codec) (opts : ReplicaOptions) (env : SyncEnv) (s : Site) :
    Except Halt SyncResult × Site → Prop where
  | refused (e : ReplicaError) (hdb : s.disk.db ≠ none)
      (hpos : ∀ txid, 1 ≤ txid → readTxidFile s.disk ≠ .ok txid) :
      SyncOutcome c opts env s (.error (.error e), s)
  | fresh {res : Except Halt SyncResult × Site} (hres : RestoreOutcome c opts env.restore 0 s res)
      (hpos : s.disk.db = none ∨ readTxidFile s.disk = .ok 0) : SyncOutcome c opts env s res
  | returned {db : Bytes} {fromTxid toTxid : Nat} {f : Follower} (hdb : s.disk.db = some db)
      (hpos : 1 ≤ fromTxid) (hread : readTxidFile s.disk = .ok fromTxid)
      (hrun : Replica.incrementalSync env c opts fromTxid ⟨db, s.disk.txid, 0, s.reached, s.rooted⟩
        = .ok toTxid f) : SyncOutcome c opts env s (.ok ⟨false, fromTxid, toTxid⟩, f.site)
  | restored {db : Bytes} {fromTxid : Nat} {halt : Halt} {f : Follower}
      {res : Except Halt SyncResult × Site} (hdb : s.disk.db = some db) (hpos : 1 ≤ fromTxid)
      (hread : readTxidFile s.disk = .ok fromTxid)
      (hrun : Replica.incrementalSync env c opts fromTxid ⟨db, s.disk.txid, 0, s.reached, s.rooted⟩
        = .error halt f) (hdiv : halt.Diverges)
      (hres : RestoreOutcome c opts env.restore fromTxid f.site res) : SyncOutcome c opts env s res
  | failed {db : Bytes} {fromTxid : Nat} {halt : Halt} {f : Follower} (hdb : s.disk.db = some db)
      (hpos : 1 ≤ fromTxid) (hread : readTxidFile s.disk = .ok fromTxid)
      (hrun : Replica.incrementalSync env c opts fromTxid ⟨db, s.disk.txid, 0, s.reached, s.rooted⟩
        = .error halt f) : SyncOutcome c opts env s (.error halt, f.site)

/-- **A sync** ends in one of its outcomes. -/
theorem syncWith_outcome (c : Codec) (opts : ReplicaOptions) (env : SyncEnv) (s : Site) :
    SyncOutcome c opts env s (syncWith c opts env s) := by
  unfold syncWith syncRoute
  -- the cases of syncWith in the order it decides them: no database, no position, a round
  cases hdb : s.disk.db with
  | none => exact .fresh (restoreSite_outcome ..) (.inl hdb)
  | some db =>
      have hsome : s.disk.db ≠ none := by rw [hdb]; exact Option.some_ne_none db
      cases hread : readTxidFile s.disk with
      | error e => exact .refused e hsome fun txid _ h => by rw [hread] at h; cases h
      | ok txid =>
          cases txid with
          | zero =>
              dsimp only
              -- a database without a position is restored over, or refused
              cases opts.autoReset with
              | true => exact .fresh (restoreSite_outcome ..) (.inr hread)
              | false =>
                  refine .refused _ hsome fun txid hpos h => ?_
                  rw [hread] at h
                  cases h
                  cases hpos
          | succ txid =>
              have hpos : 1 ≤ txid + 1 := Nat.le_add_left 1 txid
              dsimp only
              cases hrun : Replica.incrementalSync env c opts (txid + 1)
                  ⟨db, s.disk.txid, 0, s.reached, s.rooted⟩ with
              | ok toTxid f => exact .returned hdb hpos hread hrun
              | error halt f =>
                  -- only a missing file, with autoReset, leads to a restore
                  split
                  · rename_i heq
                    cases heq
                  · rename_i l r f' heq
                    cases heq
                    split
                    · exact .restored hdb hpos hread hrun trivial (restoreSite_outcome ..)
                    · exact .failed hdb hpos hread hrun
                  · rename_i halt' f' _ heq
                    cases heq
                    exact .failed hdb hpos hread hrun

/-- A sync that nothing disturbs makes its round. -/
theorem syncWith_of_road (opts : ReplicaOptions) {env : SyncEnv} {s : Site} {fromTxid : Nat}
    (hroad : Replica.Road c U n env U.pageSize.toNat fromTxid False) (hpos : 1 ≤ fromTxid)
    (hdb : s.disk.db = some db) (htxid : s.disk.txid = some (txidLine fromTxid))
    (hsize : Replica.readPageSize db = some U.pageSize.toNat) :
    ∃ r f, Replica.incrementalSync env c opts fromTxid
        ⟨db, s.disk.txid, 0, s.reached, s.rooted⟩ = .ok r f ∧
      Replica.RoundEnd env fromTxid 1 ⟨db, s.disk.txid, 0, s.reached, s.rooted⟩ r f ∧
      syncWith c opts env s = (.ok ⟨false, fromTxid, r⟩, f.site) := by
  have hspec : Spec (Replica.incrementalSync env c opts fromTxid)
      ⟨db, s.disk.txid, 0, s.reached, s.rooted⟩
      (Replica.RoundEnd env fromTxid 1 ⟨db, s.disk.txid, 0, s.reached, s.rooted⟩)
      (fun _ _ => False) := by
    refine Replica.Road.incrementalSync (n := n) opts _ (fun _ => hsize) fun pageSize hps => ?_
    obtain rfl : U.pageSize.toNat = pageSize := Option.some.inj (hsize.symm.trans hps)
    exact hroad
  have hlt := hroad.position
  have hread : readTxidFile s.disk = .ok fromTxid := readTxidFile_line (by omega) htxid
  obtain ⟨txid, rfl⟩ : ∃ q, fromTxid = q + 1 := ⟨fromTxid - 1, by omega⟩
  unfold syncWith syncRoute
  rw [hdb, hread]
  dsimp only
  cases hrun : Replica.incrementalSync env c opts (txid + 1)
      ⟨db, s.disk.txid, 0, s.reached, s.rooted⟩ with
  | ok r f =>
      rw [Spec, hrun] at hspec
      exact ⟨r, f, rfl, hspec, rfl⟩
  -- without trouble the round cannot stop
  | error halt f =>
      rw [Spec, hrun] at hspec
      exact hspec.elim

/-- **Incremental syncs agree with full restores.** A replica that holds the database of transaction
`fromTxid` syncs while buckets of the same history are shown to it, whatever they hold at each
request and wherever listed files are gone. If the sync returns, the file on disk is the database
that a full restore makes for the transaction it reports: of every restore that reports this
transaction, and of every bucket whose plan ends there, which then restores. The position does not
go back, unless the sync turned into a full restore because the bucket had fallen behind it (or had
another page size). -/
theorem syncWith_agrees (hc : c.Lawful) (hn : n < 2 ^ 64 - 1) {opts : ReplicaOptions}
    {env : SyncEnv} (hmoments : ∀ i, Faithful c U n (env.moment i).bucket)
    (hrestore : ∀ p, Faithful c U n (env.restore.bucket p)) {fromTxid : Nat} (hfrom : fromTxid ≤ n)
    (hdb : SameDatabase U.pageSize.toNat U.lock db (U.image fromTxid)) {result : SyncResult}
    {site : Site}
    (hsync : syncWith c opts env ⟨⟨some db, some (txidLine fromTxid)⟩, fromTxid, true⟩
      = (.ok result, site)) :
    ∃ db', site.disk = ⟨some db', some (txidLine result.toTxid)⟩ ∧
      (∀ renv : RestoreEnv, (∀ p, Faithful c U n (renv.bucket p)) → ∀ image,
        prepare c renv = .ok (image, result.toTxid) →
        SameDatabase U.pageSize.toNat U.lock db' image) ∧
      (∀ b : Bucket, Faithful c U n b → ∀ plan last, calcRestorePlan b.listing 0 = .ok plan →
        plan.getLast? = some last → last.maxTxid = result.toTxid → ∀ verdict, ∃ image,
        prepare c (calmEnv b verdict) = .ok (image, result.toTxid) ∧
          SameDatabase U.pageSize.toNat U.lock db' image) ∧
      (fromTxid ≤ result.toTxid ∨ result.restored = true ∧
        (Replica.readPageSize db ≠ some U.pageSize.toNat ∨ ∀ level ∈ Replica.allLevels, ∃ i,
          ∀ x ∈ (env.moment i).bucket level, x.maxTxid < fromTxid)) := by
  -- it is enough to know that the file on disk holds the transaction that is reported
  have hsuffices : ∀ {db' : Bytes} {txid : Nat}, Held U n txid txid db' →
      (∀ renv : RestoreEnv, (∀ p, Faithful c U n (renv.bucket p)) → ∀ image,
        prepare c renv = .ok (image, txid) → SameDatabase U.pageSize.toNat U.lock db' image) ∧
      (∀ b : Bucket, Faithful c U n b → ∀ plan last, calcRestorePlan b.listing 0 = .ok plan →
        plan.getLast? = some last → last.maxTxid = txid → ∀ verdict, ∃ image,
        prepare c (calmEnv b verdict) = .ok (image, txid) ∧
          SameDatabase U.pageSize.toNat U.lock db' image) := by
    intro db' txid hheld
    refine ⟨fun renv hb image hprep => hheld.agrees hc hn hb hprep, ?_⟩
    rintro b hb plan last hplan hlast rfl verdict
    obtain ⟨image, hprep⟩ := hb.prepare hc hn hplan hlast verdict
    exact ⟨image, hprep, hheld.agrees hc hn (fun _ => hb) hprep⟩
  have hrestored : ∀ {image : Bytes} {txid : Nat}, prepare c env.restore = .ok (image, txid) →
      Held U n txid txid image := by
    intro image txid hprep
    obtain ⟨-, hle, rfl⟩ := prepare_image hc hn hrestore hprep
    exact (sameDatabase_present _ _ _).held hle hn
  have hline : readTxidFile ⟨some db, some (txidLine fromTxid)⟩ = .ok fromTxid :=
    readTxidFile_line (by omega) rfl
  have houtcome := syncWith_outcome c opts env ⟨⟨some db, some (txidLine fromTxid)⟩, fromTxid, true⟩
  rw [hsync] at houtcome
  cases houtcome with
  | fresh hres hpos =>
      have hzero : fromTxid = 0 := by
        rcases hpos with hnone | hread
        · cases hnone
        · exact Except.ok.inj (hline.symm.trans hread)
      cases hres with
      | returned hprep =>
          exact ⟨_, rfl, (hsuffices (hrestored hprep)).1, (hsuffices (hrestored hprep)).2,
            .inl (by rw [hzero]; exact Nat.zero_le _)⟩
  | restored hdb' _ hread hrun hdiv hres =>
      rename_i db₀ txid halt f _
      obtain rfl : db = db₀ := Option.some.inj hdb'
      obtain rfl : fromTxid = txid := Except.ok.inj (hline.symm.trans hread)
      cases hres with
      | returned hprep =>
          exact ⟨_, rfl, (hsuffices (hrestored hprep)).1, (hsuffices (hrestored hprep)).2,
            .inr ⟨rfl, Replica.incrementalSync_diverges hc hmoments hrun hdiv⟩⟩
  | returned hdb' hpos hread hrun =>
      rename_i db₀ txid toTxid f
      obtain rfl : db = db₀ := Option.some.inj hdb'
      obtain rfl : fromTxid = txid := Except.ok.inj (hline.symm.trans hread)
      obtain ⟨hge, hend, -, -, htxid⟩ :=
        Replica.incrementalSync_held hc hn hmoments (hdb.held hfrom hn) hrun
      have hdisk : f.site.disk = ⟨some f.db, some (txidLine toTxid)⟩ := by
        show (⟨some f.db, f.txid⟩ : Disk) = _
        rcases htxid with ⟨rfl, htxid⟩ | ⟨-, htxid⟩
        · rw [htxid]
        · rw [htxid]
      exact ⟨f.db, hdisk, (hsuffices hend).1, (hsuffices hend).2, .inl hge⟩

/-! ## A database of one page -/

/-- The first page of a database of 512-byte pages that carries a stamp behind its header. -/
def stampedPage (stamp : UInt8) : Bytes :=
  pwrite (pwrite (List.replicate 512 0) 16 [2, 0]) 100 [stamp]

/-- A stamped page has 512 bytes. -/
theorem stampedPage_length (stamp : UInt8) : (stampedPage stamp).length = 512 := by
  rw [stampedPage, length_pwrite _ _ (List.cons_ne_nil _ _),
    length_pwrite _ _ (List.cons_ne_nil _ _), List.length_replicate]
  rfl

/-- Its stamp is at byte 100. -/
theorem byteAt_stampedPage (stamp : UInt8) : byteAt (stampedPage stamp) 100 = stamp :=
  byteAt_pwrite_of_mem (i := 0) _ Nat.one_pos

/-- It declares its page size. -/
theorem readPageSize_stampedPage (stamp : UInt8) :
    Replica.readPageSize (stampedPage stamp) = some 512 := by
  have h16 : byteAt (stampedPage stamp) 16 = 2 := by
    rw [stampedPage, byteAt_pwrite_of_not_mem _ (.inl (by decide))]
    exact byteAt_pwrite_of_mem (i := 0) _ Nat.two_pos
  have h17 : byteAt (stampedPage stamp) 17 = 0 := by
    rw [stampedPage, byteAt_pwrite_of_not_mem _ (.inl (by decide))]
    exact byteAt_pwrite_of_mem (i := 1) _ (Nat.lt_succ_self 1)
  rw [Replica.readPageSize, stampedPage_length, h16, h17]
  simp

/-- A stamped page makes a file. -/
theorem stampedRange_pagesOk (lo hi : UInt64) (stamp : UInt8) :
    PagesOk (onePageRangeHeader lo hi) 0 [(1, stampedPage stamp)] := by
  have hlock := onePageRangeHeader_lockPgno lo hi
  have hne : 1 ≠ (onePageRangeHeader lo hi).lockPgno := by
    rw [hlock]
    decide
  refine ⟨⟨Nat.one_pos, Nat.le_refl 1, stampedPage_length stamp, hne, ?_⟩, trivial⟩
  rw [SeqOk, hlock]
  split
  · rfl
  · exact Nat.one_pos

/-- The sample file commits one page. -/
theorem onePageRange_commit : (1 : UInt32) ≠ 0 := by decide

/-- A file of the transactions `lo, ..., hi` that leave the stamp. -/
def stampedRange (lo hi : UInt64) (hlo : lo ≠ 0) (hle : lo ≤ hi) (stamp : UInt8) : LtxFile where
  hdr := onePageRangeHeader lo hi
  pages := [(1, stampedPage stamp)]
  valid := onePageRangeHeader_valid hlo hle
  pagesOk := stampedRange_pagesOk lo hi stamp
  noChecksum := onePageRangeHeader_noChecksum lo hi
  commit_ne_zero := onePageRange_commit

/-- The stamped file holds the stamped page. -/
theorem stampedRange_page {lo hi : UInt64} (hlo : lo ≠ 0) (hle : lo ≤ hi) (stamp : UInt8) :
    (stampedRange lo hi hlo hle stamp).patch.page? 1 = some (stampedPage stamp) := by
  simp [LtxFile.patch, stampedRange]

/-- A writer that stamps the page in every transaction. -/
def stampedUploads (stamp : Nat → UInt8) : Uploads where
  pageSize := 512
  file t := stampedRange (txidOf t) (txidOf t) (txidOf_ne_zero t) (txidOf_le t) (stamp t)
  txid t hpos hlt :=
    ⟨toNat_txidOf hpos (hlt.trans (by decide)), toNat_txidOf hpos (hlt.trans (by decide))⟩
  size _ _ _ := rfl
  growing n _ t _ p hp hle _ := by
    have hle' : p ≤ 1 := hle
    obtain rfl : p = 1 := by omega
    exact Option.isSome_of_eq_some (stampedRange_page ..)

variable {stamp : Nat → UInt8}

/-- The stamped uploads have their lock page far behind. -/
theorem stampedUploads_lock (stamp : Nat → UInt8) : (stampedUploads stamp).lock = 2097153 := by
  show lockPgno (512 : UInt32).toNat = 2097153
  decide

/-- Every upload writes its stamp. -/
theorem stampedUploads_patch (t : Nat) :
    ((stampedUploads stamp).history.patch t).page? 1 = some (stampedPage (stamp t)) :=
  stampedRange_page (txidOf_ne_zero t) (txidOf_le t) (stamp t)

/-- The first page carries the stamp of the last upload. -/
theorem stampedUploads_page (ht : 1 ≤ t) :
    ((stampedUploads stamp).state t).page 1 = stampedPage (stamp t) := by
  obtain ⟨t, rfl⟩ : ∃ s, t = s + 1 := ⟨t - 1, by omega⟩
  rw [Uploads.state, History.state_page_succ, stampedUploads_patch, Option.getD_some]

/-- So does the image. -/
theorem stampedUploads_image (ht : 1 ≤ t) :
    (stampedUploads stamp).image t = stampedPage (stamp t) := by
  have hsize : ((stampedUploads stamp).state t).size = 1 := History.state_size ht
  have hlock : (1 : Nat) ≠ (stampedUploads stamp).lock := by
    rw [stampedUploads_lock]
    decide
  rw [Uploads.image, Image.toBytes, hsize, List.range'_one, List.flatMap_singleton, if_neg hlock,
    stampedUploads_page ht]

/-- TXIDs within 64 bits keep their order. -/
theorem txidOf_le_txidOf {lo hi : Nat} (hlo : 1 ≤ lo) (hle : lo ≤ hi) (hhi : hi < 2 ^ 64) :
    txidOf lo ≤ txidOf hi := by
  rw [UInt64.le_iff_toNat_le, toNat_txidOf hlo (lt_of_le_of_lt hle hhi),
    toNat_txidOf (hlo.trans hle) hhi]
  exact hle

/-- A file of the transactions `lo, ..., hi` in a bucket. -/
def stampedFile (c : Codec) (stamp : Nat → UInt8) (lo hi : Nat) : Stored :=
  if h : txidOf lo ≤ txidOf hi then
    ⟨lo, hi, none, (stampedRange (txidOf lo) (txidOf hi) (txidOf_ne_zero lo) h (stamp hi)).bytes c⟩
  else ⟨lo, hi, none, []⟩

/-- The range of a stamped file. -/
theorem stampedFile_key (c : Codec) (stamp : Nat → UInt8) (lo hi : Nat) :
    (stampedFile c stamp lo hi).minTxid = lo ∧ (stampedFile c stamp lo hi).maxTxid = hi := by
  unfold stampedFile
  split
  · exact ⟨rfl, rfl⟩
  · exact ⟨rfl, rfl⟩

/-- It is well formed. -/
theorem stampedFile_ok {lo hi : Nat} (hlo : 1 ≤ lo) (hle : lo ≤ hi) (hhi : hi ≤ n)
    (hn : n < 2 ^ 64 - 1) : StoredOk c (stampedUploads stamp) n (stampedFile c stamp lo hi) := by
  have h : txidOf lo ≤ txidOf hi := txidOf_le_txidOf hlo hle (by omega)
  unfold stampedFile
  rw [dif_pos h]
  refine ⟨hhi, _, rfl, rfl, toNat_txidOf hlo (by omega),
    toNat_txidOf (hlo.trans hle) (by omega), hlo, hle, rfl, fun p h0 hp _ => ?_⟩
  have hp' : p ≤ 1 := hp
  obtain rfl : p = 1 := by omega
  obtain ⟨hi, rfl⟩ : ∃ b, hi = b + 1 := ⟨hi - 1, by omega⟩
  have hnewest : (stampedUploads stamp).history.newestIn lo (hi + 1) 1
      = some (stampedPage (stamp (hi + 1))) := by
    rw [History.newestIn, if_neg (not_lt.mpr hle), stampedUploads_patch, Option.some_or]
  exact (stampedRange_page (txidOf_ne_zero lo) h _).trans hnewest.symm

/-- A bucket with a file for each of the ranges. -/
def stampedBucket (c : Codec) (stamp : Nat → UInt8) (ranges : Nat → List (Nat × Nat)) : Bucket :=
  fun level => (ranges level).map fun r => stampedFile c stamp r.1 r.2

/-- The stamped bucket holds the ranges asked for only. -/
theorem mem_stampedBucket {ranges : Nat → List (Nat × Nat)} {level : Nat} {x : Stored}
    (hx : x ∈ stampedBucket c stamp ranges level) : (x.minTxid, x.maxTxid) ∈ ranges level := by
  obtain ⟨r, hr, rfl⟩ := List.mem_map.mp hx
  obtain ⟨hmin, hmax⟩ := stampedFile_key c stamp r.1 r.2
  rw [hmin, hmax]
  exact hr

/-- It holds each of them. -/
theorem stampedFile_mem {ranges : Nat → List (Nat × Nat)} {level lo hi : Nat}
    (h : (lo, hi) ∈ ranges level) :
    stampedFile c stamp lo hi ∈ stampedBucket c stamp ranges level :=
  List.mem_map.mpr ⟨(lo, hi), h, rfl⟩

/-- Ranges within the first `n` transactions, in order at each level. -/
structure RangesOk (n : Nat) (ranges : Nat → List (Nat × Nat)) : Prop where
  files : ∀ level, ∀ r ∈ ranges level, 1 ≤ r.1 ∧ r.1 ≤ r.2 ∧ r.2 ≤ n
  sorted : ∀ level, (ranges level).Pairwise fun r r' => r.1 < r'.1
  snapshots : ∀ r ∈ ranges snapshotLevel, r.1 = 1

/-- **The stamped bucket** is faithful to the stamped uploads. -/
theorem stampedBucket_faithful {ranges : Nat → List (Nat × Nat)} (h : RangesOk n ranges)
    (hn : n < 2 ^ 64 - 1) : Faithful c (stampedUploads stamp) n (stampedBucket c stamp ranges) where
  files := by
    intro level x hx
    obtain ⟨r, hr, rfl⟩ := List.mem_map.mp hx
    obtain ⟨h1, h2, h3⟩ := h.files level r hr
    exact stampedFile_ok h1 h2 h3 hn
  sorted := by
    intro level
    rw [stampedBucket, List.pairwise_map]
    refine (h.sorted level).imp fun {r r'} hlt => .inl ?_
    rw [(stampedFile_key ..).1, (stampedFile_key ..).1]
    exact hlt
  snapshots := by
    intro x hx
    exact h.snapshots _ (mem_stampedBucket hx)

/-- The surroundings of a sync without trouble over a bucket that stays as it is. -/
def calmSync (b : Bucket) : SyncEnv := ⟨fun _ => ⟨b, .done, fun _ => 0⟩, calmEnv b "ok"⟩

/-- Nothing disturbs a round over a bucket that stays as it is. -/
theorem calmSync_road (hc : c.Lawful) (hn : n < 2 ^ 64 - 1) {b : Bucket} (hb : Faithful c U n b)
    (fromTxid : Nat) {level : Nat} {x : Stored} (hlevel : level ∈ Replica.allLevels)
    (hx : x ∈ b level) (hle : fromTxid ≤ x.maxTxid) :
    Replica.Road c U n (calmSync b) U.pageSize.toNat fromTxid False where
  lawful := hc
  bound := hn
  position := lt_of_le_of_lt (hle.trans (hb.files level x hx).range.2.2) hn
  faithful := fun _ => hb
  lasting := fun _ _ _ _ y hy _ => ⟨y, hy, rfl⟩
  calm := fun _ _ => rfl
  size := fun _ => rfl
  ahead := fun _ => ⟨level, hlevel, fun _ => ⟨x, hx, hle⟩⟩

/-- A file of the first transaction and one of the others up to `m`. -/
def twoRanges (m : Nat) : Nat → List (Nat × Nat) :=
  fun level => if level = 0 then [(1, 1), (2, m)] else []

section
variable {m : Nat}

/-- The first upload and all of them are two ranges. -/
theorem twoRanges_ok (hm : 2 ≤ m) : RangesOk m (twoRanges m) where
  files := by
    intro level r hr
    unfold twoRanges at hr
    split at hr
    · rcases List.mem_cons.mp hr with rfl | hr
      · exact ⟨le_rfl, le_rfl, Nat.le_of_succ_le hm⟩
      · rw [List.mem_singleton.mp hr]
        exact ⟨Nat.one_lt_two.le, hm, le_rfl⟩
    · cases hr
  sorted := by
    intro level
    unfold twoRanges
    split
    · exact List.pairwise_cons.mpr
        ⟨fun r hr => by rw [List.mem_singleton.mp hr]; exact Nat.one_lt_two,
        List.pairwise_singleton _ _⟩
    · exact .nil
  snapshots := by
    intro r hr
    cases hr

/-- The two files are restored together. -/
theorem twoRanges_plan (c : Codec) (stamp : Nat → UInt8) (hm : 2 ≤ m) (hlt : m < 2 ^ 64 - 1) :
    ∃ plan last, calcRestorePlan (stampedBucket c stamp (twoRanges m)).listing 0 = .ok plan ∧
      plan.getLast? = some last ∧ last.maxTxid = m := by
  have hfaithful : Faithful c (stampedUploads stamp) m (stampedBucket c stamp (twoRanges m)) :=
    stampedBucket_faithful (twoRanges_ok hm) hlt
  have hkey₁ := stampedFile_key c stamp 1 1
  have hkey₂ := stampedFile_key c stamp 2 m
  have hlisted : (stampedBucket c stamp (twoRanges m)).listing 0
      = [(stampedFile c stamp 1 1).info 0, (stampedFile c stamp 2 m).info 0] := by
    rw [Bucket.listing, Bucket.ltxFiles_zero]
    rfl
  have hplan := hfaithful.exists_plan hlt (f := (stampedFile c stamp 2 m).info 0) ?_ ?_
  · obtain ⟨plan, last, hrun, hlast, hmax⟩ := hplan
    exact ⟨plan, last, hrun, hlast, hmax.trans hkey₂.2⟩
  · refine ⟨[(stampedFile c stamp 1 1).info 0, (stampedFile c stamp 2 m).info 0],
      ⟨⟨_, rfl, hkey₁.1⟩, .cons_cons ?_ (.singleton _)⟩, fun f hf => ⟨0, Nat.zero_le _, ?_⟩, rfl⟩
    · refine (contiguous_iff ?_).mpr ⟨?_, ?_⟩
      · show (stampedFile c stamp 1 1).maxTxid < _
        rw [hkey₁.2]
        decide
      · show (stampedFile c stamp 2 m).minTxid ≤ (stampedFile c stamp 1 1).maxTxid + 1
        rw [hkey₂.1, hkey₁.2]
      · show (stampedFile c stamp 1 1).maxTxid < (stampedFile c stamp 2 m).maxTxid
        rw [hkey₁.2, hkey₂.2]
        exact hm
    · rw [hlisted]
      exact hf
  · rintro g ⟨level, -, hg⟩
    rw [Bucket.listing, Bucket.ltxFiles_zero] at hg
    obtain ⟨x, hx, rfl⟩ := List.mem_map.mp hg
    obtain ⟨-, -, hle⟩ := (twoRanges_ok hm).files level _ (mem_stampedBucket hx)
    show x.maxTxid ≤ (stampedFile c stamp 2 m).maxTxid
    rw [hkey₂.2]
    exact hle

end

/-- A replica at the first of two transactions catches up with the second one, and then it is the
database that a full restore makes. -/
theorem syncWith_agrees_twoFiles :
    ∃ result site, syncWith literalCodec ⟨.none, false, false⟩
        (calmSync (stampedBucket literalCodec .ofNat (twoRanges 2)))
        ⟨⟨some (stampedPage 1), some (txidLine 1)⟩, 1, true⟩ = (.ok result, site) ∧
      result.toTxid = 2 ∧
      ∃ db image, site.disk = ⟨some db, some (txidLine result.toTxid)⟩ ∧
        prepare literalCodec (calmEnv (stampedBucket literalCodec .ofNat (twoRanges 2)) "ok")
          = .ok (image, result.toTxid) ∧
        SameDatabase 512 2097153 db image := by
  have hb : Faithful literalCodec (stampedUploads .ofNat) 2
      (stampedBucket literalCodec .ofNat (twoRanges 2)) :=
    stampedBucket_faithful (twoRanges_ok le_rfl) (by decide)
  have hstart : SameDatabase (stampedUploads .ofNat).pageSize.toNat (stampedUploads .ofNat).lock
      (stampedPage 1) ((stampedUploads .ofNat).image 1) := by
    rw [stampedUploads_image le_rfl]
    exact .refl _ _ _
  have hmem : stampedFile literalCodec .ofNat 2 2 ∈
      stampedBucket literalCodec .ofNat (twoRanges 2) 0 :=
    stampedFile_mem (by decide)
  obtain ⟨hmin, hmax⟩ := stampedFile_key literalCodec .ofNat 2 2
  have hroad := calmSync_road literalCodec_lawful (by decide) hb 1 (by decide) hmem
    (by rw [hmax]; decide)
  obtain ⟨r, f, hrun, hend, hsync⟩ := syncWith_of_road ⟨.none, false, false⟩ hroad le_rfl rfl rfl
    (readPageSize_stampedPage 1) (s := ⟨⟨some (stampedPage 1), some (txidLine 1)⟩, 1, true⟩)
  obtain ⟨hge, hheld, -⟩ :=
    Replica.incrementalSync_held literalCodec_lawful (by decide) (fun _ => hb)
    (hstart.held (by decide) (by decide)) hrun
  have hr : r = 2 := by
    have hle : r ≤ 2 := hheld.bound
    have hne : r ≠ 1 := fun h => hend.noFile h _ hmem hmin
    omega
  subst hr
  obtain ⟨plan, last, hplan, hlast, hlastMax⟩ :=
    twoRanges_plan literalCodec .ofNat le_rfl (by decide)
  obtain ⟨db, hdisk, -, hagrees, -⟩ := syncWith_agrees literalCodec_lawful (by decide) (fun _ => hb)
    (fun _ => hb) (by decide : 1 ≤ 2) hstart hsync
  obtain ⟨image, hprep, hsame⟩ := hagrees _ hb plan last hplan hlast hlastMax "ok"
  rw [stampedUploads_lock] at hsame
  exact ⟨_, _, hsync, rfl, db, image, hdisk, hprep, hsame⟩

end Liters
