import Liters.Maintenance.Safety

/-! # Maintenance never breaks restorability

The newest snapshot, level 1 and level 0 together cover every transaction up to the last upload, so
the planner finds a chain; the chain merges into a complete snapshot, which materialises as the
state of that transaction. -/

namespace Liters

variable {c : Codec} {U : Uploads} {w : World}

/-- The latest state can be restored: the planner finds a plan that ends at the last upload, and its
merge materialises as the state of that transaction. -/
def Restorable (c : Codec) (U : Uploads) (w : World) : Prop :=
  ∃ plan last body, calcRestorePlan w.bucket.listing 0 = .ok plan ∧ plan.getLast? = some last ∧
    last.maxTxid = w.uploaded ∧ w.bucket.mergeFiles c plan = .ok body ∧
    decodeDatabaseTo c body = .ok ((U.state w.uploaded).toBytes U.lock U.zero)

/-- Level 0 holds one file for every transaction from some point to the last upload. -/
def GaplessSuffix (w : World) : Prop :=
  ∃ lo, 1 ≤ lo ∧ (1 ≤ w.uploaded → lo ≤ w.uploaded) ∧
    (w.bucket 0).map Stored.key
      = (List.range' lo (w.uploaded + 1 - lo)).map fun txid => (txid, txid)

/-- A step keeps the newest snapshot, and no level becomes empty. -/
structure Kept (w w' : World) : Prop where
  newest : ∀ s ∈ w.bucket snapshotLevel, (∀ x ∈ w.bucket snapshotLevel, x.maxTxid ≤ s.maxTxid) →
    ∃ s' ∈ w'.bucket snapshotLevel, s'.key = s.key
  levels : ∀ level, w.bucket level ≠ [] → w'.bucket level ≠ []

/-! ## What a request keeps -/

/-- What is there is kept. -/
theorem Kept.refl (w : World) : Kept w w := ⟨fun s hs _ => ⟨s, hs, rfl⟩, fun _ h => h⟩

/-- A PUT keeps every key. -/
theorem kept_put (w : World) (level : Nat) (s : Stored) : Kept w (w.act (.put level s)) where
  newest x hx _ := by
    by_cases hl : snapshotLevel = level
    · subst hl
      rw [World.act_put_same]
      exact Bucket.mem_insertFile.2.1 hx
    · rw [World.act_put_of_ne w s hl]
      exact ⟨x, hx, rfl⟩
  levels l hne := by
    by_cases hl : l = level
    · subst hl
      rw [World.act_put_same]
      exact List.ne_nil_of_mem (Bucket.mem_insertFile (x := s)).2.2
    · rwa [World.act_put_of_ne w s hl]

/-- A DELETE that leaves the last file of a level keeps the level and its newest file. -/
theorem kept_delete (h : Inv c U w) {level minTxid maxTxid : Nat} {last : Stored}
    (hlast : (w.bucket level).getLast? = some last) (hne : last.key ≠ (minTxid, maxTxid)) :
    Kept w (w.act (.delete level minTxid maxTxid)) where
  newest x hx hmax := by
    by_cases hl : snapshotLevel = level
    · subst hl
      rw [World.act_delete_same]
      refine ⟨last, List.mem_of_getLast? (getLast?_filter hlast (by simpa using hne)), ?_⟩
      have hmem := List.mem_of_getLast? hlast
      have hend : endTxid (w.bucket snapshotLevel) = last.maxTxid := by
        rw [endTxid, hlast]
        rfl
      have h1 := maxTxid_le_endTxid (h.sorted _) h.snapshots hx
      have h2 := hmax last hmem
      rw [Stored.key, Stored.key, h.snapshots x hx, h.snapshots last hmem]
      congr 1
      omega
    · rw [World.act_delete_of_ne w _ _ hl]
      exact ⟨x, hx, rfl⟩
  levels l hl' := by
    by_cases hl : l = level
    · subst hl
      rw [World.act_delete_same]
      exact List.ne_nil_of_mem (List.mem_of_getLast? (getLast?_filter hlast (by simpa using hne)))
    · rwa [World.act_delete_of_ne w _ _ hl]

/-- The first file of a sorted level is not its last one, if there are others. -/
theorem exists_last_ne {s : Stored} {rest : List Stored} (h : (s :: rest).Pairwise Stored.Before)
    (hne : rest ≠ []) :
    ∃ last, (s :: rest).getLast? = some last ∧ last.key ≠ (s.minTxid, s.maxTxid) := by
  obtain ⟨init, last, rfl⟩ := (List.eq_nil_or_concat' rest).resolve_left hne
  have hbefore := (List.pairwise_cons.mp h).1 last (by simp)
  refine ⟨last, by rw [← List.cons_append, List.getLast?_concat], fun hkey => ?_⟩
  rw [Stored.key, Prod.mk.injEq] at hkey
  unfold Stored.Before at hbefore
  omega

/-- **One request** keeps the newest snapshot and empties no level. -/
theorem Inv.kept {m : Mutation} (h : Inv c U w) (hm : Allowed c U w m) : Kept w (w.act m) := by
  cases hm with
  | upload s => exact kept_put w 0 s
  | compactL0 s => exact kept_put w 1 s
  | compact level s => exact kept_put w level s
  | snapshot s => exact kept_put w snapshotLevel s
  | retireL0 s rest heq hne =>
      obtain ⟨last, hlast, hkey⟩ := exists_last_ne (heq ▸ h.sorted 0) hne
      exact kept_delete h (heq ▸ hlast) hkey
  | retireL1 s rest heq hne =>
      obtain ⟨last, hlast, hkey⟩ := exists_last_ne (heq ▸ h.sorted 1) hne
      exact kept_delete h (heq ▸ hlast) hkey
  | retire level minTxid maxTxid last hlow hlast hne => exact kept_delete h hlast hne

/-! ## Level 0 -/

/-- A gapless run of single transactions, key by key. -/
theorem map_key_of_isChain {s : Stored} {files : List Stored}
    (h : (s :: files).IsChain Stored.Next) (hsingle : ∀ x ∈ s :: files, x.minTxid = x.maxTxid) :
    (s :: files).map Stored.key
        = (List.range' s.minTxid (files.length + 1)).map (fun txid => (txid, txid)) ∧
      endTxid (s :: files) = s.minTxid + files.length := by
  induction files generalizing s with
  | nil =>
      have hs := hsingle s (List.mem_cons_self ..)
      refine ⟨?_, hs.symm⟩
      simp [Stored.key, hs]
  | cons x files ih =>
      rw [List.isChain_cons_cons] at h
      have hs := hsingle s (List.mem_cons_self ..)
      have hx : x.minTxid = s.minTxid + 1 := by
        have : x.minTxid = s.maxTxid + 1 := h.1
        omega
      obtain ⟨hkeys, hend⟩ := ih h.2 fun y hy => hsingle y (List.mem_cons_of_mem _ hy)
      have hsplit : List.range' s.minTxid (files.length + 1 + 1)
          = s.minTxid :: List.range' (s.minTxid + 1) (files.length + 1) := List.range'_succ
      rw [endTxid_cons (List.cons_ne_nil _ _), hend, List.map_cons, hkeys, hx, List.length_cons,
        hsplit, List.map_cons, Stored.key, ← hs]
      exact ⟨rfl, by omega⟩

/-- The invariant leaves a gapless suffix to restore from. -/
theorem Inv.gaplessSuffix (h : Inv c U w) : GaplessSuffix w := by
  cases heq : w.bucket 0 with
  | nil =>
      have hend := h.l0_end
      rw [heq, endTxid_nil] at hend
      refine ⟨1, Nat.le_refl 1, fun hn => by omega, ?_⟩
      rw [heq, ← hend]
      rfl
  | cons s rest =>
      obtain ⟨hkeys, hend⟩ := map_key_of_isChain (heq ▸ h.l0) (heq ▸ h.l0_single)
      have hrange := (h.files 0 s (heq ▸ List.mem_cons_self ..)).range
      have hup := h.l0_end
      rw [heq, hend] at hup
      refine ⟨s.minTxid, hrange.1, fun _ => by omega, ?_⟩
      rw [heq, hkeys]
      congr 2
      omega

/-! ## Restoring -/

/-- It makes the bucket's listings well formed. -/
theorem Inv.listingOk (h : Inv c U w) : ListingOk w.bucket.listing where
  sorted level := by
    rw [Bucket.listing, Bucket.ltxFiles_zero, List.pairwise_map]
    refine (h.sorted level).imp fun {s t} hst => ?_
    unfold Stored.Before at hst
    simp only [Stored.info]
    omega
  range level f hf := by
    rw [Bucket.listing, Bucket.ltxFiles_zero] at hf
    obtain ⟨s, hs, rfl⟩ := List.mem_map.mp hf
    obtain ⟨h1, h2, h3⟩ := (h.files level s hs).range
    have := h.bound
    exact ⟨h1, h2, by simp only [Stored.info]; omega⟩
  snapshots f hf := by
    rw [Bucket.listing, Bucket.ltxFiles_zero] at hf
    obtain ⟨s, hs, rfl⟩ := List.mem_map.mp hf
    exact h.snapshots s hs

/-- A stored file is listed. -/
theorem mem_listing {level : Nat} {s : Stored} (hs : s ∈ w.bucket level) :
    s.info level ∈ w.bucket.listing level := by
  rw [Bucket.listing, Bucket.ltxFiles_zero]
  exact List.mem_map_of_mem hs

/-- Every transaction up to the last upload lies in a listed file. -/
theorem Inv.exists_listed (h : Inv c U w) {t : Nat} (hpos : 1 ≤ t) (hle : t ≤ w.uploaded) :
    ∃ f, Listed w.bucket.listing f ∧ f.minTxid ≤ t ∧ t ≤ f.maxTxid := by
  by_cases h9 : t ≤ endTxid (w.bucket snapshotLevel)
  · -- within the newest snapshot
    rcases List.eq_nil_or_concat' (w.bucket snapshotLevel) with hnil | ⟨init, s, heq⟩
    · rw [hnil, endTxid_nil] at h9
      omega
    · have hs : s ∈ w.bucket snapshotLevel := by simp [heq]
      rw [heq, endTxid_append_singleton] at h9
      exact ⟨_, ⟨snapshotLevel, Nat.le_refl _, mem_listing hs⟩,
        (h.snapshots s hs).trans_le hpos, h9⟩
  · by_cases h1 : t ≤ endTxid (w.bucket 1)
    · obtain ⟨s, hs, hrange⟩ := exists_mem_of_isChain h.l1 h.l1_start (Nat.not_le.mp h9) h1
      exact ⟨_, ⟨1, by decide, mem_listing hs⟩, hrange⟩
    · obtain ⟨s, hs, hrange⟩ := exists_mem_of_isChain h.l0 h.l0_start (Nat.not_le.mp h1)
        (h.l0_end ▸ hle)
      exact ⟨_, ⟨0, by decide, mem_listing hs⟩, hrange⟩

/-- Listed files that cover a stretch of transactions contain a chain to its end. -/
theorem exists_chain {files : Listing} (hfiles : ListingOk files) {n : Nat}
    (hcover : ∀ t, 1 ≤ t → t ≤ n → ∃ f, Listed files f ∧ f.minTxid ≤ t ∧ t ≤ f.maxTxid)
    {m : Nat} (hm : m < n) :
    ∃ f fs, f.minTxid ≤ m + 1 ∧ m < f.maxTxid ∧ (f :: fs).IsChain Contiguous ∧
      (∀ x ∈ f :: fs, Listed files x) ∧
      n ≤ ((f :: fs).getLast (List.cons_ne_nil _ _)).maxTxid := by
  -- the next file moves the covered end on, so the rest of the stretch shrinks
  induction hk : n - m using Nat.strong_induction_on generalizing m with
  | _ k ih =>
      obtain ⟨f, hf, hmin, hmax⟩ := hcover (m + 1) (by omega) (by omega)
      by_cases hend : n ≤ f.maxTxid
      · exact ⟨f, [], hmin, hmax, .singleton f, by simpa using hf, hend⟩
      · obtain ⟨g, gs, hgmin, hgmax, hchain, hlisted, hlast⟩ :=
          ih (n - f.maxTxid) (by omega) (Nat.not_le.mp hend) rfl
        refine ⟨f, g :: gs, hmin, hmax, List.isChain_cons_cons.mpr ⟨?_, hchain⟩, ?_, ?_⟩
        · obtain ⟨level, -, hmem⟩ := hf
          exact (contiguous_iff (hfiles.range level f hmem).2.2).mpr ⟨hgmin, hgmax⟩
        · intro x hx
          rcases List.mem_cons.mp hx with rfl | hx
          · exact hf
          · exact hlisted x hx
        · rwa [List.getLast_cons (List.cons_ne_nil _ _)]

/-- No listed file reaches beyond the last upload. -/
theorem Inv.maxTxid_le (h : Inv c U w) {f : FileInfo} (hf : Listed w.bucket.listing f) :
    f.maxTxid ≤ w.uploaded := by
  obtain ⟨level, -, hmem⟩ := hf
  rw [Bucket.listing, Bucket.ltxFiles_zero] at hmem
  obtain ⟨s, hs, rfl⟩ := List.mem_map.mp hmem
  exact (h.files level s hs).range.2.2

/-- The planner finds a plan that ends at the last upload. -/
theorem Inv.exists_plan (h : Inv c U w) (hn : 1 ≤ w.uploaded) :
    ∃ plan last, calcRestorePlan w.bucket.listing 0 = .ok plan ∧ PlanOk w.bucket.listing 0 plan ∧
      plan.getLast? = some last ∧ last.maxTxid = w.uploaded := by
  obtain ⟨f, fs, hmin, -, hchain, hlisted, hend⟩ := exists_chain h.listingOk
    (fun t h1 h2 => h.exists_listed h1 h2) (m := 0) hn
  have hlast : (f :: fs).getLast? = some ((f :: fs).getLast (List.cons_ne_nil _ _)) :=
    List.getLast?_eq_some_getLast _
  obtain ⟨level, -, hmem⟩ := hlisted f (List.mem_cons_self ..)
  have hfmin : f.minTxid = 1 := Nat.le_antisymm hmin (h.listingOk.range level f hmem).1
  have hhas : HasChain w.bucket.listing ((f :: fs).getLast (List.cons_ne_nil _ _)) :=
    ⟨f :: fs, ⟨⟨f, rfl, hfmin⟩, hchain⟩, hlisted, hlast⟩
  rcases calcRestorePlan_cases h.listingOk 0 with ⟨plan, hrun, hok⟩ | ⟨-, hnone⟩
  · obtain ⟨last, hplast, -, hall⟩ := hok.last
    refine ⟨plan, last, hrun, hok, hplast, Nat.le_antisymm ?_ ?_⟩
    · exact h.maxTxid_le (hok.listed last (List.mem_of_getLast? hplast))
    · exact hend.trans (hall rfl _ (hlisted _ (List.getLast_mem _)))
  · obtain ⟨g, hg, hlt⟩ := (hnone _ hhas).2 rfl
    have := h.maxTxid_le hg
    omega

/-- **Restoring** a bucket with the invariant gives the state of the last upload. -/
theorem Inv.restorable (hc : c.Lawful) (h : Inv c U w) (hn : 1 ≤ w.uploaded) :
    Restorable c U w := by
  obtain ⟨plan, last, hrun, hok, hlast, hmax⟩ := h.exists_plan hn
  obtain ⟨f, hf, hfirst⟩ := hok.first
  obtain ⟨fs, rfl⟩ : ∃ fs, plan = f :: fs := List.head?_eq_some_iff.mp hf
  have hlisted : ∀ x ∈ f :: fs, w.bucket.Has x := by
    intro x hx
    obtain ⟨level, -, hmem⟩ := hok.listed x hx
    rw [Bucket.listing, Bucket.ltxFiles_zero] at hmem
    obtain ⟨s, hs, rfl⟩ := List.mem_map.mp hmem
    exact ⟨s, hs, rfl⟩
  have hpos : ∀ x ∈ f :: fs, 1 ≤ x.minTxid := by
    intro x hx
    obtain ⟨level, -, hmem⟩ := hok.listed x hx
    exact (h.listingOk.range level x hmem).1
  have hfmin : f.minTxid = 1 := by
    rcases hfirst with hsnap | hle
    · exact h.listingOk.snapshots f hsnap
    · exact Nat.le_antisymm hle (hpos f (List.mem_cons_self ..))
  obtain ⟨hmerge, hspec⟩ := h.filed.mergeFiles hc hlisted fun x hx =>
    hfmin.trans_le (hpos x (List.mem_cons_of_mem _ hx))
  obtain ⟨body, hbody⟩ := hmerge hok.chain
  obtain ⟨-, g, hg, hcar⟩ := hspec body hbody
  have hend : ((f :: fs).getLast (List.cons_ne_nil _ _)).maxTxid = w.uploaded := by
    rw [List.getLast?_eq_some_getLast (List.cons_ne_nil _ _)] at hlast
    rw [Option.some.inj hlast, hmax]
  refine ⟨f :: fs, last, body, hrun, hlast, hmax, hbody, ?_⟩
  -- the merge is a complete snapshot, exact for all transactions
  have hmin : g.hdr.minTxid = 1 := by
    refine UInt64.toNat_inj.mp ?_
    rw [hcar.minTxid]
    exact hfmin
  have hexact : U.history.Exact U.lock 1 w.uploaded g.patch := by
    have he := hcar.exact
    rwa [hcar.minTxid, hcar.maxTxid, hfmin, hend] at he
  have hgrow : U.history.Growing U.lock w.uploaded := U.growing _ h.bound
  have hlock := hcar.lock
  have hcomplete : g.patch.Complete g.lock := by
    rw [hlock]
    exact hexact.covers hgrow (Nat.le_refl _) (t := 0) (Nat.le_refl 1) (Nat.zero_le _)
  have hagree := hexact.agreeOff hgrow (Nat.le_refl _) (t := 0) (Nat.le_refl 1) (Nat.zero_le _)
  rw [hg, decodeDatabaseTo_bytes hc (by simp [Header.isSnapshot, hmin]) hcomplete (U.state 0),
    hlock, hcar.size]
  exact congrArg Except.ok hagree.toBytes_eq

/-- **Maintenance never breaks restorability.** In every world that uploads, compactions, snapshots,
retention and whole maintenance runs reach from the empty bucket, each cut after any number of
requests: once something is uploaded the latest state can be restored, and it is the state of the
last upload; level 0 is a gapless suffix that ends there; and no single request of any operation
deletes the newest snapshot or empties a level. -/
theorem reachable_restorable (hc : c.Lawful) (h : Reachable c U w) :
    (1 ≤ w.uploaded → Restorable c U w) ∧ GaplessSuffix w ∧
      ∀ (op : Operation U) (k : Nat), Kept (op.cut c k w) (op.cut c (k + 1) w) := by
  have hinv := h.inv hc
  refine ⟨hinv.restorable hc, hinv.gaplessSuffix, fun op k => ?_⟩
  have hall := op.requests_allowed hc hinv
  rcases hall.take_succ k with heq | ⟨m, hm, heq⟩
  · rw [Operation.cut, Operation.cut, heq]
    exact .refl _
  · rw [Operation.cut, Operation.cut, heq]
    exact (hall.keeps_take inv_step hinv k).kept hm

/-! ## A database of one page -/

/-- A writer that rewrites the page in every transaction. -/
def onePageUploads : Uploads where
  pageSize := 512
  file t := onePageRange (txidOf t) (txidOf t) (txidOf_ne_zero t) (txidOf_le t)
  txid t hpos hlt :=
    ⟨toNat_txidOf hpos (hlt.trans (by decide)), toNat_txidOf hpos (hlt.trans (by decide))⟩
  size _ _ _ := rfl
  growing n _ t _ p hp hle _ := by
    have hle' : p ≤ 1 := hle
    obtain rfl : p = 1 := by omega
    exact Option.isSome_of_eq_some (onePageRange_page ..)

/-- Its snapshots. -/
def onePageSnapshots : SnapshotSource onePageUploads where
  file t := onePageRange 1 (txidOf t) (by decide) (one_le_txidOf t)
  full t hpos hlt := by
    obtain ⟨t, rfl⟩ : ∃ s, t = s + 1 := ⟨t - 1, by omega⟩
    refine ⟨rfl, toNat_txidOf hpos (hlt.trans (by decide)), rfl, rfl, fun p h0 hp _ => ?_⟩
    have hp' : p ≤ 1 := hp
    obtain rfl : p = 1 := by omega
    have hpatch : (onePageUploads.history.patch (t + 1)).page? 1 = some unrepeatedPage :=
      onePageRange_page _ _ (txidOf_ne_zero _) (txidOf_le _)
    rw [onePageRange_page, Uploads.state, History.state_page_succ, hpatch, Option.getD_some]

/-- Two uploads and a snapshot, then retention cut short: the second state restores. -/
theorem reachable_restorable_onePage :
    ∃ w, Reachable literalCodec onePageUploads w ∧ w.uploaded = 2 ∧
      Restorable literalCodec onePageUploads w := by
  have hstart := Reachable.start (c := literalCodec) (U := onePageUploads)
  have hsnapshot := (hstart.step (.upload none) 1).step (.snapshot onePageSnapshots [none] none) 2
  have hretention := hsnapshot.step (.enforceRetention {} 0) 1
  refine ⟨_, hretention, ?_, (reachable_restorable literalCodec_lawful hretention).1 ?_⟩
  · rfl
  · exact (by decide : 1 ≤ 2)

end Liters
