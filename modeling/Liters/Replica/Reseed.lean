import Liters.Replica.Interrupted

/-! # Reseeded buckets

A bucket may be wiped and filled again by a writer that starts over, while a replica still holds the
image and the position of the history before. A sync notices if all files end before its position,
or if they have another page size. It starts over by itself if it continues with a file that carries
every page. In the other cases the position alone does not tell the two histories apart. -/

namespace Liters

variable {c : Codec} {U : Uploads} {n p : Nat} {env : SyncEnv} {opts : ReplicaOptions} {db : Bytes}

/-- **Reseeded buckets are not followed.** A replica holds any image at a position `p`, and the
bucket now belongs to another history. As long as each sync on the old image finds the bucket behind
`p` or starts over with a file of every page, and careful syncs go on from there: when a sync
returns, the image is the new writer's database at the transaction it reports. -/
theorem reseededRun_labelled (hc : c.Lawful) (hn : n < 2 ^ 64 - 1) (hp : p < 2 ^ 64 - 1)
    {reached : Nat} {s : Site}
    (hrun : CarefulRun c U n ⟨⟨some db, some (txidLine p)⟩, reached, false⟩ s)
    (hof : env.Of c U n) (hcare : Careful c U opts env s) {result : SyncResult} {site : Site}
    (hsync : syncWith c opts env s = (.ok result, site)) :
    ∃ db', site.disk.db = some db' ∧
      SameDatabase U.pageSize.toNat U.lock db' (U.image result.toTxid) := by
  have hstart : Sound U n ⟨⟨some db, some (txidLine p)⟩, reached, false⟩ :=
    .inr ⟨p, rfl, hp, fun _ _ h => absurd h Bool.false_ne_true⟩
  have hstep := ((hrun.sound hc hn hstart).sync hc hn hof hcare).2
  rw [hsync] at hstep
  obtain ⟨db', hdb', hheld⟩ := hstep result rfl
  exact ⟨db', hdb', hheld.sameDatabase hn⟩

/-- Different positions have different lines. -/
theorem txidLine_injective : Function.Injective txidLine := by
  intro p q h
  exact txidText_injective (List.append_cancel_right h)

section
variable {stamp : Nat → UInt8} {m : Nat}

/-- One compacted file of all transactions. -/
def oneRange (m : Nat) : Nat → List (Nat × Nat) := fun level => if level = 1 then [(1, m)] else []

/-- One file of all uploads is a range. -/
theorem oneRange_ok (hm : 1 ≤ m) : RangesOk m (oneRange m) where
  files := by
    intro level r hr
    unfold oneRange at hr
    split at hr
    · rw [List.mem_singleton.mp hr]
      exact ⟨le_rfl, hm, le_rfl⟩
    · cases hr
  sorted := by
    intro level
    unfold oneRange
    split
    · exact List.pairwise_singleton _ _
    · exact .nil
  snapshots := fun r hr => (by cases hr)

/-- It stands at level 1. -/
theorem oneRange_mem (m : Nat) : (1, m) ∈ oneRange m 1 := List.mem_singleton.mpr rfl

/-- A sync on an image of another origin continues with the file of every page. -/
theorem oneRange_careful (hp : p < m) (hcheck : opts.integrityCheck = .none) (reached : Nat) :
    Careful c (stampedUploads stamp) opts (calmSync (stampedBucket c stamp (oneRange m)))
      ⟨⟨some db, some (txidLine p)⟩, reached, false⟩ where
  mends := fun h => absurd h Bool.false_ne_true
  foreign := by
    intro _ q db' _ htxid
    obtain rfl : p = q := txidLine_injective (Option.some.inj htxid)
    obtain ⟨hmin, hmax⟩ := stampedFile_key c stamp 1 m
    refine .inr ⟨fun _ _ _ _ x hx _ => ⟨x, hx, rfl⟩, .inr (.inl ⟨1, by decide, _,
      stampedFile_mem (oneRange_mem m), ?_, ?_⟩), fun _ _ level x hx _ => ?_⟩
    · show (stampedFile c stamp 1 m).minTxid ≤ p + 1
      omega
    · show p < (stampedFile c stamp 1 m).maxTxid
      omega
    · have hmem : (x.minTxid, x.maxTxid) ∈ oneRange m level := mem_stampedBucket hx
      unfold oneRange at hmem
      split at hmem
      · exact (Prod.mk.inj (List.mem_singleton.mp hmem)).1
      · cases hmem
  restores := calmEnv_uncut _ c hcheck

end

/-- A replica at the second transaction of one history, over a bucket with a single file of three
transactions of another one: the sync writes every page, and reports where it then is. -/
theorem reseededRun_labelled_oneFile :
    ∃ result site, syncWith literalCodec ⟨.none, false, false⟩
        (calmSync (stampedBucket literalCodec .ofNat (oneRange 3)))
        ⟨⟨some (stampedPage 77), some (txidLine 2)⟩, 2, false⟩ = (.ok result, site) ∧
      ∃ db, site.disk.db = some db ∧
        SameDatabase (stampedUploads .ofNat).pageSize.toNat (stampedUploads .ofNat).lock db
          ((stampedUploads .ofNat).image result.toTxid) := by
  have hb : Faithful literalCodec (stampedUploads .ofNat) 3
      (stampedBucket literalCodec .ofNat (oneRange 3)) :=
    stampedBucket_faithful (oneRange_ok (by decide)) (by decide)
  have hroad := calmSync_road literalCodec_lawful (by decide) hb 2 (by decide)
    (stampedFile_mem (oneRange_mem 3)) (by rw [(stampedFile_key ..).2]; decide)
  obtain ⟨r, f, -, -, hsync⟩ := syncWith_of_road ⟨.none, false, false⟩ hroad (by decide) rfl rfl
    (readPageSize_stampedPage 77) (s := ⟨⟨some (stampedPage 77), some (txidLine 2)⟩, 2, false⟩)
  exact ⟨_, _, hsync, reseededRun_labelled literalCodec_lawful (by decide) (by decide) .start
    ⟨fun _ => hb, fun _ => hb⟩ (oneRange_careful (by decide) rfl 2) hsync⟩

/-- A replica at the second transaction of one history, over a bucket with two transactions of
another one: nothing continues its position, nothing is behind it, and the sync reports the second
transaction over the page of the first history. -/
theorem reseeded_sync_follows :
    Faithful literalCodec (stampedUploads .ofNat) 2
      (stampedBucket literalCodec .ofNat (twoRanges 2)) ∧
      SameDatabase 512 (stampedUploads fun _ => 77).lock (stampedPage 77)
        ((stampedUploads fun _ => 77).image 2) ∧
      ∃ site, syncWith literalCodec ⟨.none, false, true⟩
          (calmSync (stampedBucket literalCodec .ofNat (twoRanges 2)))
          ⟨⟨some (stampedPage 77), some (txidLine 2)⟩, 2, false⟩ = (.ok ⟨false, 2, 2⟩, site) ∧
        site.disk = ⟨some (stampedPage 77), some (txidLine 2)⟩ ∧
        ¬ SameDatabase 512 (stampedUploads .ofNat).lock (stampedPage 77)
          ((stampedUploads .ofNat).image 2) := by
  have hb : Faithful literalCodec (stampedUploads .ofNat) 2
      (stampedBucket literalCodec .ofNat (twoRanges 2)) :=
    stampedBucket_faithful (twoRanges_ok le_rfl) (by decide)
  refine ⟨hb, ?_, ?_⟩
  · rw [stampedUploads_image (by decide)]
    exact .refl _ _ _
  · have hroad := calmSync_road literalCodec_lawful (by decide) hb 2 (by decide)
      (stampedFile_mem (show (2, 2) ∈ twoRanges 2 0 by decide)) (by rw [(stampedFile_key ..).2])
    obtain ⟨r, f, -, hend, hsync⟩ := syncWith_of_road ⟨.none, false, true⟩ hroad (by decide) rfl rfl
      (readPageSize_stampedPage 77) (s := ⟨⟨some (stampedPage 77), some (txidLine 2)⟩, 2, false⟩)
    have hstay : ¬ 2 < r := by
      intro hlt
      have hnone : ¬ (stampedBucket literalCodec .ofNat (twoRanges 2)).Onward 2 :=
        twoRanges_not_onward le_rfl
      refine hnone ?_
      rcases hend.moved hlt with h | ⟨level, hlevel, _, h⟩ | ⟨_, h⟩
      · exact .inl h
      · exact .inr (.inl ⟨level, hlevel, h⟩)
      · exact .inr (.inr h)
    obtain rfl : r = 2 := le_antisymm (not_lt.mp hstay) hend.ge
    obtain ⟨hdb, htxid⟩ := hend.idle rfl
    refine ⟨f.site, hsync, ?_, fun hsame => ?_⟩
    · show Disk.mk (some f.db) f.txid = _
      rw [hdb, htxid]
    · rw [stampedUploads_image (by decide), stampedUploads_lock] at hsame
      have hbyte := hsame.byte 100 (by rw [stampedPage_length]; decide)
        (by unfold MaskedByte; decide)
        (by decide)
      rw [byteAt_stampedPage, byteAt_stampedPage] at hbyte
      exact absurd hbyte (by decide)

end Liters
