import Liters.Replica.Agreement

/-! # Catching up

A replica syncs again and again with a bucket that stays as it is. The planner finds a chain through
every level at once; a round looks for the level-0 file right behind its position, then for a file
of the levels 1 to 8 that continues it, then for a newer snapshot. So it gets ahead exactly if there
is one of these (`Onward`), and it catches up from everywhere exactly if there is one at every
position. -/

namespace Liters

/-- Nothing disturbs the sync, and the bucket stays as it is. -/
structure SyncEnv.Still (b : Bucket) (env : SyncEnv) : Prop where
  bucket : ∀ i, (env.moment i).bucket = b
  turn : ∀ i, (env.moment i).turn = .done

/-- The replica after some syncs, one after the other. -/
def afterSyncs (c : Codec) (opts : ReplicaOptions) (envs : Nat → SyncEnv) (s : Site) : Nat → Site
  | 0 => s
  | k + 1 => (syncWith c opts (envs k) (afterSyncs c opts envs s k)).2

/-- The first of several syncs comes first. -/
theorem afterSyncs_succ (c : Codec) (opts : ReplicaOptions) (envs : Nat → SyncEnv) (s : Site)
    (k : Nat) : afterSyncs c opts envs s (k + 1)
      = afterSyncs c opts (fun i => envs (i + 1)) (syncWith c opts (envs 0) s).2 k := by
  induction k with
  | zero => rfl
  | succ k ih =>
      show (syncWith c opts (envs (k + 1)) (afterSyncs c opts envs s (k + 1))).2 = _
      rw [ih]
      rfl

/-- A replica that holds the database of transaction `p`, and says so. -/
structure HoldsAt (U : Uploads) (n p : Nat) (s : Site) : Prop where
  db : ∃ db, s.disk.db = some db ∧ Held U n p p db
  txid : s.disk.txid = some (txidLine p)
  reached : s.reached = p
  rooted : s.rooted = true

/-- Syncs bring a replica from `p` to `m`: after finitely many of them, each of which returns
further ahead than it started. -/
def CatchesUp (c : Codec) (opts : ReplicaOptions) (b : Bucket) (m : Nat) (s : Site) : Prop :=
  ∀ envs : Nat → SyncEnv, (∀ k, (envs k).Still b) → ∃ k,
    readTxidFile (afterSyncs c opts envs s k).disk = .ok m ∧
    ∀ j < k, ∃ result, (syncWith c opts (envs j) (afterSyncs c opts envs s j)).1 = .ok result ∧
      result.fromTxid < result.toTxid

variable {c : Codec} {U : Uploads} {n m p t : Nat} {b : Bucket} {db : Bytes}

/-- The lock page is not the first one. -/
theorem Uploads.one_ne_lock (U : Uploads) : 1 ≠ U.lock := by
  have hbounds := isValidPageSize_bounds (U.file 1).plainOk.pageSize
  rw [U.size 1 le_rfl (by omega)] at hbounds
  have hdiv : 0 < pendingByte / U.pageSize.toNat :=
    Nat.div_pos (hbounds.2.trans (by decide)) (by omega)
  unfold Uploads.lock lockPgno
  omega

/-- The page size in the header of a database is not masked. -/
theorem SameDatabase.readPageSize (h : SameDatabase U.pageSize.toNat U.lock db (U.image t)) :
    Replica.readPageSize db = Replica.readPageSize (U.image t) := by
  have hps := U.pageSize_ge
  have hbyte : ∀ i, 16 ≤ i → i < 18 → 18 ≤ db.length → byteAt db i = byteAt (U.image t) i := by
    intro i h16 h18 hlen
    refine h.byte i (by omega) (by unfold MaskedByte; omega) ?_
    rw [Nat.div_eq_of_lt (by omega)]
    exact U.one_ne_lock
  unfold Replica.readPageSize
  rw [← h.length]
  split
  · rfl
  · rename_i hlen
    rw [hbyte 16 le_rfl (by omega) (by omega), hbyte 17 (by omega) (by omega) (by omega)]

/-- **One sync** of a replica that holds `p`, with a bucket that reaches `p`: it returns a position
that it then holds, and it gets ahead exactly if there is something to be found. -/
theorem HoldsAt.sync {s : Site} (h : HoldsAt U m p s) (hc : c.Lawful) (hm : m < 2 ^ 64 - 1)
    (hb : Faithful c U m b) (hpos : 1 ≤ p) {level : Nat} {x : Stored}
    (hlevel : level ∈ Replica.allLevels) (hx : x ∈ b level) (hle : p ≤ x.maxTxid)
    (hsize : Replica.readPageSize (U.image p) = some U.pageSize.toNat) (opts : ReplicaOptions)
    {env : SyncEnv} (henv : env.Still b) :
    ∃ r site, syncWith c opts env s = (.ok ⟨false, p, r⟩, site) ∧ HoldsAt U m r site ∧
      p ≤ r ∧ r ≤ m ∧ (p < r ↔ b.Onward p) := by
  obtain ⟨⟨db, hdb, hheld⟩, htxid, hreached, hrooted⟩ := h
  have hmoments : ∀ i, Faithful c U m (env.moment i).bucket := fun i => by
    rw [henv.bucket]
    exact hb
  -- the bucket does not change during the sync, so what is listed stays
  have hroad : Replica.Road c U m env U.pageSize.toNat p False :=
    { lawful := hc
      bound := hm
      position := lt_of_le_of_lt hheld.bound hm
      faithful := hmoments
      lasting := fun i j _ l y hy _ => by
        rw [henv.bucket] at hy
        exact ⟨y, by rw [henv.bucket]; exact hy, rfl⟩
      calm := fun _ => henv.turn
      size := fun _ => rfl
      ahead := fun _ => ⟨level, hlevel, fun i => ⟨x, by rw [henv.bucket]; exact hx, hle⟩⟩ }
  have hps : Replica.readPageSize db = some U.pageSize.toNat :=
    (hheld.sameDatabase hm).readPageSize.trans hsize
  obtain ⟨r, f, hrun, hend, hsync⟩ := syncWith_of_road opts hroad hpos hdb htxid hps
  rw [hreached, hrooted] at hrun
  obtain ⟨hge, hheld', hreached', hrooted', htxid'⟩ :=
    Replica.incrementalSync_held hc hm hmoments hheld hrun
  have hsite : HoldsAt U m r f.site := by
    refine ⟨⟨f.db, rfl, hheld'⟩, ?_, hreached', hrooted'⟩
    show f.txid = _
    rcases htxid' with ⟨rfl, heq⟩ | ⟨-, heq⟩
    · rw [heq, htxid]
    · exact heq
  -- the three ways the round can have moved are the three ways of Onward
  refine ⟨r, f.site, hsync, hsite, hge, hheld'.bound, fun hlt => ?_, fun honward => ?_⟩
  · have hmoved := hend.moved hlt
    simp only [henv.bucket] at hmoved
    rcases hmoved with h | ⟨l, hl, -, h⟩ | ⟨-, h⟩
    · exact .inl h
    · exact .inr (.inl ⟨l, hl, h⟩)
    · exact .inr (.inr h)
  · exact hroad.lasting.moves (by rw [henv.bucket]; exact honward) hend

/-- A replica at `p` that finds something at every position up to `m` reaches `m`. -/
theorem HoldsAt.catchesUp (hc : c.Lawful) (hm : m < 2 ^ 64 - 1) (hb : Faithful c U m b)
    {level : Nat} {x : Stored} (hlevel : level ∈ Replica.allLevels) (hx : x ∈ b level)
    (hmax : x.maxTxid = m)
    (hsize : ∀ t, 1 ≤ t → t ≤ m → Replica.readPageSize (U.image t) = some U.pageSize.toNat)
    (honward : ∀ p, 1 ≤ p → p < m → b.Onward p) (opts : ReplicaOptions) (d : Nat) {s : Site}
    (h : HoldsAt U m p s) (hpos : 1 ≤ p) (hd : m - p ≤ d) : CatchesUp c opts b m s := by
  -- on the number of transactions that are missing: every sync gets at least one of them
  induction d generalizing p s with
  | zero =>
      intro envs _
      obtain ⟨db, -, hheld⟩ := h.db
      obtain rfl : p = m := by
        have hle := hheld.bound
        omega
      exact ⟨0, readTxidFile_line (by omega) h.txid, fun j hj => absurd hj (Nat.not_lt_zero j)⟩
  | succ d ih =>
      intro envs hstill
      obtain ⟨db, -, hheld⟩ := h.db
      have hle : p ≤ m := hheld.bound
      rcases Nat.eq_or_lt_of_le hle with rfl | hlt
      · exact ⟨0, readTxidFile_line (by omega) h.txid, fun j hj => absurd hj (Nat.not_lt_zero j)⟩
      · obtain ⟨r, site, hsync, hsite, -, -, hiff⟩ := h.sync hc hm hb hpos hlevel hx (by omega)
          (hsize p hpos hle) opts (hstill 0)
        have hahead : p < r := hiff.mpr (honward p hpos hlt)
        obtain ⟨k, hk, hsteps⟩ := ih hsite (by omega) (by omega) (fun i => envs (i + 1))
          fun i => hstill (i + 1)
        have hnext : ∀ j, afterSyncs c opts envs s (j + 1)
            = afterSyncs c opts (fun i => envs (i + 1)) site j := by
          intro j
          rw [afterSyncs_succ, hsync]
        refine ⟨k + 1, by rw [hnext]; exact hk, fun j hj => ?_⟩
        cases j with
        | zero => exact ⟨_, congrArg Prod.fst hsync, hahead⟩
        | succ j =>
            rw [hnext]
            exact hsteps j (by omega)

/-- A replica at a position where nothing is to be found stays there. -/
theorem HoldsAt.stays (hc : c.Lawful) (hm : m < 2 ^ 64 - 1) (hb : Faithful c U m b) {level : Nat}
    {x : Stored} (hlevel : level ∈ Replica.allLevels) (hx : x ∈ b level) (hle : p ≤ x.maxTxid)
    (hsize : Replica.readPageSize (U.image p) = some U.pageSize.toNat) (hno : ¬ b.Onward p)
    (opts : ReplicaOptions) {s : Site} (h : HoldsAt U m p s) (hpos : 1 ≤ p) {envs : Nat → SyncEnv}
    (hstill : ∀ k, (envs k).Still b) (k : Nat) : HoldsAt U m p (afterSyncs c opts envs s k) := by
  induction k with
  | zero => exact h
  | succ k ih =>
      obtain ⟨r, site, hsync, hsite, hge, -, hiff⟩ := ih.sync hc hm hb hpos hlevel hx hle hsize opts
        (hstill k)
      obtain rfl : p = r := by
        by_contra hne
        exact hno (hiff.mp (lt_of_le_of_ne hge hne))
      show HoldsAt U m p (syncWith c opts (envs k) (afterSyncs c opts envs s k)).2
      rw [hsync]
      exact hsite

/-- The start of a replica that holds the database of transaction `p`. -/
theorem SameDatabase.holdsAt (h : SameDatabase U.pageSize.toNat U.lock db (U.image p)) (hp : p ≤ n)
    (hn : n < 2 ^ 64 - 1) : HoldsAt U n p ⟨⟨some db, some (txidLine p)⟩, p, true⟩ :=
  ⟨⟨db, rfl, h.held hp hn⟩, rfl, rfl, rfl⟩

/-- **When replicas catch up.** Over a bucket of one history that restores to transaction `m`,
replicas at every position reach `m` exactly if at each position before `m` there is something that
a round finds: the level-0 file right behind it, a file of the levels 1 to 8 that continues it, or a
newer snapshot. -/
theorem catchesUp_iff_onward (hc : c.Lawful) (hm : m < 2 ^ 64 - 1) (hb : Faithful c U m b)
    (hsize : ∀ t, 1 ≤ t → t ≤ m → Replica.readPageSize (U.image t) = some U.pageSize.toNat)
    {plan : List FileInfo} {last : FileInfo} (hplan : calcRestorePlan b.listing 0 = .ok plan)
    (hlast : plan.getLast? = some last) (hmax : last.maxTxid = m) (opts : ReplicaOptions) :
    (∀ p, 1 ≤ p → p ≤ m → ∀ db, SameDatabase U.pageSize.toNat U.lock db (U.image p) →
        CatchesUp c opts b m ⟨⟨some db, some (txidLine p)⟩, p, true⟩) ↔
      ∀ p, 1 ≤ p → p < m → b.Onward p := by
  -- the last file of the plan keeps the bucket from looking behind
  obtain ⟨level, hlevel, x, hx, hxmax⟩ : ∃ level ∈ Replica.allLevels, ∃ x ∈ b level,
      x.maxTxid = m := by
    obtain ⟨f, fs, rfl, -, -, hlisted, -⟩ := hb.plan hm hplan
    obtain ⟨level, hle, hmem⟩ := hlisted last (List.mem_of_getLast? hlast)
    rw [Bucket.listing, Bucket.ltxFiles_zero] at hmem
    obtain ⟨x, hx, rfl⟩ := List.mem_map.mp hmem
    refine ⟨level, ?_, x, hx, hmax⟩
    rw [Replica.allLevels, List.mem_reverse, List.mem_range]
    exact Nat.lt_succ_of_le hle
  constructor
  · intro h p hpos hlt
    by_contra hno
    have hstart : SameDatabase U.pageSize.toNat U.lock (U.image p) (U.image p) := .refl _ _ _
    have hstill : ∀ _ : Nat, (calmSync b).Still b := fun _ => ⟨fun _ => rfl, fun _ => rfl⟩
    obtain ⟨k, hk, -⟩ := h p hpos hlt.le _ hstart (fun _ => calmSync b) hstill
    have hstays := HoldsAt.stays hc hm hb hlevel hx (by omega) (hsize p hpos hlt.le) hno opts
      (hstart.holdsAt hlt.le hm) hpos hstill k
    rw [readTxidFile_line (by omega) hstays.txid] at hk
    exact absurd (Except.ok.inj hk) hlt.ne
  · intro honward p hpos hle db hdb
    exact HoldsAt.catchesUp hc hm hb hlevel hx hxmax hsize honward opts (m - p) (hdb.holdsAt hle hm)
      hpos le_rfl

section
variable {stamp : Nat → UInt8}

/-- The header of every state says its page size. -/
theorem stampedUploads_readPageSize (ht : 1 ≤ t) :
    Replica.readPageSize ((stampedUploads stamp).image t)
      = some (stampedUploads stamp).pageSize.toNat := by
  rw [stampedUploads_image ht]
  exact readPageSize_stampedPage _

/-- Within the second one of two files nothing is to be found. -/
theorem twoRanges_not_onward (hp : 2 ≤ p) : ¬ (stampedBucket c stamp (twoRanges m)).Onward p := by
  rintro (⟨x, hx, hmin⟩ | ⟨level, hlevel, x, hx, -⟩ | ⟨x, hx, -⟩)
  · have hmem : (x.minTxid, x.maxTxid) ∈ [(1, 1), (2, m)] := mem_stampedBucket hx
    rcases List.mem_cons.mp hmem with heq | hmem
    · have := (Prod.mk.inj heq).1
      omega
    · have := (Prod.mk.inj (List.mem_singleton.mp hmem)).1
      omega
  · have hmem := mem_stampedBucket hx
    unfold twoRanges at hmem
    rw [if_neg] at hmem
    · cases hmem
    · rintro rfl
      exact absurd hlevel (by decide)
  · cases mem_stampedBucket hx

end

/-- With a file for each of two transactions, a replica at the first one catches up. -/
theorem catchesUp_iff_onward_twoFiles :
    CatchesUp literalCodec ⟨.none, false, false⟩ (stampedBucket literalCodec .ofNat (twoRanges 2)) 2
      ⟨⟨some (stampedPage 1), some (txidLine 1)⟩, 1, true⟩ := by
  obtain ⟨plan, last, hplan, hlast, hmax⟩ := twoRanges_plan literalCodec .ofNat le_rfl (by decide)
  have hdb : SameDatabase 512 (stampedUploads .ofNat).lock (stampedPage 1)
      ((stampedUploads .ofNat).image 1) := by
    rw [stampedUploads_image le_rfl]
    exact .refl _ _ _
  refine (catchesUp_iff_onward literalCodec_lawful (by decide)
    (stampedBucket_faithful (twoRanges_ok le_rfl) (by decide))
    (fun t ht _ => stampedUploads_readPageSize ht) hplan hlast hmax _).mpr ?_ 1 le_rfl
      (by decide) _ hdb
  intro p hpos hlt
  obtain rfl : p = 1 := by omega
  exact .inl ⟨_, stampedFile_mem (show (2, 2) ∈ twoRanges 2 0 by decide), (stampedFile_key ..).1⟩

/-- Four transactions of which the last three are in one file. A replica at the second one finds
neither a file that starts behind it nor any other, and stays there. -/
theorem not_catchesUp_inside_file :
    (∃ plan last, calcRestorePlan (stampedBucket literalCodec .ofNat (twoRanges 4)).listing 0
        = .ok plan ∧ plan.getLast? = some last ∧ last.maxTxid = 4) ∧
      Faithful literalCodec (stampedUploads .ofNat) 4
        (stampedBucket literalCodec .ofNat (twoRanges 4)) ∧
      SameDatabase 512 (stampedUploads .ofNat).lock (stampedPage 2)
        ((stampedUploads .ofNat).image 2) ∧
      ¬ CatchesUp literalCodec ⟨.none, false, false⟩
        (stampedBucket literalCodec .ofNat (twoRanges 4)) 4
        ⟨⟨some (stampedPage 2), some (txidLine 2)⟩, 2, true⟩ := by
  have hb : Faithful literalCodec (stampedUploads .ofNat) 4
      (stampedBucket literalCodec .ofNat (twoRanges 4)) :=
    stampedBucket_faithful (twoRanges_ok (by decide)) (by decide)
  have hdb : SameDatabase 512 (stampedUploads .ofNat).lock (stampedPage 2)
      ((stampedUploads .ofNat).image 2) := by
    rw [stampedUploads_image (by decide)]
    exact .refl _ _ _
  refine ⟨twoRanges_plan _ _ (by decide) (by decide), hb, hdb, fun h => ?_⟩
  have hstill : ∀ _ : Nat, (calmSync (stampedBucket literalCodec .ofNat (twoRanges 4))).Still
      (stampedBucket literalCodec .ofNat (twoRanges 4)) := fun _ => ⟨fun _ => rfl, fun _ => rfl⟩
  obtain ⟨k, hk, -⟩ := h _ hstill
  have hmem : stampedFile literalCodec .ofNat 2 4 ∈
      stampedBucket literalCodec .ofNat (twoRanges 4) 0 :=
    stampedFile_mem (by decide)
  have hstays := HoldsAt.stays literalCodec_lawful (by decide) hb (by decide) hmem
    (by rw [(stampedFile_key ..).2]; decide) (stampedUploads_readPageSize (by decide))
    (twoRanges_not_onward le_rfl) ⟨.none, false, false⟩
    (SameDatabase.holdsAt hdb (by decide) (by decide)) (by decide) hstill k
  rw [readTxidFile_line (by decide) hstays.txid] at hk
  exact absurd (Except.ok.inj hk) (by decide)

end Liters
