import Liters.System.Shipping
import Liters.Replica.Interrupted

/-! # From the database to its replicas

Applications use a database, a writer turns it into L0 files and uploads them, maintenance compacts
and prunes the bucket, replicas restore from it and follow it. Each part was verified on its own;
here they are put together. What can be restored, and what a replica shows when a sync returns, is a
database that was committed: the one at which the writer wrote the L0 file of the transaction that
is reported. -/

namespace Liters

open WalReader Local

section
variable {c : Codec} {pageSize : Nat} {d₀ : LiveDb} {s : Local.Session} {past : List (Image Bytes)}
  {U : Uploads}

/-- The databases of a life, from the empty one on: the one at place `t` is that of transaction
`t`. -/
def committedAt (pageSize : Nat) (past : List (Image Bytes)) (t : Nat) : Option (Image Bytes) :=
  (⟨0, fun _ => zeroPage pageSize⟩ :: past)[t]?

/-- **The state of an upload is a committed database.** -/
theorem state_of_life (hstart : Tracked pageSize d₀) (hnew : d₀.chain = [])
    (hlife : Life c pageSize d₀ s past) (hships : Ships pageSize s.db.chain U) {t : Nat}
    (ht : t ≤ past.length) :
    ∃ img, committedAt pageSize past t = some img ∧
      Image.AgreeOff (lockPgno pageSize) (U.state t) img := by
  obtain ⟨hlength, hpast⟩ := hlife.leadsTo hstart hnew
  rw [← hlength] at ht
  rw [hships.state_eq ht]
  cases t with
  | zero => exact ⟨_, rfl, .refl _ _⟩
  | succ i =>
      have hget := List.getElem?_eq_getElem (l := past) (i := i) (hlength ▸ ht)
      exact ⟨past[i], hget, hpast i _ hget⟩

/-- As a file. -/
theorem image_of_life (hstart : Tracked pageSize d₀) (hnew : d₀.chain = [])
    (hlife : Life c pageSize d₀ s past) (hships : Ships pageSize s.db.chain U) {t : Nat}
    (ht : t ≤ past.length) :
    ∃ img, committedAt pageSize past t = some img ∧
      (U.state t).toBytes U.lock U.zero = img.toBytes (lockPgno pageSize) (zeroPage pageSize) := by
  obtain ⟨img, himg, hagree⟩ := state_of_life hstart hnew hlife hships ht
  have hzero : U.zero = zeroPage pageSize := by rw [Uploads.zero, hships.size, zeroPage]
  refine ⟨img, himg, ?_⟩
  rw [hships.lock_eq, hzero]
  exact hagree.toBytes_eq

/-- **What is restored was committed.** A writer and the applications live with a database; the L0
files are uploaded, compacted, snapshotted and pruned in any order, each operation cut after any
request. Once something is uploaded, the bucket restores to the database at which the last uploaded
L0 file was written. -/
theorem bucket_restores_committed (hc : c.Lawful) (hstart : Tracked pageSize d₀)
    (hnew : d₀.chain = []) (hlife : Life c pageSize d₀ s past)
    (hships : Ships pageSize s.db.chain U) {w : World} (hreach : Reachable c U w)
    (hpos : 1 ≤ w.uploaded) (hle : w.uploaded ≤ past.length) :
    ∃ img plan last body, committedAt pageSize past w.uploaded = some img ∧
      calcRestorePlan w.bucket.listing 0 = .ok plan ∧ plan.getLast? = some last ∧
      last.maxTxid = w.uploaded ∧
      w.bucket.mergeFiles c plan = .ok body ∧
      decodeDatabaseTo c body = .ok (img.toBytes (lockPgno pageSize) (zeroPage pageSize)) := by
  obtain ⟨img, himg, hbytes⟩ := image_of_life hstart hnew hlife hships hle
  obtain ⟨plan, last, body, hplan, hlast, hmax, hbody, hdecode⟩ :=
    (hreach.inv hc).restorable hc hpos
  exact ⟨img, plan, last, body, himg, hplan, hlast, hmax, hbody, hbytes ▸ hdecode⟩

end

/-! ## Replicas -/

section
variable {c : Codec} {U : Uploads} {n : Nat}

/-- What requests are shown: buckets as the operations of the writer leave them, with no more than
`n` uploads. -/
structure SyncEnv.Sees (c : Codec) (U : Uploads) (n : Nat) (env : SyncEnv) : Prop where
  moments : ∀ i, ∃ w, Reachable c U w ∧ w.uploaded ≤ n ∧ (env.moment i).bucket = w.bucket
  restore : ∀ p, ∃ w, Reachable c U w ∧ w.uploaded ≤ n ∧ env.restore.bucket p = w.bucket

/-- A bucket that operations left is one of the history. -/
theorem Reachable.faithful (hc : c.Lawful) {w : World} (h : Reachable c U w)
    (hle : w.uploaded ≤ n) :
    Faithful c U n w.bucket where
  files level x hx := ((h.inv hc).files level x hx).mono hle
  sorted := (h.inv hc).sorted
  snapshots := (h.inv hc).snapshots

/-- A sync that sees a reachable bucket sees files of its history. -/
theorem SyncEnv.Sees.of (hc : c.Lawful) {env : SyncEnv} (h : env.Sees c U n) : env.Of c U n where
  moments i := by
    obtain ⟨w, hreach, hle, hbucket⟩ := h.moments i
    rw [hbucket]
    exact hreach.faithful hc hle
  restore p := by
    obtain ⟨w, hreach, hle, hbucket⟩ := h.restore p
    rw [hbucket]
    exact hreach.faithful hc hle

/-- The syncs of a replica that begins with an empty directory, each with the options its process
was started with; whatever a sync leaves behind, the next one starts from there. -/
inductive FollowRun (c : Codec) (U : Uploads) (n : Nat) : Site → Prop where
  | start : FollowRun c U n ⟨⟨none, none⟩, 0, true⟩
  | sync {site : Site} (hrun : FollowRun c U n site) (opts : ReplicaOptions) (env : SyncEnv)
      (hsees : env.Sees c U n)
      (hcare : Careful c U opts env site) : FollowRun c U n (syncWith c opts env site).2

/-- **A follower's run** leaves a sound site. -/
theorem FollowRun.sound (hc : c.Lawful) (hn : n < 2 ^ 64 - 1) {site : Site}
    (h : FollowRun c U n site) :
    Sound U n site := by
  induction h with
  | start => exact .inl rfl
  | sync _ opts env hsees hcare ih => exact (ih.sync hc hn (hsees.of hc) hcare).1

/-- **What a replica shows was committed.** A writer and the applications live with a database; its
L0 files are uploaded and maintained while a replica, from an empty directory on, restores and
follows the bucket as it is at each request; each sync may stop anywhere. As long as its syncs are
careful: when one of them returns, the file in place is the database at which the L0 file of the
transaction that it reports was written. -/
theorem replica_shows_committed (hc : c.Lawful) {pageSize : Nat} {d₀ : LiveDb} {s : Local.Session}
    {past : List (Image Bytes)} (hstart : Tracked pageSize d₀) (hnew : d₀.chain = [])
    (hlife : Life c pageSize d₀ s past) (hships : Ships pageSize s.db.chain U)
    (hpast : past.length < 2 ^ 64 - 1) {site site' : Site} (hrun : FollowRun c U past.length site)
    {opts : ReplicaOptions} {env : SyncEnv}
    (hsees : env.Sees c U past.length) (hcare : Careful c U opts env site) {result : SyncResult}
    (hsync : syncWith c opts env site = (.ok result, site')) :
    ∃ db img, site'.disk.db = some db ∧ committedAt pageSize past result.toTxid = some img ∧
      SameDatabase pageSize (lockPgno pageSize) db
        (img.toBytes (lockPgno pageSize) (zeroPage pageSize)) := by
  have hstep := ((hrun.sound hc hpast).sync hc hpast (hsees.of hc) hcare).2
  rw [hsync] at hstep
  obtain ⟨db, hdb, hheld⟩ := hstep result rfl
  obtain ⟨img, himg, hbytes⟩ := image_of_life hstart hnew hlife hships hheld.bound
  have hsame := hheld.sameDatabase hpast
  rw [Uploads.image, hbytes, hships.size, hships.lock_eq] at hsame
  exact ⟨db, img, hdb, himg, hsame⟩

end

/-! ## A database with three commits -/

/-- A restore that nothing disturbs. -/
theorem restoreSite_calmEnv {c : Codec} {b : Bucket} {image : Bytes} {txid : Nat} (site : Site)
    (hprep : prepare c (calmEnv b "ok") = .ok (image, txid)) :
    ∃ site', restoreSite c ⟨.none, false, false⟩ (calmEnv b "ok") 0 site =
      (.ok ⟨true, 0, txid⟩, site') := by
  have hrun : fullRestore c ⟨.none, false, false⟩ (calmEnv b "ok") site.disk
      = .ok txid ⟨some image, some (txidLine txid)⟩ := by
    unfold fullRestore
    rw [hprep]
    rfl
  exact ⟨_, by rw [restoreSite, hrun]⟩

/-- The two L0 files of its writer, uploaded. -/
theorem shipped_freshDb :
    ∃ s past U w, Life literalCodec 512 freshDb s past ∧ past.length = 2 ∧ Ships 512 s.db.chain U ∧
      Reachable literalCodec U w ∧ w.uploaded = 2 := by
  obtain ⟨s, past, hlife, hfiles, hlength, -⟩ := life_freshDb
  have hchain := hlife.l0Chain tracked_freshDb rfl
  obtain ⟨U, hships⟩ := exists_ships_of_l0Chain hchain
    (show s.db.chain.getLast? = some thirdL0 by rw [hfiles]; rfl)
  have hreach : Reachable literalCodec U _ :=
    (Reachable.start.step (.upload none) 1).step (.upload none) 1
  exact ⟨s, past, U, _, hlife, hlength, hships, hreach, rfl⟩

/-- A bucket of two uploads, restored to the second. -/
theorem bucket_restores_committed_third :
    ∃ s past U w, Life literalCodec 512 freshDb s past ∧ Ships 512 s.db.chain U ∧
      Reachable literalCodec U w ∧
      ∃ img plan last body, committedAt 512 past 2 = some img ∧
        calcRestorePlan w.bucket.listing 0 = .ok plan ∧
        plan.getLast? = some last ∧ last.maxTxid = 2 ∧
        w.bucket.mergeFiles literalCodec plan = .ok body ∧
        decodeDatabaseTo literalCodec body = .ok (img.toBytes (lockPgno 512) (zeroPage 512)) := by
  obtain ⟨s, past, U, w, hlife, hlength, hships, hreach, huploaded⟩ := shipped_freshDb
  have hrestore := bucket_restores_committed literalCodec_lawful tracked_freshDb rfl hlife hships
    hreach (by omega)
    (by omega)
  rw [huploaded] at hrestore
  exact ⟨s, past, U, w, hlife, hships, hreach, hrestore⟩

/-- A replica synced from it. -/
theorem replica_shows_committed_third :
    ∃ s past U w result site, Life literalCodec 512 freshDb s past ∧ Reachable literalCodec U w ∧
      syncWith literalCodec ⟨.none, false, false⟩
        ⟨fun _ => ⟨w.bucket, .done, fun _ => 0⟩, calmEnv w.bucket "ok"⟩
        ⟨⟨none, none⟩, 0, true⟩ = (.ok result, site) ∧ result.toTxid = 2 ∧
      ∃ db img, site.disk.db = some db ∧ committedAt 512 past 2 = some img ∧
        SameDatabase 512 (lockPgno 512) db (img.toBytes (lockPgno 512) (zeroPage 512)) := by
  obtain ⟨s, past, U, w, hlife, hlength, hships, hreach, huploaded⟩ := shipped_freshDb
  have hpast : past.length < 2 ^ 64 - 1 := by omega
  -- the bucket has a plan for its newest transaction, so a restore into nothing succeeds
  obtain ⟨plan, last, hplan, -, hlast, hmax⟩ :=
    (hreach.inv literalCodec_lawful).exists_plan (by omega)
  have hfaithful : Faithful literalCodec U past.length w.bucket :=
    hreach.faithful literalCodec_lawful (by omega)
  obtain ⟨image, hprep⟩ := hfaithful.prepare literalCodec_lawful hpast hplan hlast "ok"
  obtain ⟨site, hsite⟩ := restoreSite_calmEnv ⟨⟨none, none⟩, 0, true⟩ hprep
  have hsync : syncWith literalCodec ⟨.none, false, false⟩
      ⟨fun _ => ⟨w.bucket, .done, fun _ => 0⟩, calmEnv w.bucket "ok"⟩ ⟨⟨none, none⟩, 0, true⟩
      = (.ok ⟨true, 0, last.maxTxid⟩, site) := hsite
  -- every request sees the one bucket
  have hsees : SyncEnv.Sees literalCodec U past.length
      ⟨fun _ => ⟨w.bucket, .done, fun _ => 0⟩, calmEnv w.bucket "ok"⟩ := by
    constructor
    · exact fun _ => ⟨w, hreach, by omega, rfl⟩
    · exact fun _ => ⟨w, hreach, by omega, rfl⟩
  -- a replica that begins with nothing is careful
  have hcare : Careful literalCodec U ⟨.none, false, false⟩
      ⟨fun _ => ⟨w.bucket, .done, fun _ => 0⟩, calmEnv w.bucket "ok"⟩ ⟨⟨none, none⟩, 0, true⟩ := by
    refine ⟨fun _ p hdb => absurd rfl hdb, fun hrooted => ?_,
      calmEnv_uncut w.bucket literalCodec rfl⟩
    cases hrooted
  obtain ⟨db, img, hdb, himg, hsame⟩ :=
    replica_shows_committed literalCodec_lawful tracked_freshDb rfl hlife hships
    hpast .start hsees hcare hsync
  have htwo : last.maxTxid = 2 := hmax.trans huploaded
  rw [htwo] at himg
  exact ⟨s, past, U, w, _, site, hlife, hreach, hsync, htwo, db, img, hdb, himg, hsame⟩

end Liters
