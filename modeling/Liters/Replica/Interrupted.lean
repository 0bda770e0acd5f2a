import Liters.Replica.CatchUp

/-! # Interrupted syncs

A sync that stops early may leave an image that is ahead of its position file: pages of files up to
some transaction are written, and the position is still the one from before. The next sync starts
from that position, by whatever way it finds. The image is in order again once its position gets as
far as the pages do (`Mends`); a sync that returns before that reports a position that the image is
not at. -/

namespace Liters

/-! ## Ways back to order -/

/-- One file is enough: there is something to be found at `p`, and every file that continues `p`
reaches `hi`. -/
def SyncEnv.ByFile (env : SyncEnv) (p hi : Nat) : Prop :=
  (env.moment 1).bucket.Onward p ∧
    ∀ i level, ∀ x ∈ (env.moment i).bucket level, x.Continues p → hi ≤ x.maxTxid

/-- The gap in level 0 behind `q` is bridged: some level has a file that continues `q`, and each
level that does has no hole up to the next file of level 0. -/
def SyncEnv.Bridged (env : SyncEnv) (q : Nat) : Prop :=
  ∃ g, q + 1 < g ∧ (∃ x ∈ (env.moment 1).bucket 0, x.minTxid = g) ∧
    (∀ x ∈ (env.moment 1).bucket 0, q + 1 < x.minTxid → g ≤ x.minTxid) ∧
    (∃ level ∈ Replica.gapLevels, ∃ x ∈ (env.moment 1).bucket level, x.Continues q) ∧
    ∀ i, ∀ level ∈ Replica.gapLevels, (∃ x ∈ (env.moment i).bucket level, x.Continues q) →
      ∀ r, q ≤ r → r + 1 < g → ∃ x ∈ (env.moment i).bucket level, x.Continues r

/-- The level-0 files that the sync lists lead from `p` to `hi`, with gaps that are bridged. -/
def SyncEnv.ByList (env : SyncEnv) (p hi : Nat) : Prop :=
  ∀ q, p ≤ q → q < hi →
    (∃ x ∈ (env.moment 1).bucket 0, p < x.minTxid ∧ x.Continues q) ∨ env.Bridged q

/-- A sync from `p` on gets to `hi` or stops with an error. -/
structure SyncEnv.Mends (env : SyncEnv) (p hi : Nat) : Prop where
  lasting : env.Lasting p
  way : env.ByFile p hi ∨ env.ByList p hi

variable {c : Codec} {U : Uploads} {n p hi t : Nat} {env : SyncEnv} {opts : ReplicaOptions}
  {db : Bytes}

/-- **A list without holes is followed to its end.** -/
theorem SyncEnv.ByList.reaches (h : env.ByList p hi) (hlast : env.Lasting p) (hlt : p < hi)
    (hrange : ∀ i level, ∀ x ∈ (env.moment i).bucket level, x.minTxid ≤ x.maxTxid)
    {s s' : Follower} {r : Nat} (hend : Replica.RoundEnd env p 1 s r s') : hi ≤ r := by
  obtain ⟨q, hlist, hr⟩ := hend.list
  suffices hq : hi ≤ q by
    rcases hr with rfl | rfl
    · exact hq
    · exact absurd hlt (not_lt.mpr hq)
  -- what the listing shows of level 0
  have hshown : ∀ x ∈ (env.moment 1).bucket 0, p < x.minTxid →
      x.info 0 ∈ (env.moment 1).bucket.ltxFiles 0 (p + 1) := by
    intro x hx hmin
    exact List.mem_map_of_mem (List.mem_filter.mpr ⟨hx, decide_eq_true (Nat.succ_le_of_lt hmin)⟩)
  by_contra hno
  have hq : q < hi := not_le.mp hno
  rcases hlist.ended with hall | ⟨info, hinfo, start, hstart, hgap, horder, hbridge⟩
  · -- no listed file is left, although one continues the position or starts behind it
    rcases h q hlist.ge hq with ⟨x, hx, hmin, hcont⟩ | ⟨g, hg, ⟨x, hx, hmin⟩, -⟩
    · have hle : x.maxTxid ≤ q := hall _ (hshown x hx hmin)
      exact absurd hcont.2 (not_lt.mpr hle)
    · have hle : x.maxTxid ≤ q := hall _ (hshown x hx (by have := hlist.ge; omega))
      have := hrange 1 0 x hx
      omega
  · have hle : start ≤ q := hbridge.ge
    rcases h start hstart (lt_of_le_of_lt hle hq) with ⟨x, hx, hmin, hcont⟩ |
      ⟨g, hg, ⟨x, hx, hmin⟩, hfirst, ⟨level, hlevel, y, hy, hcont⟩, hcover⟩
    · rcases horder _ (hshown x hx hmin) with hxle | hxle
      · have hxle : x.maxTxid ≤ start := hxle
        exact absurd hcont.2 (not_lt.mpr hxle)
      · have hxle : info.minTxid ≤ x.minTxid := hxle
        have := hcont.1
        omega
    · -- the gap of the bridge is the one in front of the next level-0 file
      have hgmin : info.minTxid ≤ g := by
        rcases horder _ (hshown x hx (by omega)) with hxle | hxle
        · have hxle : x.maxTxid ≤ start := hxle
          have := hrange 1 0 x hx
          omega
        · exact hxle.trans_eq hmin
      rcases Nat.eq_or_lt_of_le hle with rfl | hlt'
      · obtain ⟨i, hi', hnone⟩ := hbridge.stayed rfl level hlevel
        obtain ⟨z, hz, hcont'⟩ := hlast.continues hi' hstart hy hcont
        exact hnone z hz hcont'
      · obtain ⟨l, hl, i, -, hmoved, hwhy⟩ := hbridge.moved hlt'
        rcases hwhy with hfilled | hnone
        · omega
        · obtain ⟨z, hz, hcont'⟩ := hcover i l hl hmoved q hle (by omega)
          exact hnone z hz hcont'

/-! ## One sync -/

/-- The surroundings of a sync show buckets of one history. -/
structure SyncEnv.Of (c : Codec) (U : Uploads) (n : Nat) (env : SyncEnv) : Prop where
  moments : ∀ i, Faithful c U n (env.moment i).bucket
  restore : ∀ p, Faithful c U n (env.restore.bucket p)

/-- A restore that puts its image in place lives to write its position, or to remove the image. -/
def RestoreEnv.Uncut (c : Codec) (opts : ReplicaOptions) (env : RestoreEnv) : Prop :=
  ∀ image txid, prepare c env = .ok (image, txid) → env.Takes .rename →
    env.Labels opts ∨ env.Removes opts

/-- The bucket is behind `p` all the time: it has files, and all of them end before `p`. -/
structure SyncEnv.Behind (env : SyncEnv) (p : Nat) : Prop where
  files : ∃ level ∈ Replica.allLevels, ∀ i, (env.moment i).bucket level ≠ []
  below : ∀ i level, ∀ x ∈ (env.moment i).bucket level, x.maxTxid < p

/-- A sync at `p` on an image of another origin starts over: there is something to be found at `p`,
and what continues `p` starts at the first transaction or is refused by its page size. -/
structure SyncEnv.Restarts (U : Uploads) (env : SyncEnv) (p : Nat) (db : Bytes) : Prop where
  lasting : env.Lasting p
  onward : (env.moment 1).bucket.Onward p
  first : Replica.readPageSize db = some U.pageSize.toNat →
    ∀ i level, ∀ x ∈ (env.moment i).bucket level, x.Continues p → x.minTxid = 1

/-- What a sync may count on: an image that is ahead of its position is mended, one of another
origin is found out or replaced, and restores are not cut short between their renames. -/
structure Careful (c : Codec) (U : Uploads) (opts : ReplicaOptions) (env : SyncEnv) (s : Site) :
    Prop where
  mends : s.rooted = true → ∀ p, s.disk.db ≠ none → s.disk.txid = some (txidLine p) →
    p < s.reached → env.Mends p s.reached
  foreign : s.rooted = false → ∀ p db, s.disk.db = some db → s.disk.txid = some (txidLine p) →
    env.Behind p ∨ env.Restarts U p db
  restores : env.restore.Uncut c opts

/-- What holds of a replica between syncs: the position file, if there is one, claims no more than
what the image holds. -/
def Sound (U : Uploads) (n : Nat) (s : Site) : Prop :=
  s.disk.txid = none ∨ ∃ q, s.disk.txid = some (txidLine q) ∧ q < 2 ^ 64 - 1 ∧
    ∀ db, s.disk.db = some db → s.rooted = true → Held U n q s.reached db

namespace Replica

/-- The round of a sync returns only where the image is in order. -/
structure Mended (U : Uploads) (n r : Nat) (s : Follower) : Prop where
  rooted : s.rooted = true
  reached : s.reached = r
  held : Held U n r r s.db
  txid : s.txid = some (txidLine r)

/-- A round's end leaves a mended follower. -/
theorem Ended.mended {goal r : Nat} {s₀ s : Follower} (h : Ended U n p goal s₀ r s)
    (htxid : s₀.txid = some (txidLine p)) (hrooted : s.rooted = true) (hreached : s.reached = r) :
    Mended U n r s := by
  refine ⟨hrooted, hreached, ?_, ?_⟩
  · have hheld := h.held hrooted
    rwa [hreached] at hheld
  · rcases h.txid with ⟨rfl, heq⟩ | ⟨-, heq⟩
    · rw [heq, htxid]
    · exact heq

section
variable (hc : c.Lawful) (hn : n < 2 ^ 64 - 1)
  (hmoments : ∀ i, Faithful c U n (env.moment i).bucket)
include hc hn hmoments

/-- A round from an image that holds its position, if it gets as far as the pages do. -/
theorem mended_of_reaches {s₀ : Follower} (hrooted : s₀.rooted = true)
    (htxid : s₀.txid = some (txidLine p)) (hheld : Held U n p s₀.reached s₀.db) (goal : Nat)
    (hgoal : ∀ i level, ∀ x ∈ (env.moment i).bucket level, x.Continues p → goal ≤ x.maxTxid)
    (hreach : Spec (incrementalSync env c opts p) s₀
      (fun r s' => Ended U n p goal s₀ r s' → s₀.reached ≤ r) fun _ _ => True) :
    Spec (incrementalSync env c opts p) s₀ (fun r s' => Mended U n r s')
      (fun _ s' => ∃ q, Stopped U n p s₀ q s') := by
  have hspec : Spec (incrementalSync env c opts p) s₀ (Ended U n p goal s₀)
      (fun _ s' => ∃ q, Stopped U n p s₀ q s') :=
    incrementalSync_spec (fun _ _ => ⟨hc, hn, hmoments, hgoal,
      fun h => absurd (hrooted.symm.trans h) Bool.true_eq_false.mp⟩) fun _ => hheld
  refine (hspec.and hreach).mono ?_ fun _ _ h => h.1
  rintro r s' ⟨hend, hle⟩
  obtain ⟨hrooted', hreached⟩ := hend.keeps hrooted
  exact hend.mended htxid hrooted' (hreached.trans (max_eq_right (hle hend)))

variable (hp : p < 2 ^ 64 - 1)
include hp

/-- A lasting bucket is a road, whatever trouble there is. -/
theorem Lasting.road (hlast : env.Lasting p) (pageSize : Nat) :
    Road c U n env pageSize p True where
  lawful := hc
  bound := hn
  position := hp
  faithful := hmoments
  lasting := hlast
  calm := fun h => absurd trivial h
  size := fun h => absurd trivial h
  ahead := fun h => absurd trivial h

/-- **A round** in a lasting bucket ends as `RoundEnd` says. -/
theorem Lasting.roundEnd (hlast : env.Lasting p) (s₀ : Follower) (hclock : s₀.clock = 0) :
    Spec (incrementalSync env c opts p) s₀ (fun r s' => RoundEnd env p 1 s₀ r s')
      (fun _ _ => True) := by
  have hspec := Road.incrementalSync opts s₀ (fun h : ¬ True => absurd trivial h)
    fun pageSize _ => Lasting.road hc hn hmoments hp hlast pageSize
  rwa [hclock] at hspec

/-- **A round from an image that may be ahead of its position.** -/
theorem incrementalSync_mended {s₀ : Follower} (hclock : s₀.clock = 0) (hrooted : s₀.rooted = true)
    (htxid : s₀.txid = some (txidLine p)) (hheld : Held U n p s₀.reached s₀.db)
    (hmends : p < s₀.reached → env.Mends p s₀.reached) :
    Spec (incrementalSync env c opts p) s₀ (fun r s' => Mended U n r s')
      (fun _ s' => ∃ q, Stopped U n p s₀ q s') := by
  rcases Nat.eq_or_lt_of_le hheld.le with heq | hlt
  · refine mended_of_reaches hc hn hmoments hrooted htxid hheld 0 (fun _ _ _ _ _ => Nat.zero_le _)
      (spec_of_forall (fun r s' hend => ?_) fun _ _ => trivial)
    rw [← heq]
    exact hend.ge
  · obtain ⟨hlast, hfile | hlist⟩ := hmends hlt
    · refine mended_of_reaches hc hn hmoments hrooted htxid hheld _ hfile.2 ?_
      refine (Lasting.roundEnd hc hn hmoments hp hlast s₀ hclock).mono ?_ fun _ _ h => h
      intro r s' hround hend
      rcases hend.goal with heq | hle
      · exact absurd (hlast.moves hfile.1 hround) (by rw [heq]; exact lt_irrefl p)
      · exact hle
    · refine mended_of_reaches hc hn hmoments hrooted htxid hheld 0
        (fun _ _ _ _ _ => Nat.zero_le _) ?_
      refine (Lasting.roundEnd hc hn hmoments hp hlast s₀ hclock).mono ?_ fun _ _ h => h
      intro r s' hround _
      exact hlist.reaches hlast hlt (fun i level x hx => ((hmoments i).files level x hx).range.2.1)
        hround

/-- **A round from an image of another origin.** -/
theorem incrementalSync_foreign {s₀ : Follower} (hclock : s₀.clock = 0)
    (hrooted : s₀.rooted = false) (htxid : s₀.txid = some (txidLine p))
    (h : env.Behind p ∨ env.Restarts U p s₀.db) :
    Spec (incrementalSync env c opts p) s₀ (fun r s' => Mended U n r s')
      (fun _ s' => ∃ q, Stopped U n p s₀ q s') := by
  have hheld : s₀.rooted = true → Held U n p s₀.reached s₀.db :=
    fun h => absurd (hrooted.symm.trans h) Bool.false_ne_true
  rcases h with ⟨⟨level, hlevel, hfiles⟩, hbelow⟩ | ⟨hlast, honward, hfirst⟩
  · -- nothing continues the position, so the round cannot but find out
    have hlast : env.Lasting p := fun i _ _ l x hx hlt => absurd (hbelow i l x hx) (lt_asymm hlt)
    have hspec : Spec (incrementalSync env c opts p) s₀ (Ended U n p 0 s₀)
        (fun _ s' => ∃ q, Stopped U n p s₀ q s') :=
      incrementalSync_spec (fun _ _ => ⟨hc, hn, hmoments, fun _ _ _ _ _ => Nat.zero_le _,
        fun _ _ i l x hx hcont => absurd (hbelow i l x hx) (lt_asymm hcont.2)⟩) hheld
    refine (hspec.and (Lasting.roundEnd hc hn hmoments hp hlast s₀ hclock)).mono ?_ fun _ _ h => h.1
    rintro r s' ⟨-, hround⟩
    exfalso
    rcases Nat.eq_or_lt_of_le hround.ge with heq | hlt
    · rcases hround.notBehind heq.symm with hempty | ⟨l, i, x, hx, hle⟩
      · obtain ⟨i, -, hnil⟩ := hempty level hlevel
        exact hfiles i hnil
      · exact absurd (hbelow i l x hx) (not_lt.mpr hle)
    · rcases hround.moved hlt with ⟨x, hx, hmin⟩ | ⟨l, -, i, x, hx, hcont⟩ | ⟨i, x, hx, hmax⟩
      · have hle := ((hmoments 1).files 0 x hx).range.2.1
        have hbelow' := hbelow 1 0 x hx
        omega
      · exact absurd (hbelow i l x hx) (lt_asymm hcont.2)
      · exact absurd (hbelow i _ x hx) (lt_asymm hmax)
  · -- a level 0 file continues the position, and the first file applied starts the replica over
    have hspec : Spec (incrementalSync env c opts p) s₀ (Ended U n p 0 s₀)
        (fun _ s' => ∃ q, Stopped U n p s₀ q s') := by
      refine incrementalSync_spec (fun pageSize hps => ⟨hc, hn, hmoments,
        fun _ _ _ _ _ => Nat.zero_le _, fun _ hsize => hfirst ?_⟩) hheld
      rw [hps, hsize]
    refine (hspec.and (Lasting.roundEnd hc hn hmoments hp hlast s₀ hclock)).mono ?_ fun _ _ h => h.1
    rintro r s' ⟨hend, hround⟩
    -- the round moves, so the replica is rooted at its end
    have hlt : p < r := hlast.moves honward hround
    have hrooted' : s'.rooted = true := by
      by_contra hno
      exact absurd (hend.foreign (Bool.not_eq_true _ ▸ hno)) hlt.ne'
    exact hend.mended htxid hrooted' (hend.fresh hrooted hrooted')

end

end Replica

/-- The position that a sync reads from a position file. -/
theorem eq_of_readTxidFile {d : Disk} {q txid : Nat} (hlabel : d.txid = some (txidLine q))
    (hq : q < 2 ^ 64 - 1) (hread : readTxidFile d = .ok txid) : q = txid := by
  have hline : readTxidFile d = .ok q := readTxidFile_line (by omega) hlabel
  exact Except.ok.inj (hline.symm.trans hread)

/-- What a round leaves behind that did not return. -/
theorem Replica.Stopped.sound {q : Nat} {s₀ f : Follower} (h : Stopped U n p s₀ q f)
    (hn : n < 2 ^ 64 - 1) (hp : p < 2 ^ 64 - 1) (htxid : s₀.txid = some (txidLine p)) :
    Sound U n f.site := by
  have hq : q < 2 ^ 64 - 1 ∧ f.txid = some (txidLine q) := by
    rcases h.txid with ⟨rfl, heq⟩ | ⟨hle, heq⟩
    · exact ⟨hp, heq.trans htxid⟩
    · exact ⟨lt_of_le_of_lt hle hn, heq⟩
  refine .inr ⟨q, hq.2, hq.1, fun db hdb hrooted => ?_⟩
  obtain rfl : f.db = db := Option.some.inj hdb
  exact h.held hrooted

/-- What a round leaves behind that returned. -/
theorem Replica.Mended.sound {r : Nat} {f : Follower} (h : Mended U n r f) (hn : n < 2 ^ 64 - 1) :
    Sound U n f.site := by
  refine .inr ⟨r, h.txid, lt_of_le_of_lt h.held.bound hn, fun db hdb _ => ?_⟩
  obtain rfl : f.db = db := Option.some.inj hdb
  show Held U n r f.reached f.db
  rw [h.reached]
  exact h.held

/-- The image of a restore holds the transaction it reports. -/
theorem held_of_prepare (hc : c.Lawful) (hn : n < 2 ^ 64 - 1) {renv : RestoreEnv}
    (hb : ∀ p, Faithful c U n (renv.bucket p)) {image : Bytes} {txid : Nat}
    (h : prepare c renv = .ok (image, txid)) : Held U n txid txid image := by
  obtain ⟨-, hle, rfl⟩ := prepare_image hc hn hb h
  exact (sameDatabase_present _ _ _).held hle hn

/-- What a restore leaves behind. -/
theorem RestoreOutcome.sound {renv : RestoreEnv} {s : Site} {res : Except Halt SyncResult × Site}
    (hres : RestoreOutcome c opts renv p s res) (hc : c.Lawful) (hn : n < 2 ^ 64 - 1)
    (hb : ∀ p, Faithful c U n (renv.bucket p)) (huncut : renv.Uncut c opts) (h : Sound U n s) :
    Sound U n res.2 ∧ ∀ result, res.1 = .ok result →
      ∃ db, res.2.disk.db = some db ∧ Held U n result.toTxid result.toTxid db := by
  have hlabelled : ∀ {image txid}, prepare c renv = .ok (image, txid) →
      Sound U n ⟨⟨some image, some (txidLine txid)⟩, txid, true⟩ := by
    intro image txid hprep
    have hheld := held_of_prepare hc hn hb hprep
    refine .inr ⟨txid, rfl, lt_of_le_of_lt hheld.bound hn, fun db hdb _ => ?_⟩
    obtain rfl : image = db := Option.some.inj hdb
    exact hheld
  cases hres with
  | returned hprep =>
      refine ⟨hlabelled hprep, fun result hresult => ?_⟩
      obtain rfl := Except.ok.inj hresult
      exact ⟨_, rfl, held_of_prepare hc hn hb hprep⟩
  | untouched halt => exact ⟨h, fun result hresult => (by cases hresult)⟩
  | landed halt hprep htake hdisk =>
      refine ⟨?_, fun result hresult => (by cases hresult)⟩
      cases hdisk with
      | labelled _ => exact hlabelled hprep
      | removed _ =>
          rcases h with hnone | ⟨q, hlabel, hq, -⟩
          · exact .inl hnone
          · exact .inr ⟨q, hlabel, hq, fun db hdb => (by cases hdb)⟩
      | stale hlabel hremove => exact absurd (huncut _ _ hprep htake) (not_or.mpr ⟨hlabel, hremove⟩)

/-- **One careful sync** keeps the replica sound, and returns only with an image in order. -/
theorem Sound.sync {s : Site} (h : Sound U n s) (hc : c.Lawful) (hn : n < 2 ^ 64 - 1)
    (hof : env.Of c U n) (hcare : Careful c U opts env s) :
    Sound U n (syncWith c opts env s).2 ∧ ∀ result, (syncWith c opts env s).1 = .ok result →
      ∃ db, (syncWith c opts env s).2.disk.db = some db ∧
        Held U n result.toTxid result.toTxid db := by
  -- the round, whatever the image is
  have hround : ∀ {db txid}, s.disk.db = some db → 1 ≤ txid → readTxidFile s.disk = .ok txid →
      txid < 2 ^ 64 - 1 ∧ s.disk.txid = some (txidLine txid) ∧
      Spec (Replica.incrementalSync env c opts txid) ⟨db, s.disk.txid, 0, s.reached, s.rooted⟩
        (fun r s' => Replica.Mended U n r s') (fun _ s' => ∃ q, Replica.Stopped U n txid
          ⟨db, s.disk.txid, 0, s.reached, s.rooted⟩ q s') := by
    intro db txid hdb hpos hread
    rcases h with hnone | ⟨q, hlabel, hq, hheld⟩
    · rw [readTxidFile, hnone] at hread
      cases hread
      cases hpos
    · obtain rfl := eq_of_readTxidFile hlabel hq hread
      refine ⟨hq, hlabel, ?_⟩
      cases hrooted : s.rooted with
      | true =>
          exact Replica.incrementalSync_mended hc hn hof.moments hq rfl rfl hlabel
            (hheld db hdb hrooted)
            (hcare.mends hrooted q (by rw [hdb]; exact Option.some_ne_none db) hlabel)
      | false =>
          exact Replica.incrementalSync_foreign hc hn hof.moments hq rfl rfl hlabel
            (hcare.foreign hrooted q db hdb hlabel)
  have houtcome := syncWith_outcome c opts env s
  generalize syncWith c opts env s = res at houtcome ⊢
  cases houtcome with
  | refused e _ _ => exact ⟨h, fun result hresult => (by cases hresult)⟩
  | fresh hres _ => exact hres.sound hc hn hof.restore hcare.restores h
  | returned hdb hpos hread hrun =>
      obtain ⟨-, -, hspec⟩ := hround hdb hpos hread
      rw [Spec, hrun] at hspec
      refine ⟨hspec.sound hn, fun result hresult => ?_⟩
      obtain rfl := Except.ok.inj hresult
      exact ⟨_, rfl, hspec.held⟩
  | restored hdb hpos hread hrun _ hres =>
      obtain ⟨hq, hlabel, hspec⟩ := hround hdb hpos hread
      rw [Spec, hrun] at hspec
      obtain ⟨q, hstopped⟩ := hspec
      exact hres.sound hc hn hof.restore hcare.restores (hstopped.sound hn hq hlabel)
  | failed hdb hpos hread hrun =>
      obtain ⟨hq, hlabel, hspec⟩ := hround hdb hpos hread
      rw [Spec, hrun] at hspec
      obtain ⟨q, hstopped⟩ := hspec
      exact ⟨hstopped.sound hn hq hlabel, fun result hresult => (by cases hresult)⟩

/-! ## Runs -/

/-- The sites that careful syncs reach from `s₀`, each with the options its process was started
with. -/
inductive CarefulRun (c : Codec) (U : Uploads) (n : Nat) (s₀ : Site) : Site → Prop where
  | start : CarefulRun c U n s₀ s₀
  | sync {s : Site} (h : CarefulRun c U n s₀ s) (opts : ReplicaOptions) (env : SyncEnv)
      (hof : env.Of c U n) (hcare : Careful c U opts env s) :
      CarefulRun c U n s₀ (syncWith c opts env s).2

/-- **A careful run** leaves a sound site. -/
theorem CarefulRun.sound {s₀ s : Site} (h : CarefulRun c U n s₀ s) (hc : c.Lawful)
    (hn : n < 2 ^ 64 - 1) (hstart : Sound U n s₀) : Sound U n s := by
  induction h with
  | start => exact hstart
  | sync _ opts env hof hcare ih => exact (ih.sync hc hn hof hcare).1

/-- **Careful syncs never mislabel the image.** A replica starts at the database of its position,
and syncs while the writer pushes, compacts and prunes at every request; each sync may stop
anywhere, with an error or with the process, after any of its page writes. As long as an image that
got ahead of its position is mended by the next sync that returns, and no restore is cut short
between its renames: when a sync returns, the image is the writer's database at the transaction it
reports. -/
theorem carefulRun_labelled (hc : c.Lawful) (hn : n < 2 ^ 64 - 1) (hp : p ≤ n)
    (hdb : SameDatabase U.pageSize.toNat U.lock db (U.image p)) {s : Site}
    (hrun : CarefulRun c U n ⟨⟨some db, some (txidLine p)⟩, p, true⟩ s) (hof : env.Of c U n)
    (hcare : Careful c U opts env s) {result : SyncResult} {site : Site}
    (hsync : syncWith c opts env s = (.ok result, site)) :
    ∃ db', site.disk.db = some db' ∧
      SameDatabase U.pageSize.toNat U.lock db' (U.image result.toTxid) := by
  have hstart : Sound U n ⟨⟨some db, some (txidLine p)⟩, p, true⟩ := by
    refine .inr ⟨p, rfl, lt_of_le_of_lt hp hn, fun db' hdb' _ => ?_⟩
    obtain rfl : db = db' := Option.some.inj hdb'
    exact hdb.held hp hn
  have hstep := ((hrun.sound hc hn hstart).sync hc hn hof hcare).2
  rw [hsync] at hstep
  obtain ⟨db', hdb', hheld⟩ := hstep result rfl
  exact ⟨db', hdb', hheld.sameDatabase hn⟩

/-! ## A sync that dies in a page write -/

namespace Replica

variable {s : Follower}

/-- A step that is done, from a known state. -/
theorem spec_pass_done {e : ReplicaError} (h : (env.moment s.clock).turn = .done) :
    Spec (pass env e) s (fun _ s' => s' = { s with clock := s.clock + 1 }) fun _ _ => False := by
  unfold pass effect
  rw [spec_bind, spec_tick, h]
  rfl

/-- A request that is answered does not stop. -/
theorem spec_request_done (h : (env.moment s.clock).turn = .done) :
    Spec (request env) s (fun b s' => b = (env.moment s.clock).bucket ∧
      s' = { s with clock := s.clock + 1 }) fun _ _ => False := by
  unfold request
  rw [spec_bind, spec_tick, h]
  exact ⟨rfl, rfl⟩

end Replica

/-- Three transactions, each in a file of its own. -/
def threeRanges : Nat → List (Nat × Nat) :=
  fun level => if level = 0 then [(1, 1), (2, 2), (3, 3)] else []

/-- The same once the first two files were compacted and pruned. -/
def prunedRanges : Nat → List (Nat × Nat) := fun level =>
  if level = 0 then [(3, 3)] else if level = 1 then [(1, 2)] else []

/-- Three uploads are three ranges. -/
theorem threeRanges_ok : RangesOk 3 threeRanges where
  files := by
    intro level
    unfold threeRanges
    split
    · decide
    · exact fun r hr => (by cases hr)
  sorted := by
    intro level
    unfold threeRanges
    split
    · decide
    · exact .nil
  snapshots := fun r hr => (by cases hr)

/-- The pruned bucket has ranges too. -/
theorem prunedRanges_ok : RangesOk 3 prunedRanges where
  files := by
    intro level
    unfold prunedRanges
    split
    · decide
    · split
      · decide
      · exact fun r hr => (by cases hr)
  sorted := by
    intro level
    unfold prunedRanges
    split
    · decide
    · split
      · decide
      · exact .nil
  snapshots := fun r hr => (by cases hr)

/-- What opening a file of such a bucket gives. -/
theorem stampedBucket_open {stamp : Nat → UInt8} {ranges : Nat → List (Nat × Nat)}
    (h : RangesOk n ranges) (hn : n < 2 ^ 64 - 1) {level lo hi : Nat}
    (hmem : (lo, hi) ∈ ranges level) :
    (stampedBucket c stamp ranges).openLtxFile level lo hi =
      some (stampedFile c stamp lo hi).body := by
  have hx : stampedFile c stamp lo hi ∈ stampedBucket c stamp ranges level := stampedFile_mem hmem
  obtain ⟨z, hz, hkey, hopen⟩ := Bucket.openLtxFile_of_mem hx
  have hb : Faithful c (stampedUploads stamp) n (stampedBucket c stamp ranges) :=
    stampedBucket_faithful h hn
  obtain rfl := Bucket.eq_of_key_eq (hb.sorted level) hz hx hkey
  rwa [(stampedFile_key ..).1, (stampedFile_key ..).2] at hopen

/-- Surroundings in which the process dies in the first page write of the sync, just after it. -/
def dyingSync (b : Bucket) : SyncEnv :=
  ⟨fun i => ⟨b, if i = 7 then .killed true else .done, fun _ => 0⟩, calmEnv b "ok"⟩

/-- Surroundings in which the bucket changes right after the listing of level 0. -/
def prunedSync (b b' : Bucket) : SyncEnv :=
  ⟨fun i => ⟨if i ≤ 1 then b else b', .done, fun _ => 0⟩, calmEnv b' "ok"⟩

namespace Replica

/-- Applying a file, if the process dies right after its first page was written. -/
theorem applySpooled_dies (hc : c.Lawful) {f : LtxFile} {page : Page} {pages : List Page}
    (hpages : f.pages = page :: pages) {body : Bytes} (hbody : body = f.bytes c)
    (hlocks : opts.useFileLocks = false) {s : Follower}
    (hturn : (env.moment s.clock).turn = .killed true) :
    Spec (applySpooled env c opts f.hdr.pageSize.toNat body) s (fun _ _ => False)
      fun halt s' => halt = .killed ∧ s' = { s with
        db := pwrite s.db ((page.1 - 1) * f.hdr.pageSize.toNat)
          (presentPage (env.moment s.clock).noise page.1 page.2)
        clock := s.clock + 1
        reached := max s.reached f.hdr.maxTxid.toNat } := by
  obtain ⟨pgno, data⟩ := page
  rw [hbody, applySpooled_bytes hc, if_neg (not_not.mpr rfl)]
  unfold applyDecoded takeLock
  rw [hlocks]
  have hfree : (if false = true then pass env .lockBusy else pure ()) = (pure () : Sync Unit) := rfl
  rw [hfree, pure_bind, spec_bind, spec_modify]
  refine Spec.bind (Q := fun _ _ => False) ?_ fun _ _ h => h.elim
  unfold writeFile
  refine Spec.bind (Q := fun _ _ => False) ?_ fun _ _ h => h.elim
  rw [hpages]
  unfold writePages
  refine Spec.bind (Q := fun _ _ => False) ?_ fun _ _ h => h.elim
  unfold effect
  rw [spec_bind, spec_tick]
  have hturn' : (env.moment (s.start f.hdr).clock).turn = .killed true := hturn
  rw [hturn']
  exact ⟨rfl, rfl⟩

/-- **A sync that dies** right after the first page write of the file behind its position: the page
is written, the position is not. -/
theorem dyingSync_run (hc : c.Lawful) {b : Bucket} {x : Stored} {infos : List FileInfo}
    (hlisted : b.ltxFiles 0 2 = x.info 0 :: infos) (hmin : x.minTxid = 2) (hmax : x.maxTxid = 2)
    {body : Bytes} (hopen : b.openLtxFile 0 2 2 = some body) {f : LtxFile}
    (hbody : body = f.bytes c) {page : Page} {pages : List Page} (hpages : f.pages = page :: pages)
    (hlocks : opts.useFileLocks = false) (hsize : readPageSize db = some f.hdr.pageSize.toNat)
    (txid : Option (List Char)) :
    Spec (incrementalSync (dyingSync b) c opts 1) ⟨db, txid, 0, 1, true⟩ (fun _ _ => False)
      fun halt s' => halt = .killed ∧ s' = ⟨pwrite db ((page.1 - 1) * f.hdr.pageSize.toNat)
        (presentPage (fun _ => 0) page.1 page.2), txid, 8, max 1 f.hdr.maxTxid.toNat, true⟩ := by
  unfold incrementalSync
  refine Spec.bind ((spec_pass_done rfl).mono (fun _ _ h => h) fun _ _ h => h.elim) ?_
  rintro - s₁ rfl
  rw [spec_bind, spec_get]
  dsimp only
  rw [hsize]
  dsimp only
  unfold followBucket listLevel
  rw [spec_bind]
  refine Spec.bind ((spec_request_done rfl).mono (fun _ _ h => h) fun _ _ h => h.elim) ?_
  rintro b' s₂ ⟨hb, rfl⟩
  rw [spec_pure, hb]
  show Spec (applyListed _ c opts f.hdr.pageSize.toNat 1 (b.ltxFiles 0 2) >>= _) _ _ _
  rw [hlisted]
  refine Spec.bind (Q := fun _ _ => False) ?_ fun _ _ h => h.elim
  unfold applyListed
  have hlist : ¬ (x.info 0 :: infos).isEmpty = true := Bool.false_ne_true
  rw [if_neg hlist]
  unfold applyLevel0
  refine Spec.bind ((spec_pass_done rfl).mono (fun _ _ h => h) fun _ _ h => h.elim) ?_
  rintro - s₃ rfl
  -- no gap in front of the file
  unfold closeGap
  have hgap : ¬ (x.info 0).minTxid > wrappingSucc 1 := by
    show ¬ x.minTxid > 2
    omega
  have hahead : ¬ (x.info 0).maxTxid ≤ 1 := by
    show ¬ x.maxTxid ≤ 1
    omega
  rw [if_neg hgap, pure_bind]
  dsimp only
  rw [if_neg hahead, if_neg hgap]
  refine Spec.bind (Q := fun _ _ => False) ?_ fun _ _ h => h.elim
  unfold applyLtxFile
  refine Spec.bind ((spec_request_done rfl).mono (fun _ _ h => h) fun _ _ h => h.elim) ?_
  rintro b' s₄ ⟨hb, rfl⟩
  have hopen' : b.openLtxFile (x.info 0).level (x.info 0).minTxid (x.info 0).maxTxid =
      some body := by
    show b.openLtxFile 0 x.minTxid x.maxTxid = some body
    rw [hmin, hmax, hopen]
  rw [hb]
  dsimp only [dyingSync]
  rw [hopen']
  dsimp only
  refine Spec.bind ((spec_pass_done rfl).mono (fun _ _ h => h) fun _ _ h => h.elim) ?_
  rintro - s₅ rfl
  refine Spec.bind ((spec_pass_done rfl).mono (fun _ _ h => h) fun _ _ h => h.elim) ?_
  rintro - s₆ rfl
  refine Spec.bind ((spec_pass_done rfl).mono (fun _ _ h => h) fun _ _ h => h.elim) ?_
  rintro - s₇ rfl
  exact Spec.bind (applySpooled_dies hc hpages hbody hlocks rfl) fun _ _ h => h.elim

/-- **A sync that finds a listed file gone**: it returns where it started, and the image stays as it
is. -/
theorem prunedSync_run {b b' : Bucket} {x : Stored} {infos : List FileInfo}
    (hlisted : b.ltxFiles 0 2 = x.info 0 :: infos) (hmin : x.minTxid = 2) (hmax : x.maxTxid = 2)
    (hgone : b'.openLtxFile 0 2 2 = none) {pageSize : Nat} (hsize : readPageSize db = some pageSize)
    (txid : Option (List Char)) (reached : Nat) :
    Spec (incrementalSync (prunedSync b b') c opts 1) ⟨db, txid, 0, reached, true⟩
      (fun r s' => r = 1 ∧ s' = ⟨db, txid, 4, reached, true⟩) fun _ _ => False := by
  unfold incrementalSync
  -- the listing shows file 2-2
  refine Spec.bind (spec_pass_done rfl) ?_
  rintro - s₁ rfl
  rw [spec_bind, spec_get]
  dsimp only
  rw [hsize]
  dsimp only
  unfold followBucket listLevel
  rw [spec_bind]
  refine Spec.bind (spec_request_done rfl) ?_
  rintro b₁ s₂ ⟨hb, rfl⟩
  rw [spec_pure, hb]
  show Spec (applyListed _ c opts pageSize 1 (b.ltxFiles 0 2) >>= _) _ _ _
  rw [hlisted]
  refine Spec.bind (Q := fun res s' => res = (1, false) ∧ s' = ⟨db, txid, 4, reached, true⟩) ?_ ?_
  · -- it neither leaves a gap nor lies behind, so it is applied
    unfold applyListed
    have hlist : ¬ (x.info 0 :: infos).isEmpty = true := Bool.false_ne_true
    rw [if_neg hlist]
    unfold applyLevel0
    refine Spec.bind (spec_pass_done rfl) ?_
    rintro - s₃ rfl
    unfold closeGap
    have hgap : ¬ (x.info 0).minTxid > wrappingSucc 1 := by
      show ¬ x.minTxid > 2
      omega
    have hahead : ¬ (x.info 0).maxTxid ≤ 1 := by
      show ¬ x.maxTxid ≤ 1
      omega
    rw [if_neg hgap, pure_bind]
    dsimp only
    rw [if_neg hahead, if_neg hgap]
    refine Spec.bind (Q := fun found s' => found = false ∧ s' = ⟨db, txid, 4, reached, true⟩) ?_ ?_
    · -- the file is gone when it is opened
      unfold applyLtxFile
      refine Spec.bind (spec_request_done rfl) ?_
      rintro b₂ s₄ ⟨hb, rfl⟩
      have hgone' : ((prunedSync b b').moment (0 + 1 + 1 + 1)).bucket.openLtxFile (x.info 0).level
          (x.info 0).minTxid (x.info 0).maxTxid = none := by
        show b'.openLtxFile 0 x.minTxid x.maxTxid = none
        rw [hmin, hmax, hgone]
      rw [hb]
      dsimp only
      rw [hgone']
      exact ⟨rfl, rfl⟩
    · rintro found s' ⟨rfl, rfl⟩
      exact ⟨rfl, rfl⟩
  · rintro res s' ⟨rfl, rfl⟩
    exact ⟨rfl, rfl⟩

end Replica

/-- The route of a sync with a position. -/
theorem syncRoute_line {d : Disk} (hdb : d.db = some db) (htxid : d.txid = some (txidLine p))
    (hpos : 1 ≤ p) (hlt : p < 2 ^ 64) : syncRoute opts d = .ok (.incremental p) := by
  have hread : readTxidFile d = .ok p := readTxidFile_line hlt htxid
  obtain ⟨q, rfl⟩ : ∃ q, p = q + 1 := ⟨p - 1, by omega⟩
  unfold syncRoute
  rw [hdb, hread]

section
variable {s : Site} (hdb : s.disk.db = some db) (htxid : s.disk.txid = some (txidLine p))
  (hpos : 1 ≤ p) (hlt : p < 2 ^ 64)
include hdb htxid hpos hlt

/-- A sync whose round dies. -/
theorem syncWith_of_killed {f : Follower} (hspec : Spec (Replica.incrementalSync env c opts p)
      ⟨db, s.disk.txid, 0, s.reached, s.rooted⟩ (fun _ _ => False)
      fun halt s' => halt = .killed ∧ s' = f) :
    syncWith c opts env s = (.error .killed, f.site) := by
  unfold syncWith
  rw [hdb, syncRoute_line hdb htxid hpos hlt]
  dsimp only
  cases hrun : Replica.incrementalSync env c opts p ⟨db, s.disk.txid, 0, s.reached, s.rooted⟩ with
  | ok r s' =>
      rw [Spec, hrun] at hspec
      exact hspec.elim
  | error halt s' =>
      rw [Spec, hrun] at hspec
      obtain ⟨rfl, rfl⟩ := hspec
      rfl

/-- A sync whose round returns. -/
theorem syncWith_of_returned {r : Nat} {f : Follower}
    (hspec : Spec (Replica.incrementalSync env c opts p)
      ⟨db, s.disk.txid, 0, s.reached, s.rooted⟩ (fun r' s' => r' = r ∧ s' = f) fun _ _ => False) :
    syncWith c opts env s = (.ok ⟨false, p, r⟩, f.site) := by
  unfold syncWith
  rw [hdb, syncRoute_line hdb htxid hpos hlt]
  dsimp only
  cases hrun : Replica.incrementalSync env c opts p ⟨db, s.disk.txid, 0, s.reached, s.rooted⟩ with
  | ok r' s' =>
      rw [Spec, hrun] at hspec
      obtain ⟨rfl, rfl⟩ := hspec
      rfl
  | error halt s' =>
      rw [Spec, hrun] at hspec
      exact hspec.elim

end

section
variable {stamp : Nat → UInt8}

/-- The first page, overwritten by that of the second transaction. -/
def overwritten (stamp : Nat → UInt8) : Bytes :=
  pwrite (stampedPage (stamp 1)) 0 (Replica.presentPage (fun _ => 0) 1 (stampedPage (stamp 2)))

/-- What the listing of three transactions shows behind the first one. -/
theorem threeRanges_listed (c : Codec) (stamp : Nat → UInt8) :
    (stampedBucket c stamp threeRanges).ltxFiles 0 2
      = [(stampedFile c stamp 2 2).info 0, (stampedFile c stamp 3 3).info 0] := by
  have hlevel : stampedBucket c stamp threeRanges 0
      = [stampedFile c stamp 1 1, stampedFile c stamp 2 2, stampedFile c stamp 3 3] := rfl
  have h₁ := (stampedFile_key c stamp 1 1).1
  have h₂ := (stampedFile_key c stamp 2 2).1
  have h₃ := (stampedFile_key c stamp 3 3).1
  unfold Bucket.ltxFiles
  rw [hlevel]
  simp [h₁, h₂, h₃]

/-- The pages of a stamped file. -/
theorem stampedRange_pages {lo hi : UInt64} (hlo : lo ≠ 0) (hle : lo ≤ hi) (stamp : UInt8) :
    (stampedRange lo hi hlo hle stamp).pages = [(1, stampedPage stamp)] := rfl

/-- **A replica after a sync that died**: the page of the second transaction under the position of
the first one. -/
theorem dyingSync_syncWith (hc : c.Lawful) (hlocks : opts.useFileLocks = false) :
    syncWith c opts (dyingSync (stampedBucket c stamp threeRanges))
        ⟨⟨some (stampedPage (stamp 1)), some (txidLine 1)⟩, 1, true⟩
      = (.error .killed, ⟨⟨some (overwritten stamp), some (txidLine 1)⟩, 2, true⟩) := by
  have hle : txidOf 2 ≤ txidOf 2 := txidOf_le 2
  have hbody : (stampedFile c stamp 2 2).body
      = (stampedRange (txidOf 2) (txidOf 2) (txidOf_ne_zero 2) hle (stamp 2)).bytes c := by
    unfold stampedFile
    rw [dif_pos hle]
  have hopen : (stampedBucket c stamp threeRanges).openLtxFile 0 2 2
      = some (stampedFile c stamp 2 2).body :=
    stampedBucket_open threeRanges_ok (by decide) (show (2, 2) ∈ threeRanges 0 by decide)
  have hpages := stampedRange_pages (txidOf_ne_zero 2) hle (stamp 2)
  have hkey := stampedFile_key c stamp 2 2
  have hlisted := threeRanges_listed c stamp
  have hps : (stampedRange (txidOf 2) (txidOf 2) (txidOf_ne_zero 2) hle
      (stamp 2)).hdr.pageSize.toNat
      = 512 := rfl
  have hmax : max 1 (stampedRange (txidOf 2) (txidOf 2) (txidOf_ne_zero 2) hle
      (stamp 2)).hdr.maxTxid.toNat = 2 := by
    show max 1 (txidOf 2).toNat = 2
    rw [toNat_txidOf Nat.one_lt_two.le (by decide)]
    rfl
  have hsize := readPageSize_stampedPage (stamp 1)
  rw [← hps] at hsize
  unfold overwritten
  -- from here on no page is looked into
  generalize stampedFile c stamp 2 2 = x at *
  generalize stampedBucket c stamp threeRanges = b at *
  generalize stampedRange (txidOf 2) (txidOf 2) (txidOf_ne_zero 2) hle (stamp 2) = f at *
  generalize stampedPage (stamp 1) = db at *
  have hrun := Replica.dyingSync_run hc hlisted hkey.1 hkey.2 hopen hbody hpages hlocks hsize
    (some (txidLine 1))
  rw [hmax, Nat.sub_self, Nat.zero_mul] at hrun
  generalize stampedPage (stamp 2) = page at *
  have hsync := syncWith_of_killed (s := ⟨⟨some db, some (txidLine 1)⟩, 1, true⟩) rfl rfl le_rfl
    (by decide) hrun
  rw [hsync]
  rfl

/-- The overwritten page is the database of the second transaction. -/
theorem overwritten_sameDatabase (stamp : Nat → UInt8) :
    SameDatabase (stampedUploads stamp).pageSize.toNat (stampedUploads stamp).lock
      (overwritten stamp) ((stampedUploads stamp).image 2) := by
  have hlen := stampedPage_length (stamp 2)
  have hlen₁ := stampedPage_length (stamp 1)
  rw [stampedUploads_image (by decide), overwritten]
  generalize stampedPage (stamp 2) = page at *
  generalize stampedPage (stamp 1) = db at *
  have hpresent := length_presentPage (fun _ => 0) 1 page
  have hne : Replica.presentPage (fun _ => 0) 1 page ≠ [] := List.ne_nil_of_length_pos (by omega)
  have hlength : (pwrite db 0 (Replica.presentPage (fun _ => 0) 1 page)).length = page.length := by
    rw [length_pwrite _ _ hne]
    omega
  refine ⟨hlength, fun i hi hmask _ => ?_⟩
  have hwritten : byteAt (pwrite db 0 (Replica.presentPage (fun _ => 0) 1 page)) (0 + i) = _ :=
    byteAt_pwrite_of_mem db (by omega)
  rw [Nat.zero_add] at hwritten
  rw [hwritten, byteAt_presentPage _ _ fun h => hmask h.2]

/-- The overwritten page is not the first state's. -/
theorem overwritten_ne_first (h : stamp 1 ≠ stamp 2) :
    ¬ SameDatabase (stampedUploads stamp).pageSize.toNat (stampedUploads stamp).lock
      (overwritten stamp) ((stampedUploads stamp).image 1) := by
  intro hsame
  have hboth := (overwritten_sameDatabase stamp).symm.trans hsame
  rw [stampedUploads_image (by decide), stampedUploads_image le_rfl] at hboth
  have hbyte := hboth.byte 100 (by rw [stampedPage_length]; decide)
    (by unfold MaskedByte; decide) ?_
  · rw [byteAt_stampedPage, byteAt_stampedPage] at hbyte
    exact h hbyte.symm
  · have hps : (stampedUploads stamp).pageSize.toNat = 512 := rfl
    rw [hps, stampedUploads_lock]
    decide

/-- **A sync after one that died**, of which the next file is pruned while it runs. -/
theorem prunedSync_syncWith (c : Codec) (opts : ReplicaOptions) (stamp : Nat → UInt8) :
    syncWith c opts (prunedSync (stampedBucket c stamp threeRanges)
      (stampedBucket c stamp prunedRanges))
        ⟨⟨some (overwritten stamp), some (txidLine 1)⟩, 2, true⟩
      = (.ok ⟨false, 1, 1⟩, ⟨⟨some (overwritten stamp), some (txidLine 1)⟩, 2, true⟩) := by
  -- after the pruning 2-2 is gone
  have hgone : (stampedBucket c stamp prunedRanges).openLtxFile 0 2 2 = none := by
    cases hopen : (stampedBucket c stamp prunedRanges).openLtxFile 0 2 2 with
    | none => rfl
    | some body =>
        obtain ⟨x, hx, hmin, hmax, -⟩ := Bucket.mem_of_openLtxFile hopen
        have hmem := mem_stampedBucket hx
        rw [hmin, hmax] at hmem
        exact absurd hmem (by decide)
  have hsize : Replica.readPageSize (overwritten stamp) = some 512 :=
    (overwritten_sameDatabase stamp).readPageSize.trans (stampedUploads_readPageSize (by decide))
  have hkey := stampedFile_key c stamp 2 2
  have hlisted := threeRanges_listed c stamp
  generalize stampedFile c stamp 2 2 = x at *
  generalize stampedBucket c stamp threeRanges = b at *
  generalize stampedBucket c stamp prunedRanges = b' at *
  generalize overwritten stamp = db at *
  -- the round finds it in its listing and not in the bucket
  have hrun : Spec (Replica.incrementalSync (prunedSync b b') c opts 1)
      ⟨db, some (txidLine 1), 0, 2, true⟩
      (fun r s' => r = 1 ∧ s' = ⟨db, some (txidLine 1), 4, 2, true⟩) fun _ _ => False :=
    Replica.prunedSync_run hlisted hkey.1 hkey.2 hgone hsize (some (txidLine 1)) 2
  have hsync := syncWith_of_returned (s := ⟨⟨some db, some (txidLine 1)⟩, 2, true⟩) rfl rfl le_rfl
    (by decide) hrun
  rw [hsync]
  rfl

end

/-- A restore that nothing disturbs is not cut short. -/
theorem calmEnv_uncut (b : Bucket) (c : Codec) (hcheck : opts.integrityCheck = .none) :
    (calmEnv b "ok").Uncut c opts := by
  intro image txid _ _
  exact .inl ⟨⟨rfl, .inl rfl, .inl rfl, .inl rfl⟩, .inl hcheck, rfl, rfl, rfl, .inl rfl⟩

section
variable {stamp : Nat → UInt8}

/-- The killed sync sees a faithful bucket. -/
theorem dyingSync_of (c : Codec) (stamp : Nat → UInt8) :
    (dyingSync (stampedBucket c stamp threeRanges)).Of c (stampedUploads stamp) 3 :=
  ⟨fun _ => stampedBucket_faithful threeRanges_ok (by decide),
    fun _ => stampedBucket_faithful threeRanges_ok (by decide)⟩

/-- So does the calm one. -/
theorem calmSync_of (c : Codec) (stamp : Nat → UInt8) :
    (calmSync (stampedBucket c stamp threeRanges)).Of c (stampedUploads stamp) 3 :=
  ⟨fun _ => stampedBucket_faithful threeRanges_ok (by decide),
    fun _ => stampedBucket_faithful threeRanges_ok (by decide)⟩

/-- So does the one over a pruned bucket. -/
theorem prunedSync_of (c : Codec) (stamp : Nat → UInt8) :
    (prunedSync (stampedBucket c stamp threeRanges) (stampedBucket c stamp prunedRanges)).Of c
      (stampedUploads stamp) 3 where
  moments := by
    intro i
    show Faithful c _ 3 (if i ≤ 1 then _ else _)
    split
    · exact stampedBucket_faithful threeRanges_ok (by decide)
    · exact stampedBucket_faithful prunedRanges_ok (by decide)
  restore := fun _ => stampedBucket_faithful prunedRanges_ok (by decide)

/-- From the first transaction on, the next file of three reaches the second one. -/
theorem calmSync_mends (c : Codec) (stamp : Nat → UInt8) :
    (calmSync (stampedBucket c stamp threeRanges)).Mends 1 2 where
  lasting := fun _ _ _ _ x hx _ => ⟨x, hx, rfl⟩
  way := by
    refine .inl ⟨.inl ⟨_, stampedFile_mem (show (2, 2) ∈ threeRanges 0 by decide),
      (stampedFile_key ..).1⟩, fun i level x hx hcont => ?_⟩
    exact hcont.2

/-- The sync that dies starts from an image at its position. -/
theorem dyingSync_careful (c : Codec) (stamp : Nat → UInt8) (hcheck : opts.integrityCheck = .none)
    (db : Bytes) : Careful c (stampedUploads stamp) opts
      (dyingSync (stampedBucket c stamp threeRanges))
      ⟨⟨some db, some (txidLine 1)⟩, 1, true⟩ where
  mends := by
    intro _ p _ htxid hlt
    obtain rfl : p = 0 := Nat.lt_one_iff.mp hlt
    exact absurd (Option.some.inj htxid) (by decide)
  foreign := fun h => absurd h Bool.true_eq_false.mp
  restores := calmEnv_uncut _ c hcheck

/-- The sync after it finds the files behind its position. -/
theorem calmSync_careful (c : Codec) (stamp : Nat → UInt8) (hcheck : opts.integrityCheck = .none)
    (db : Bytes) : Careful c (stampedUploads stamp) opts
      (calmSync (stampedBucket c stamp threeRanges))
      ⟨⟨some db, some (txidLine 1)⟩, 2, true⟩ where
  mends := by
    intro _ p _ htxid hlt
    have hlt : p < 2 := hlt
    obtain rfl | rfl : p = 0 ∨ p = 1 := by omega
    · exact absurd (Option.some.inj htxid) (by decide)
    · exact calmSync_mends c stamp
  foreign := fun h => absurd h Bool.true_eq_false.mp
  restores := calmEnv_uncut _ c hcheck

end

/-- A sync dies after the first page write of the second of three transactions. The next one applies
the file again, and its image is the database of the transaction it reports. -/
theorem carefulRun_labelled_dying :
    ∃ died result site,
      syncWith literalCodec ⟨.none, false, false⟩
          (dyingSync (stampedBucket literalCodec .ofNat threeRanges))
          ⟨⟨some (stampedPage (.ofNat 1)), some (txidLine 1)⟩, 1, true⟩ = (.error .killed, died) ∧
      syncWith literalCodec ⟨.none, false, false⟩
          (calmSync (stampedBucket literalCodec .ofNat threeRanges)) died = (.ok result, site) ∧
      ∃ db, site.disk.db = some db ∧
        SameDatabase (stampedUploads .ofNat).pageSize.toNat (stampedUploads .ofNat).lock db
          ((stampedUploads .ofNat).image result.toTxid) := by
  have hdied : syncWith literalCodec ⟨.none, false, false⟩
        (dyingSync (stampedBucket literalCodec .ofNat threeRanges))
        ⟨⟨some (stampedPage (.ofNat 1)), some (txidLine 1)⟩, 1, true⟩
      = (.error .killed, ⟨⟨some (overwritten .ofNat), some (txidLine 1)⟩, 2, true⟩) :=
    dyingSync_syncWith literalCodec_lawful rfl
  have hstart : SameDatabase (stampedUploads .ofNat).pageSize.toNat (stampedUploads .ofNat).lock
      (stampedPage (.ofNat 1)) ((stampedUploads .ofNat).image 1) := by
    rw [stampedUploads_image le_rfl]
    exact .refl _ _ _
  have hb : Faithful literalCodec (stampedUploads .ofNat) 3
      (stampedBucket literalCodec .ofNat threeRanges) :=
        stampedBucket_faithful threeRanges_ok (by decide)
  have hmem : stampedFile literalCodec .ofNat 3 3 ∈
      stampedBucket literalCodec .ofNat threeRanges 0 :=
    stampedFile_mem (by decide)
  have hroad := calmSync_road literalCodec_lawful (by decide) hb 1 (by decide) hmem
    (by rw [(stampedFile_key ..).2]; decide)
  have hsize := (overwritten_sameDatabase .ofNat).readPageSize.trans
    (stampedUploads_readPageSize (by decide))
  obtain ⟨r, f, -, -, hsync⟩ := syncWith_of_road ⟨.none, false, false⟩ hroad le_rfl rfl rfl hsize
    (s := ⟨⟨some (overwritten .ofNat), some (txidLine 1)⟩, 2, true⟩)
  have hrun : CarefulRun literalCodec (stampedUploads .ofNat) 3
      ⟨⟨some (stampedPage (.ofNat 1)), some (txidLine 1)⟩, 1, true⟩
      ⟨⟨some (overwritten .ofNat), some (txidLine 1)⟩, 2, true⟩ := by
    have hstart : CarefulRun literalCodec (stampedUploads .ofNat) 3
        ⟨⟨some (stampedPage (.ofNat 1)), some (txidLine 1)⟩, 1, true⟩
        ⟨⟨some (stampedPage (.ofNat 1)), some (txidLine 1)⟩, 1, true⟩ := .start
    have hstep := hstart.sync ⟨.none, false, false⟩ _ (dyingSync_of literalCodec .ofNat)
      (dyingSync_careful literalCodec .ofNat rfl _)
    rwa [hdied] at hstep
  exact ⟨_, _, _, hdied, hsync,
    carefulRun_labelled literalCodec_lawful (by decide) (by decide) hstart
    hrun (calmSync_of literalCodec .ofNat) (calmSync_careful literalCodec .ofNat rfl _) hsync⟩

/-- A sync dies after the first page write of the second of three transactions; the next one lists
the files behind the first transaction, and the first of them is compacted and pruned before it is
fetched. That sync returns the position of the first transaction, over the page of the second
one. -/
theorem interrupted_sync_mislabels :
    (dyingSync (stampedBucket literalCodec .ofNat threeRanges)).Of literalCodec
        (stampedUploads .ofNat) 3 ∧
      (prunedSync (stampedBucket literalCodec .ofNat threeRanges)
        (stampedBucket literalCodec .ofNat prunedRanges)).Of literalCodec
          (stampedUploads .ofNat) 3 ∧
      SameDatabase (stampedUploads .ofNat).pageSize.toNat (stampedUploads .ofNat).lock
        (stampedPage (.ofNat 1)) ((stampedUploads .ofNat).image 1) ∧
      ∃ died site db,
        syncWith literalCodec ⟨.none, false, false⟩
            (dyingSync (stampedBucket literalCodec .ofNat threeRanges))
            ⟨⟨some (stampedPage (.ofNat 1)), some (txidLine 1)⟩, 1, true⟩ = (.error .killed, died) ∧
        syncWith literalCodec ⟨.none, false, false⟩
            (prunedSync (stampedBucket literalCodec .ofNat threeRanges)
              (stampedBucket literalCodec .ofNat prunedRanges)) died = (.ok ⟨false, 1, 1⟩, site) ∧
        site.disk.db = some db ∧
        ¬ SameDatabase (stampedUploads .ofNat).pageSize.toNat (stampedUploads .ofNat).lock db
          ((stampedUploads .ofNat).image 1) := by
  refine ⟨dyingSync_of _ _, prunedSync_of _ _, ?_, _, _, overwritten .ofNat,
    dyingSync_syncWith literalCodec_lawful rfl, prunedSync_syncWith _ _ _, rfl,
    overwritten_ne_first (by decide)⟩
  rw [stampedUploads_image le_rfl]
  exact .refl _ _ _

end Liters
