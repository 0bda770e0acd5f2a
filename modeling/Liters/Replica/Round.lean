import Liters.Replica.InPlace

/-! # One round over a bucket of one history

What a whole round keeps, whichever files it finds and wherever it stops. `Going` is the invariant
of its loops: how the file on disk stands at the position the round has reached. A round that
returns has `Ended` at the position it reports; one that does not has `Stopped`, with a position
file that claims no more than what is on disk. -/

namespace Liters

/-- A bucket of one history: each file carries what the transactions of its range did, each level is
listed in order, and snapshots start at the first transaction. -/
structure Faithful (c : Codec) (U : Uploads) (n : Nat) (b : Bucket) : Prop where
  files : ∀ level, ∀ s ∈ b level, StoredOk c U n s
  sorted : ∀ level, (b level).Pairwise Stored.Before
  snapshots : ∀ s ∈ b snapshotLevel, s.minTxid = 1

/-- `s` continues a replica at `t`. -/
def Stored.Continues (t : Nat) (s : Stored) : Prop := s.minTxid ≤ t + 1 ∧ t < s.maxTxid

/-- The wrapping successor is no more than one ahead. -/
theorem wrappingSucc_le (t : Nat) : wrappingSucc t ≤ t + 1 := Nat.mod_le _ _

/-- What is opened is in the bucket. -/
theorem Bucket.mem_of_openLtxFile {b : Bucket} {level minTxid maxTxid : Nat} {body : Bytes}
    (h : b.openLtxFile level minTxid maxTxid = some body) :
    ∃ s ∈ b level, s.minTxid = minTxid ∧ s.maxTxid = maxTxid ∧ s.body = body := by
  obtain ⟨s, hs, rfl⟩ := Option.map_eq_some_iff.mp h
  have hkey : s.key = (minTxid, maxTxid) := by simpa using List.find?_some hs
  obtain ⟨hmin, hmax⟩ := Prod.mk.inj hkey
  exact ⟨s, List.mem_of_find?_eq_some hs, hmin, hmax, rfl⟩

/-- The snapshot a survey picks is one it saw. -/
theorem mem_foldl_newerSnapshot {infos : List FileInfo} {newest : Option FileInfo} {snap : FileInfo}
    (h : snap ∈ infos.foldl Replica.newerSnapshot newest) : snap ∈ newest ∨ snap ∈ infos := by
  induction infos generalizing newest with
  | nil => exact .inl h
  | cons info infos ih =>
      rw [List.foldl_cons] at h
      rcases ih h with hold | hmem
      · unfold Replica.newerSnapshot at hold
        split at hold
        · exact .inr (by rw [Option.mem_some_iff.mp hold]; exact List.mem_cons_self ..)
        · split at hold
          · exact .inr (by rw [Option.mem_some_iff.mp hold]; exact List.mem_cons_self ..)
          · exact .inl hold
      · exact .inr (List.mem_cons_of_mem _ hmem)

/-- The content of a file of the history. -/
theorem StoredOk.fileOk {c : Codec} {U : Uploads} {n : Nat} {s : Stored} (h : StoredOk c U n s) :
    ∃ f : LtxFile, s.body = f.bytes c ∧ FileOk U n f ∧ f.hdr.minTxid.toNat = s.minTxid ∧
      f.hdr.maxTxid.toNat = s.maxTxid := by
  obtain ⟨hle, f, hbody, hsize, hmin, hmax, he⟩ := h
  exact ⟨f, hbody, ⟨hsize, by rw [hmin, hmax]; exact he, by omega⟩, hmin, hmax⟩

namespace Replica

/-- The setting of a round that starts at `fromTxid` from the state `s₀`: every request shows a
bucket of one history; the files that continue the starting position reach `goal`; and if the file
on disk comes from elsewhere, they start at transaction 1 or are refused by their page size. -/
structure Setting (c : Codec) (U : Uploads) (n : Nat) (env : SyncEnv) (pageSize fromTxid goal : Nat)
    (s₀ : Follower) : Prop where
  lawful : c.Lawful
  bound : n < 2 ^ 64 - 1
  faithful : ∀ i, Faithful c U n (env.moment i).bucket
  goal : ∀ i level, ∀ s ∈ (env.moment i).bucket level, s.Continues fromTxid → goal ≤ s.maxTxid
  root : s₀.rooted = false → pageSize = U.pageSize.toNat →
    ∀ i level, ∀ s ∈ (env.moment i).bucket level, s.Continues fromTxid → s.minTxid = 1

/-- The invariant of a round at position `t`. -/
structure Going (U : Uploads) (n fromTxid goal : Nat) (s₀ : Follower) (t : Nat) (s : Follower) :
    Prop where
  txid : s.txid = s₀.txid
  clock : s₀.clock ≤ s.clock
  ge : fromTxid ≤ t
  held : s.rooted = true → Held U n t s.reached s.db
  foreign : s.rooted = false → t = fromTxid
  keeps : s₀.rooted = true → s.rooted = true ∧ s.reached = max s₀.reached t
  fresh : s₀.rooted = false → s.rooted = true → s.reached = t
  goal : t = fromTxid ∨ goal ≤ t

/-- What is left of a round that did not return: the position file says `q`, and the file on disk
holds that much. -/
structure Stopped (U : Uploads) (n fromTxid : Nat) (s₀ : Follower) (q : Nat) (s : Follower) :
    Prop where
  ge : fromTxid ≤ q
  txid : (q = fromTxid ∧ s.txid = s₀.txid) ∨ (q ≤ n ∧ s.txid = some (txidLine q))
  held : s.rooted = true → Held U n q s.reached s.db
  foreign : s.rooted = false → q = fromTxid
  keeps : s₀.rooted = true → s.rooted = true

/-- What is left of a round that returns `t`. -/
structure Ended (U : Uploads) (n fromTxid goal : Nat) (s₀ : Follower) (t : Nat) (s : Follower) :
    Prop where
  ge : fromTxid ≤ t
  txid : (t = fromTxid ∧ s.txid = s₀.txid) ∨ (fromTxid < t ∧ s.txid = some (txidLine t))
  held : s.rooted = true → Held U n t s.reached s.db
  foreign : s.rooted = false → t = fromTxid
  keeps : s₀.rooted = true → s.rooted = true ∧ s.reached = max s₀.reached t
  fresh : s₀.rooted = false → s.rooted = true → s.reached = t
  goal : t = fromTxid ∨ goal ≤ t

variable {c : Codec} {U : Uploads} {n : Nat} {env : SyncEnv} {opts : ReplicaOptions}
  {pageSize fromTxid goal : Nat} {s₀ s : Follower} {t : Nat}

/-- A round starts at its own position. -/
theorem Going.start (hheld : s₀.rooted = true → Held U n fromTxid s₀.reached s₀.db) :
    Going U n fromTxid goal s₀ fromTxid s₀ where
  txid := rfl
  clock := le_rfl
  ge := le_rfl
  held := hheld
  foreign := fun _ => rfl
  keeps := fun hr => ⟨hr, (max_eq_left (hheld hr).le).symm⟩
  fresh := fun hr hr' => absurd (hr.symm.trans hr') Bool.false_ne_true
  goal := .inl rfl

/-- Time passes. -/
theorem Going.later (h : Going U n fromTxid goal s₀ t s) {s' : Follower} (hl : Later s s')
    (hdb : s'.db = s.db) : Going U n fromTxid goal s₀ t s' where
  txid := hl.txid.trans h.txid
  clock := h.clock.trans hl.clock
  ge := h.ge
  held := by rw [hl.rooted, hl.reached, hdb]; exact h.held
  foreign := by rw [hl.rooted]; exact h.foreign
  keeps := by rw [hl.rooted, hl.reached]; exact h.keeps
  fresh := by rw [hl.rooted, hl.reached]; exact h.fresh
  goal := h.goal

/-- A file is applied. -/
theorem Going.applied (h : Going U n fromTxid goal s₀ t s) {s' : Follower} {b : Nat}
    (ha : Applied U n b s s') (hlt : t < b) (hgoal : t = fromTxid → goal ≤ b) :
    Going U n fromTxid goal s₀ b s' where
  txid := ha.txid.trans h.txid
  clock := h.clock.trans ha.clock
  ge := h.ge.trans hlt.le
  held := fun _ => ha.held
  foreign := fun hr => absurd (hr.symm.trans ha.rooted) Bool.false_ne_true
  keeps := by
    intro hr
    obtain ⟨hs, hreached⟩ := h.keeps hr
    refine ⟨ha.rooted, ?_⟩
    rw [ha.reached, if_pos hs, hreached]
    omega
  fresh := by
    intro hr _
    rw [ha.reached]
    split
    · rename_i hs
      rw [h.fresh hr hs]
      exact max_eq_right hlt.le
    · rfl
  goal := by
    rcases h.goal with heq | hle
    · exact .inr (hgoal heq)
    · exact .inr (hle.trans hlt.le)

/-- The round stops without having moved the position file. -/
theorem Going.stopped (h : Going U n fromTxid goal s₀ t s) (hn : n < 2 ^ 64 - 1) :
    Stopped U n fromTxid s₀ fromTxid s where
  ge := le_rfl
  txid := .inl ⟨rfl, h.txid⟩
  held := fun hr => (h.held hr).lower hn h.ge
  foreign := fun _ => rfl
  keeps := fun hr => (h.keeps hr).1

/-- The round stops in an attempt to apply a file. -/
theorem Going.missed (h : Going U n fromTxid goal s₀ t s) (hn : n < 2 ^ 64 - 1) {s' : Follower}
    (hm : Missed U n t s s') : Stopped U n fromTxid s₀ fromTxid s' where
  ge := le_rfl
  txid := .inl ⟨rfl, hm.txid.trans h.txid⟩
  held := fun hr => (hm.held (hm.rooted.symm.trans hr)).lower hn h.ge
  foreign := fun _ => rfl
  keeps := fun hr => hm.rooted.trans (h.keeps hr).1

section
variable (hset : Setting c U n env pageSize fromTxid goal s₀)
include hset

/-- A step without an effect. -/
theorem Setting.pass (e : ReplicaError) (hg : Going U n fromTxid goal s₀ t s) :
    Spec (pass env e) s (fun _ s' => Going U n fromTxid goal s₀ t s')
      (fun _ s' => ∃ q, Stopped U n fromTxid s₀ q s') := by
  have hlater : Going U n fromTxid goal s₀ t { s with clock := s.clock + 1 } :=
    hg.later ⟨rfl, rfl, rfl, Nat.le_succ _⟩ rfl
  exact spec_pass hlater fun _ => ⟨_, hlater.stopped hset.bound⟩

/-- A request. -/
theorem Setting.listLevel (level seek : Nat) (hg : Going U n fromTxid goal s₀ t s) :
    Spec (listLevel env level seek) s (fun _ s' => Going U n fromTxid goal s₀ t s')
      (fun _ s' => ∃ q, Stopped U n fromTxid s₀ q s') := by
  have hlater : Going U n fromTxid goal s₀ t { s with clock := s.clock + 1 } :=
    hg.later ⟨rfl, rfl, rfl, Nat.le_succ _⟩ rfl
  exact spec_listLevel hlater fun _ => ⟨_, hlater.stopped hset.bound⟩

/-- **Fetching and applying a listed file** that continues the position. -/
theorem Setting.applyLtxFile {info : FileInfo} (hg : Going U n fromTxid goal s₀ t s)
    (hmin : info.minTxid ≤ t + 1) (hmax : t < info.maxTxid) :
    Spec (applyLtxFile env c opts pageSize info) s
      (fun done s' => Going U n fromTxid goal s₀ (if done then info.maxTxid else t) s')
      (fun _ s' => ∃ q, Stopped U n fromTxid s₀ q s') := by
  have hlater : Going U n fromTxid goal s₀ t { s with clock := s.clock + 1 } :=
    hg.later ⟨rfl, rfl, rfl, Nat.le_succ _⟩ rfl
  unfold Replica.applyLtxFile
  refine Spec.bind (Q := fun b s' =>
    Going U n fromTxid goal s₀ t s' ∧ ∃ i, b = (env.moment i).bucket)
    (spec_request ⟨hlater, _, rfl⟩ fun _ => ⟨_, hlater.stopped hset.bound⟩) ?_
  rintro b s₁ ⟨hg₁, i, rfl⟩
  split
  · -- the file is gone: nothing is written
    exact hg₁
  · -- the file opened is the one listed
    rename_i body hopen
    obtain ⟨st, hst, hsmin, hsmax, rfl⟩ := Bucket.mem_of_openLtxFile hopen
    obtain ⟨f, hbody, hf, hfmin, hfmax⟩ := ((hset.faithful i).files info.level st hst).fileOk
    refine Spec.bind (hset.pass .io hg₁) fun _ s₂ hg₂ => ?_
    refine Spec.bind (hset.pass .io hg₂) fun _ s₃ hg₃ => ?_
    refine Spec.bind (hset.pass .io hg₃) fun _ s₄ hg₄ => ?_
    have hcont : t = fromTxid → st.Continues fromTxid := by
      rintro rfl
      exact ⟨hsmin.trans_le hmin, hmax.trans_eq hsmax.symm⟩
    have hroot : s₄.rooted = false → pageSize = U.pageSize.toNat → f.hdr.minTxid.toNat = 1 := by
      intro hr hps
      have hs₀ : s₀.rooted = false := by
        by_contra hne
        have hkeep := (hg₄.keeps (Bool.not_eq_false _ ▸ hne)).1
        rw [hr] at hkeep
        cases hkeep
      rw [hfmin]
      exact hset.root hs₀ hps i info.level st hst (hcont (hg₄.foreign hr))
    have hfmin' : f.hdr.minTxid.toNat ≤ t + 1 := by rwa [hfmin, hsmin]
    have hfmax' : t < f.hdr.maxTxid.toNat := by rwa [hfmax, hsmax]
    refine Spec.bind ((applySpooled_spec hset.lawful hset.bound hf hbody hfmin' hfmax' pageSize
      hg₄.held hroot).mono (fun _ _ h => h) fun _ s' hm => ⟨_, hg₄.missed hset.bound hm⟩)
        fun _ s₅ ha => ?_
    rw [hfmax, hsmax] at ha
    refine hg₄.applied ha hmax fun heq => ?_
    rw [← hsmax]
    exact hset.goal i info.level st hst (hcont heq)

/-- One level of the bridge over a gap. -/
theorem Setting.fillLevel (gapMin : Nat) (infos : List FileInfo)
    (hg : Going U n fromTxid goal s₀ t s) :
    Spec (fillLevel env c opts pageSize gapMin infos t) s
      (fun r s' => t ≤ r.1 ∧ Going U n fromTxid goal s₀ r.1 s')
      (fun _ s' => ∃ q, Stopped U n fromTxid s₀ q s') := by
  induction infos generalizing t s with
  | nil => exact ⟨le_rfl, hg⟩
  | cons info infos ih =>
      unfold Replica.fillLevel
      split
      · exact ⟨le_rfl, hg⟩
      · rename_i hgap
        split
        · exact ih hg
        · rename_i hbehind
          have hmin := (not_lt.mp hgap).trans (wrappingSucc_le t)
          have hmax := not_le.mp hbehind
          refine Spec.bind (hset.pass .cancelled hg) fun _ s₁ hg₁ => ?_
          refine Spec.bind (hset.applyLtxFile hg₁ hmin hmax) fun done s₂ hg₂ => ?_
          cases done with
          | false => exact ⟨le_rfl, hg₂⟩
          | true =>
              have hg₂ : Going U n fromTxid goal s₀ info.maxTxid s₂ := hg₂
              rw [if_pos rfl]
              split
              · exact ⟨hmax.le, hg₂⟩
              · exact (ih hg₂).mono (fun r s' h => ⟨hmax.le.trans h.1, h.2⟩) fun _ _ h => h

/-- The bridge over a gap. -/
theorem Setting.fillFollowGap (gapMin : Nat) (levels : List Nat) (saw404 : Bool)
    (hg : Going U n fromTxid goal s₀ t s) :
    Spec (fillFollowGap env c opts pageSize gapMin levels t saw404) s
      (fun r s' => t ≤ r.1 ∧ Going U n fromTxid goal s₀ r.1 s')
      (fun _ s' => ∃ q, Stopped U n fromTxid s₀ q s') := by
  induction levels generalizing s with
  | nil => exact ⟨le_rfl, hg⟩
  | cons level levels ih =>
      unfold Replica.fillFollowGap
      refine Spec.bind (hset.listLevel level 0 hg) fun infos s₁ hg₁ => ?_
      refine Spec.bind (hset.fillLevel gapMin infos hg₁) ?_
      rintro ⟨current, ended⟩ s₂ ⟨hle, hg₂⟩
      cases ended with
      | filled => exact ⟨hle, hg₂⟩
      | notFound => exact ⟨hle, hg₂⟩
      | exhausted =>
          dsimp only
          split
          · exact ⟨hle, hg₂⟩
          · rename_i hsame
            obtain rfl : current = t := Nat.le_antisymm (not_lt.mp hsame) hle
            exact ih hg₂

/-- The level-0 files. -/
theorem Setting.applyLevel0 (infos : List FileInfo) (saw404 : Bool)
    (hg : Going U n fromTxid goal s₀ t s) :
    Spec (applyLevel0 env c opts pageSize infos t saw404) s
      (fun r s' => t ≤ r.1 ∧ Going U n fromTxid goal s₀ r.1 s')
      (fun _ s' => ∃ q, Stopped U n fromTxid s₀ q s') := by
  -- over the listed files; what the round holds goes along
  induction infos generalizing t s saw404 with
  | nil => exact ⟨le_rfl, hg⟩
  | cons info infos ih =>
      unfold Replica.applyLevel0
      refine Spec.bind (hset.pass .cancelled hg) fun _ s₁ hg₁ => ?_
      refine Spec.bind (Q := fun (r : Nat × Bool) s' => t ≤ r.1 ∧ Going U n fromTxid goal s₀ r.1 s')
        ?_ ?_
      · -- a file that begins further on first has its gap closed
        unfold closeGap
        split
        · exact hset.fillFollowGap _ _ _ hg₁
        · exact ⟨le_rfl, hg₁⟩
      · rintro ⟨current, saw⟩ s₂ ⟨hle, hg₂⟩
        dsimp only
        split
        · -- the file is behind already
          exact (ih saw hg₂).mono (fun r s' h => ⟨hle.trans h.1, h.2⟩) fun _ _ h => h
        · rename_i hbehind
          split
          · -- the gap was not closed
            exact ⟨hle, hg₂⟩
          · rename_i hgap
            have hmin := (not_lt.mp hgap).trans (wrappingSucc_le current)
            have hmax := not_le.mp hbehind
            refine Spec.bind (hset.applyLtxFile hg₂ hmin hmax) fun done s₃ hg₃ => ?_
            cases done with
            -- the file is gone
            | false => exact ⟨hle, hg₃⟩
            | true =>
                have hg₃ : Going U n fromTxid goal s₀ info.maxTxid s₃ := hg₃
                rw [if_pos rfl]
                exact (ih saw hg₃).mono (fun r s' h => ⟨(hle.trans hmax.le).trans h.1, h.2⟩)
                  fun _ _ h => h

/-- The survey of the bucket: the snapshot it finds continues any position. -/
theorem Setting.survey (levels : List Nat) (bucketMax : Nat) {newest : Option FileInfo}
    (hnewest : ∀ snap ∈ newest, snap.minTxid = 1) (hg : Going U n fromTxid goal s₀ t s) :
    Spec (survey env levels bucketMax newest) s
      (fun r s' => Going U n fromTxid goal s₀ t s' ∧ ∀ snap ∈ r.2, snap.minTxid = 1)
      (fun _ s' => ∃ q, Stopped U n fromTxid s₀ q s') := by
  induction levels generalizing s bucketMax newest with
  | nil => exact ⟨hg, hnewest⟩
  | cons level levels ih =>
      have hlater : Going U n fromTxid goal s₀ t { s with clock := s.clock + 1 } :=
        hg.later ⟨rfl, rfl, rfl, Nat.le_succ _⟩ rfl
      unfold Replica.survey
      refine Spec.bind (Q := fun infos s' => Going U n fromTxid goal s₀ t s' ∧
          infos = (env.moment s.clock).bucket.ltxFiles level 0)
        (spec_listLevel ⟨hlater, rfl⟩ fun _ => ⟨_, hlater.stopped hset.bound⟩) ?_
      rintro infos s₁ ⟨hg₁, rfl⟩
      refine ih _ (fun snap hsnap => ?_) hg₁
      split at hsnap
      · rename_i hlevel
        rcases mem_foldl_newerSnapshot hsnap with hold | hlisted
        · exact hnewest snap hold
        · rw [hlevel, Bucket.ltxFiles_zero] at hlisted
          obtain ⟨st, hst, rfl⟩ := List.mem_map.mp hlisted
          exact (hset.faithful _).snapshots st hst
      · exact hnewest snap hsnap

/-- The position file follows. -/
theorem Setting.persist (hg : Going U n fromTxid goal s₀ t s) :
    Spec (persist env fromTxid t) s (fun r s' => r = t ∧ Ended U n fromTxid goal s₀ r s')
      (fun _ s' => ∃ q, Stopped U n fromTxid s₀ q s') := by
  unfold Replica.persist
  split
  · rename_i hlt
    have hrooted : s.rooted = true := by
      by_contra hne
      exact absurd (hg.foreign (Bool.not_eq_true _ ▸ hne)) (by omega)
    have hle : t ≤ n := (hg.held hrooted).le.trans (hg.held hrooted).bound
    refine Spec.bind (Q := fun _ s' => Ended U n fromTxid goal s₀ t s') ?_ fun _ s' h => ⟨rfl, h⟩
    -- the position file is written beside, renamed and synced
    unfold advanceTxidFile
    refine Spec.bind (hset.pass .io hg) fun _ s₁ hg₁ => ?_
    refine Spec.bind (hset.pass .io hg₁) fun _ s₂ hg₂ => ?_
    refine Spec.bind (hset.pass .io hg₂) fun _ s₃ hg₃ => ?_
    have hended : ∀ k, Ended U n fromTxid goal s₀ t
        { s₃ with txid := some (txidLine t), clock := k } :=
      fun k => ⟨hg₃.ge, .inr ⟨hlt, rfl⟩, hg₃.held, hg₃.foreign, hg₃.keeps, hg₃.fresh, hg₃.goal⟩
    have hstopped : ∀ k, Stopped U n fromTxid s₀ t
        { s₃ with txid := some (txidLine t), clock := k } :=
      fun k => ⟨hg₃.ge, .inr ⟨hle, rfl⟩, hg₃.held, hg₃.foreign, fun hr => (hg₃.keeps hr).1⟩
    have hlater : Going U n fromTxid goal s₀ t { s₃ with clock := s₃.clock + 1 } :=
      hg₃.later ⟨rfl, rfl, rfl, Nat.le_succ _⟩ rfl
    refine Spec.bind (Q := fun _ s' =>
      s' = { s₃ with txid := some (txidLine t), clock := s₃.clock + 1 })
      (spec_effect (fun _ => rfl) (fun _ _ => ⟨t, hstopped _⟩)
        fun _ => ⟨fromTxid, hlater.stopped hset.bound⟩) ?_
    rintro - - rfl
    exact spec_passAnyway (hended _) fun _ => ⟨t, hstopped _⟩
  · -- the round has not moved, and nothing is written
    rename_i hle
    obtain rfl : t = fromTxid := Nat.le_antisymm (not_lt.mp hle) hg.ge
    exact ⟨rfl, hg.ge, .inl ⟨rfl, hg.txid⟩, hg.held, hg.foreign, hg.keeps, hg.fresh, hg.goal⟩

/-- The end of a round. -/
theorem Setting.finishIncremental (allow : Bool) (hg : Going U n fromTxid goal s₀ t s) :
    Spec (finishIncremental env c opts pageSize fromTxid t allow) s
      (fun r s' => t ≤ r ∧ Ended U n fromTxid goal s₀ r s')
      (fun _ s' => ∃ q, Stopped U n fromTxid s₀ q s') := by
  have hpersist : ∀ {t' s'}, t ≤ t' → Going U n fromTxid goal s₀ t' s' →
      Spec (Replica.persist env fromTxid t') s'
        (fun r s' => t ≤ r ∧ Ended U n fromTxid goal s₀ r s')
        (fun _ s' => ∃ q, Stopped U n fromTxid s₀ q s') := by
    intro t' s' hle hg'
    refine (hset.persist hg').mono ?_ fun _ _ h => h
    rintro r s'' ⟨rfl, h⟩
    exact ⟨hle, h⟩
  unfold Replica.finishIncremental
  split
  · -- the round has not moved
    rename_i hcond
    refine Spec.bind (hset.survey _ _ (fun snap h => by cases h) hg) ?_
    rintro ⟨bucketMax, newest⟩ s₁ ⟨hg₁, hsnap⟩
    dsimp only
    split
    · -- no file is listed at all
      refine ⟨le_rfl, hg₁.ge, .inl ⟨hcond.1, hg₁.txid⟩, hg₁.held, hg₁.foreign, hg₁.keeps, hg₁.fresh,
        hg₁.goal⟩
    · split
      · -- the bucket is behind: diverged
        exact ⟨_, hg₁.stopped hset.bound⟩
      · -- the newest snapshot is the last resort
        refine Spec.bind (Q := fun r s' => t ≤ r ∧ Going U n fromTxid goal s₀ r s') ?_
          fun r s' h => hpersist h.1 h.2
        unfold fallBack
        split
        · exact ⟨le_rfl, hg₁⟩
        · rename_i snap
          split
          · rename_i hmax
            have hmin : snap.minTxid ≤ t + 1 := by rw [hsnap snap rfl]; omega
            refine Spec.bind (hset.pass .cancelled hg₁) fun _ s₂ hg₂ => ?_
            refine Spec.bind (hset.applyLtxFile hg₂ hmin hmax) fun done s₃ hg₃ => ?_
            cases done with
            | false => exact ⟨_, Going.stopped hg₃ hset.bound⟩
            | true => exact ⟨hmax.le, hg₃⟩
          · exact ⟨le_rfl, hg₁⟩
  · -- the round has moved, and its position is written
    exact hpersist le_rfl hg

/-- **A whole round**, however it goes. -/
theorem Setting.followBucket (hheld : s₀.rooted = true → Held U n fromTxid s₀.reached s₀.db) :
    Spec (followBucket env c opts pageSize fromTxid) s₀
      (fun r s' => Ended U n fromTxid goal s₀ r s')
      (fun _ s' => ∃ q, Stopped U n fromTxid s₀ q s') := by
  unfold Replica.followBucket
  refine Spec.bind (hset.listLevel _ _ (.start hheld)) fun l0 s₁ hg₁ => ?_
  refine Spec.bind (Q := fun (r : Nat × Bool) s' => Going U n fromTxid goal s₀ r.1 s') ?_ ?_
  · unfold applyListed
    split
    · refine Spec.bind (hset.fillFollowGap _ _ _ hg₁) ?_
      rintro ⟨current, saw⟩ s₂ ⟨-, hg₂⟩
      exact hg₂
    · exact (hset.applyLevel0 _ _ hg₁).mono (fun _ _ h => h.2) fun _ _ h => h
  · rintro ⟨current, allow⟩ s₂ hg₂
    exact (hset.finishIncremental allow hg₂).mono (fun _ _ h => h.2) fun _ _ h => h

end

end Replica

end Liters
