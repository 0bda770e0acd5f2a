import Liters.Replica.Round

/-! # How far a round gets

Where each loop of a round stops if no file that the round can use is taken away while it runs. A
level is left when the gap is closed or none of its files continues the position (`LevelEnd`); a
bridge is given up when that holds of every level (`BridgeEnd`); the level-0 files are left when
they are all behind the position, or at a gap that no level closed (`ListEnd`). A round that stays
where it was has found nothing at any level (`RoundEnd`).

The errors of a round are those of its surroundings: without `trouble` it returns. -/

namespace Liters

/-- `info` continues a replica at `t`. -/
def FileInfo.Continues (t : Nat) (info : FileInfo) : Prop := info.minTxid ≤ t + 1 ∧ t < info.maxTxid

/-- Below the last TXID the successor does not wrap. -/
theorem wrappingSucc_eq {t : Nat} (h : t < 2 ^ 64 - 1) : wrappingSucc t = t + 1 :=
  Nat.mod_eq_of_lt (by omega)

/-- A round at `p` finds something: the level-0 file right behind it, a file of the levels 1 to 8
that continues it, or a newer snapshot. -/
def Bucket.Onward (b : Bucket) (p : Nat) : Prop :=
  (∃ x ∈ b 0, x.minTxid = p + 1) ∨ (∃ level ∈ Replica.gapLevels, ∃ x ∈ b level, x.Continues p) ∨
    ∃ x ∈ b snapshotLevel, p < x.maxTxid

/-- No file that reaches beyond `p` is taken away while the sync runs. -/
def SyncEnv.Lasting (env : SyncEnv) (p : Nat) : Prop :=
  ∀ i j, i ≤ j → ∀ level, ∀ x ∈ (env.moment i).bucket level, p < x.maxTxid →
    ∃ y ∈ (env.moment j).bucket level, y.key = x.key

namespace Replica

/-- What a round from `fromTxid` on relies on to get ahead: the bucket holds files of one history,
and no file that reaches beyond `fromTxid` is removed while the round runs. Without `trouble` each
step is done, page sizes match, and the bucket is not behind. -/
structure Road (c : Codec) (U : Uploads) (n : Nat) (env : SyncEnv) (pageSize fromTxid : Nat)
    (trouble : Prop) : Prop where
  lawful : c.Lawful
  bound : n < 2 ^ 64 - 1
  position : fromTxid < 2 ^ 64 - 1
  faithful : ∀ i, Faithful c U n (env.moment i).bucket
  lasting : env.Lasting fromTxid
  calm : ¬ trouble → ∀ i, (env.moment i).turn = .done
  size : ¬ trouble → pageSize = U.pageSize.toNat
  ahead : ¬ trouble → ∃ level ∈ allLevels, ∀ i, ∃ x ∈ (env.moment i).bucket level,
    fromTxid ≤ x.maxTxid

/-- Files as a level listed them at moment `i`. -/
structure Shown (env : SyncEnv) (i level : Nat) (infos : List FileInfo) : Prop where
  mem : ∀ info ∈ infos, ∃ x ∈ (env.moment i).bucket level, info = x.info level
  sorted : infos.Pairwise fun a b => a.minTxid ≤ b.minTxid

/-- The rest of a listing was shown too. -/
theorem Shown.tail {env : SyncEnv} {i level : Nat} {info : FileInfo} {infos : List FileInfo}
    (h : Shown env i level (info :: infos)) : Shown env i level infos :=
  ⟨fun x hx => h.mem x (List.mem_cons_of_mem _ hx), (List.pairwise_cons.mp h.sorted).2⟩

/-- Nothing was done but waiting. -/
structure Idle (s s' : Follower) : Prop where
  db : s'.db = s.db
  txid : s'.txid = s.txid

/-- Nothing has moved yet. -/
theorem Idle.refl (s : Follower) : Idle s s := ⟨rfl, rfl⟩

/-- What is idle twice is idle. -/
theorem Idle.trans {s₁ s₂ s₃ : Follower} (h : Idle s₁ s₂) (h' : Idle s₂ s₃) : Idle s₁ s₃ :=
  ⟨h'.db.trans h.db, h'.txid.trans h.txid⟩

variable {c : Codec} {U : Uploads} {n : Nat} {env : SyncEnv} {opts : ReplicaOptions}
  {pageSize fromTxid : Nat} {trouble : Prop} {s : Follower} {t : Nat}

section
variable (hroad : Road c U n env pageSize fromTxid trouble)
include hroad

/-! ## Steps -/

/-- On the road an effect is done, or there is trouble. -/
theorem Road.effect (e : ReplicaError) (f : Moment → Follower → Follower) (s : Follower) :
    Spec (effect env e f) s (fun _ s' => ∃ m, s' = f m { s with clock := s.clock + 1 })
      (fun _ _ => trouble) := by
  by_cases htrouble : trouble
  · exact spec_effect (fun m => ⟨m, rfl⟩) (fun _ _ => htrouble) fun _ => htrouble
  · unfold Replica.effect
    rw [spec_bind, spec_tick, hroad.calm htrouble]
    exact ⟨_, rfl⟩

/-- So is a step without one. -/
theorem Road.pass (e : ReplicaError) (s : Follower) :
    Spec (pass env e) s (fun _ s' => s' = { s with clock := s.clock + 1 })
      (fun _ _ => trouble) := by
  refine (hroad.effect e (fun _ s => s) s).mono ?_ fun _ _ h => h
  rintro - s' ⟨-, rfl⟩
  rfl

/-- A request is answered, or there is trouble. -/
theorem Road.request (s : Follower) :
    Spec (request env) s
      (fun b s' => b = (env.moment s.clock).bucket ∧ s' = { s with clock := s.clock + 1 })
      (fun _ _ => trouble) := by
  by_cases htrouble : trouble
  · exact spec_request ⟨rfl, rfl⟩ fun _ => htrouble
  · unfold Replica.request
    rw [spec_bind, spec_tick, hroad.calm htrouble]
    exact ⟨rfl, rfl⟩

/-- So is a listing. -/
theorem Road.listLevel (level seek : Nat) (s : Follower) :
    Spec (listLevel env level seek) s
      (fun infos s' => infos = (env.moment s.clock).bucket.ltxFiles level seek ∧
        s' = { s with clock := s.clock + 1 }) (fun _ _ => trouble) := by
  unfold Replica.listLevel
  refine Spec.bind (hroad.request s) ?_
  rintro b s' ⟨rfl, rfl⟩
  exact ⟨rfl, rfl⟩

/-! ## Applying a file -/

/-- Pages are written, or there is trouble. -/
theorem Road.writePages (pages : List Page) (s : Follower) :
    Spec (writePages env pageSize pages) s (fun _ s' => s.clock ≤ s'.clock)
      (fun _ _ => trouble) := by
  induction pages generalizing s with
  | nil => exact Nat.le_refl _
  | cons page pages ih =>
      unfold Replica.writePages
      refine Spec.bind (hroad.effect _ _ s) ?_
      rintro - s₁ ⟨m, rfl⟩
      exact (ih _).mono (fun _ s' h => (Nat.le_succ _).trans h) fun _ _ h => h

/-- So is a file. -/
theorem Road.writeFile (hdr : Header) (pages : List Page) (s : Follower) :
    Spec (writeFile env pageSize hdr pages) s (fun _ s' => s.clock ≤ s'.clock)
      (fun _ _ => trouble) := by
  unfold Replica.writeFile
  refine Spec.bind (hroad.writePages pages s) fun _ s₁ h₁ => ?_
  refine Spec.bind (Q := fun _ s' => s.clock ≤ s'.clock) ?_ fun _ s₂ h₂ => ?_
  · unfold setSize
    split
    · refine (hroad.effect _ _ s₁).mono ?_ fun _ _ h => h
      rintro - s' ⟨m, rfl⟩
      exact h₁.trans (Nat.le_succ _)
    · exact h₁
  · refine (hroad.pass .io s₂).mono ?_ fun _ _ h => h
    rintro - s' rfl
    exact h₂.trans (Nat.le_succ _)

/-- A file of the history is applied. -/
theorem Road.applySpooled {f : LtxFile} (hsize : f.hdr.pageSize = U.pageSize) {body : Bytes}
    (hbody : body = f.bytes c) (s : Follower) :
    Spec (applySpooled env c opts pageSize body) s (fun _ s' => s.clock ≤ s'.clock)
      (fun _ _ => trouble) := by
  rw [hbody, applySpooled_bytes hroad.lawful]
  split
  · -- all files have the page size of the uploads
    rename_i hne
    by_contra htrouble
    rw [hsize] at hne
    exact hne (hroad.size htrouble).symm
  · unfold applyDecoded
    -- the lock, then the pages, then the bookkeeping: time only goes forward
    refine Spec.bind (Q := fun _ s' => s.clock ≤ s'.clock) ?_ fun _ s₁ h₁ => ?_
    · unfold takeLock
      split
      · refine (hroad.pass .lockBusy s).mono ?_ fun _ _ h => h
        rintro - s' rfl
        exact Nat.le_succ _
      · exact Nat.le_refl _
    · rw [spec_bind, spec_modify]
      refine Spec.bind (hroad.writeFile f.hdr f.pages _) fun _ s₂ h₂ => ?_
      rw [spec_modify]
      have hclock : (s₂.finish f.hdr).clock = s₂.clock := by
        unfold Follower.finish
        split
        · rfl
        · split
          · rfl
          · rfl
      rw [hclock]
      exact h₁.trans h₂

/-- **A file that was listed is there when it is fetched.** -/
theorem Road.applyLtxFile {i level : Nat} {x : Stored} (hx : x ∈ (env.moment i).bucket level)
    (hmax : fromTxid < x.maxTxid) (hi : i ≤ s.clock) :
    Spec (applyLtxFile env c opts pageSize (x.info level)) s
      (fun done s' => done = true ∧ s.clock ≤ s'.clock) (fun _ _ => trouble) := by
  unfold Replica.applyLtxFile
  refine Spec.bind (hroad.request s) ?_
  rintro b s₁ ⟨rfl, rfl⟩
  obtain ⟨y, hy, hkey⟩ := hroad.lasting i s.clock hi level x hx hmax
  obtain ⟨z, hz, -, hopen⟩ := Bucket.openLtxFile_of_mem hy
  obtain ⟨hmin, hmax'⟩ := Prod.mk.inj hkey
  rw [hmin, hmax'] at hopen
  obtain ⟨f, hbody, hf, -, -⟩ := ((hroad.faithful s.clock).files level z hz).fileOk
  have hopen' : (env.moment s.clock).bucket.openLtxFile (x.info level).level (x.info level).minTxid
      (x.info level).maxTxid = some z.body := hopen
  rw [hopen']
  dsimp only
  refine Spec.bind (hroad.pass .io _) ?_
  rintro - s₂ rfl
  refine Spec.bind (hroad.pass .io _) ?_
  rintro - s₃ rfl
  refine Spec.bind (hroad.pass .io _) ?_
  rintro - s₄ rfl
  refine Spec.bind (hroad.applySpooled hf.size hbody _) fun _ s₅ h₅ => ?_
  refine ⟨rfl, le_trans ?_ h₅⟩
  show s.clock ≤ s.clock + 1 + 1 + 1 + 1
  omega

/-- What a listing shows. -/
theorem Road.shown (i level seek : Nat) :
    Shown env i level ((env.moment i).bucket.ltxFiles level seek) where
  mem := by
    intro info hinfo
    obtain ⟨x, hx, rfl⟩ := List.mem_map.mp hinfo
    exact ⟨x, List.mem_of_mem_filter hx, rfl⟩
  sorted := by
    rw [Bucket.ltxFiles, List.pairwise_map]
    refine (((hroad.faithful i).sorted level).filter _).imp fun {x y} hxy => ?_
    show x.minTxid ≤ y.minTxid
    unfold Stored.Before at hxy
    omega

/-- The range of a listed file. -/
theorem Road.range {i level : Nat} {x : Stored} (hx : x ∈ (env.moment i).bucket level) :
    1 ≤ x.minTxid ∧ x.minTxid ≤ x.maxTxid ∧ x.maxTxid < 2 ^ 64 - 1 := by
  obtain ⟨h1, h2, h3⟩ := ((hroad.faithful i).files level x hx).range
  exact ⟨h1, h2, lt_of_le_of_lt h3 hroad.bound⟩

/-! ## One level of a bridge -/

end

/-- Where the search of one level from `t` on ends: with the gap closed, or where none of the listed
files continues the position. -/
structure LevelEnd (gapMin : Nat) (infos : List FileInfo) (t : Nat) (s : Follower)
    (r : Nat × GapEnd) (s' : Follower) : Prop where
  clock : s.clock ≤ s'.clock
  ge : t ≤ r.1
  lt : r.1 < 2 ^ 64 - 1
  idle : r.1 = t → Idle s s'
  found : r.2 ≠ .notFound
  filled : r.2 = .filled → t < r.1 ∧ gapMin ≤ r.1 + 1
  exhausted : r.2 = .exhausted → ∀ info ∈ infos, ¬ info.Continues r.1
  moved : t < r.1 → ∃ info ∈ infos, info.Continues t

/-- A file in front that does not continue the position is passed by. -/
theorem LevelEnd.cons {gapMin : Nat} {infos : List FileInfo} {r : Nat × GapEnd} {s' : Follower}
    (h : LevelEnd gapMin infos t s r s') (info : FileInfo) (hmax : info.maxTxid ≤ t) :
    LevelEnd gapMin (info :: infos) t s r s' where
  clock := h.clock
  ge := h.ge
  lt := h.lt
  idle := h.idle
  found := h.found
  filled := h.filled
  exhausted := by
    intro hend x hx
    rcases List.mem_cons.mp hx with rfl | hx
    · exact fun hcont => absurd hcont.2 (not_lt.mpr (hmax.trans h.ge))
    · exact h.exhausted hend x hx
  moved := by
    intro hlt
    obtain ⟨x, hx, hcont⟩ := h.moved hlt
    exact ⟨x, List.mem_cons_of_mem _ hx, hcont⟩

section
variable (hroad : Road c U n env pageSize fromTxid trouble)
include hroad

/-- **One level.** -/
theorem Road.fillLevel (gapMin : Nat) {i level : Nat} {infos : List FileInfo}
    (hshown : Shown env i level infos) (hi : i ≤ s.clock) (hfrom : fromTxid ≤ t)
    (ht : t < 2 ^ 64 - 1) :
    Spec (fillLevel env c opts pageSize gapMin infos t) s
      (fun r s' => LevelEnd gapMin infos t s r s') (fun _ _ => trouble) := by
  induction infos generalizing t s with
  | nil =>
      exact ⟨le_rfl, le_rfl, ht, fun _ => .refl s, fun h => (by cases h), fun h => (by cases h),
        fun _ info hinfo => (by cases hinfo), fun h => absurd h (lt_irrefl t)⟩
  | cons info infos ih =>
      unfold Replica.fillLevel
      rw [wrappingSucc_eq ht]
      split
      · rename_i hgap
        -- the level has a gap too: its later files start even later
        refine ⟨le_rfl, le_rfl, ht, fun _ => .refl s, fun h => (by cases h), fun h => (by cases h),
          fun _ x hx hcont => ?_, fun h => absurd h (lt_irrefl t)⟩
        have hle : info.minTxid ≤ x.minTxid := by
          rcases List.mem_cons.mp hx with rfl | hx
          · exact le_rfl
          · exact (List.pairwise_cons.mp hshown.sorted).1 x hx
        exact absurd (hle.trans hcont.1) (not_le.mpr hgap)
      · rename_i hgap
        split
        · rename_i hbehind
          exact (ih hshown.tail hi hfrom ht).mono (fun r s' h => h.cons info hbehind) fun _ _ h => h
        · rename_i hbehind
          obtain ⟨x, hx, rfl⟩ := hshown.mem info (List.mem_cons_self ..)
          have hcont : (x.info level).Continues t := ⟨not_lt.mp hgap, not_le.mp hbehind⟩
          have hlt : t < x.maxTxid := hcont.2
          obtain ⟨-, -, hmax⟩ := hroad.range hx
          refine Spec.bind (hroad.pass .cancelled s) ?_
          rintro - s₁ rfl
          refine Spec.bind (hroad.applyLtxFile hx (lt_of_le_of_lt hfrom hlt)
            (hi.trans (Nat.le_succ _))) ?_
          rintro done s₂ ⟨rfl, hclock⟩
          have hclock : s.clock ≤ s₂.clock := (Nat.le_succ _).trans hclock
          have hmem : x.info level ∈ x.info level :: infos := List.mem_cons_self ..
          rw [if_pos rfl]
          show Spec (if wrappingSucc x.maxTxid ≥ gapMin then pure (x.maxTxid, GapEnd.filled)
            else Replica.fillLevel env c opts pageSize gapMin infos x.maxTxid) _ _ _
          rw [wrappingSucc_eq hmax]
          split
          · rename_i hfilled
            exact ⟨hclock, hlt.le, hmax, fun h => absurd h hlt.ne', fun h => (by cases h),
              fun _ => ⟨hlt, hfilled⟩, fun h => (by cases h), fun _ => ⟨_, hmem, hcont⟩⟩
          · refine (ih hshown.tail (hi.trans hclock) (hfrom.trans hlt.le) hmax).mono ?_
              fun _ _ h => h
            intro r s' h
            have hend := h.cons (x.info level) le_rfl
            exact ⟨hclock.trans h.clock, hlt.le.trans h.ge, h.lt,
              fun heq => absurd heq (lt_of_lt_of_le hlt h.ge).ne', h.found,
              fun hr => ⟨lt_of_lt_of_le hlt h.ge, (h.filled hr).2⟩, hend.exhausted,
              fun _ => ⟨_, hmem, hcont⟩⟩

/-! ## The bridge over a gap -/

end

/-- Where a bridge from `t` on ends that was begun at moment `k`: where it started, if no level had
a file that continues the position; else at the first level that helped, with the gap closed or the
level left behind. -/
structure BridgeEnd (env : SyncEnv) (gapMin : Nat) (levels : List Nat) (k t r : Nat) : Prop where
  ge : t ≤ r
  lt : r < 2 ^ 64 - 1
  stayed : r = t → ∀ level ∈ levels, ∃ i, k ≤ i ∧
    ∀ x ∈ (env.moment i).bucket level, ¬ x.Continues t
  moved : t < r → ∃ level ∈ levels, ∃ i, k ≤ i ∧
    (∃ x ∈ (env.moment i).bucket level, x.Continues t) ∧
    (gapMin ≤ r + 1 ∨ ∀ x ∈ (env.moment i).bucket level, ¬ x.Continues r)

section
variable (hroad : Road c U n env pageSize fromTxid trouble)
include hroad

/-- **The bridge over a gap.** -/
theorem Road.fillFollowGap (gapMin : Nat) (levels : List Nat) (saw404 : Bool) {k : Nat}
    (hk : k ≤ s.clock) (hfrom : fromTxid ≤ t) (ht : t < 2 ^ 64 - 1) :
    Spec (fillFollowGap env c opts pageSize gapMin levels t saw404) s
      (fun r s' => s.clock ≤ s'.clock ∧ (r.1 = t → Idle s s') ∧ r.2 = saw404 ∧
        BridgeEnd env gapMin levels k t r.1) (fun _ _ => trouble) := by
  induction levels generalizing s with
  | nil =>
      refine ⟨le_rfl, fun _ => .refl s, rfl, le_rfl, ht,
        fun _ level hlevel => (by cases hlevel), ?_⟩
      exact fun h => absurd h (lt_irrefl t)
  | cons level levels ih =>
      unfold Replica.fillFollowGap
      refine Spec.bind (hroad.listLevel level 0 s) ?_
      rintro infos s₁ ⟨rfl, rfl⟩
      refine Spec.bind
        (hroad.fillLevel gapMin (hroad.shown s.clock level 0) (Nat.le_succ _) hfrom ht) ?_
      rintro ⟨current, ended⟩ s₂ hend
      have hclock : s.clock ≤ s₂.clock := (Nat.le_succ _).trans hend.clock
      have hidle : current = t → Idle s s₂ := fun h => ⟨(hend.idle h).db, (hend.idle h).txid⟩
      -- the listing was the whole level
      have hall : ∀ {q}, (∀ info ∈ (env.moment s.clock).bucket.ltxFiles level 0,
          ¬ info.Continues q) →
          ∀ x ∈ (env.moment s.clock).bucket level, ¬ x.Continues q := by
        intro q h x hx
        rw [Bucket.ltxFiles_zero] at h
        exact h (x.info level) (List.mem_map_of_mem hx)
      have hmoved : t < current → (gapMin ≤ current + 1 ∨
          ∀ x ∈ (env.moment s.clock).bucket level, ¬ x.Continues current) →
          BridgeEnd env gapMin (level :: levels) k t current := by
        intro hlt hwhy
        refine ⟨hend.ge, hend.lt, fun h => absurd h hlt.ne', fun _ => ⟨level, List.mem_cons_self ..,
          s.clock, hk, ?_, hwhy⟩⟩
        obtain ⟨info, hinfo, hcont⟩ := hend.moved hlt
        rw [Bucket.ltxFiles_zero] at hinfo
        obtain ⟨x, hx, rfl⟩ := List.mem_map.mp hinfo
        exact ⟨x, hx, hcont⟩
      cases ended with
      | notFound => exact absurd rfl hend.found
      | filled =>
          obtain ⟨hlt, hfilled⟩ := hend.filled rfl
          exact ⟨hclock, hidle, rfl, hmoved hlt (.inl hfilled)⟩
      | exhausted =>
          have hnone := hall (hend.exhausted rfl)
          dsimp only
          split
          · rename_i hlt
            exact ⟨hclock, hidle, rfl, hmoved hlt (.inr hnone)⟩
          · rename_i hsame
            obtain rfl : current = t := Nat.le_antisymm (not_lt.mp hsame) hend.ge
            refine (ih (hk.trans hclock)).mono ?_ fun _ _ h => h
            rintro r s' ⟨hclock', hidle', hsaw, hge, hlt, hstayed, hmoved'⟩
            refine ⟨hclock.trans hclock', fun h => (hidle rfl).trans (hidle' h), hsaw, hge, hlt,
              ?_, ?_⟩
            · intro h l hl
              rcases List.mem_cons.mp hl with rfl | hl
              · exact ⟨s.clock, hk, hnone⟩
              · exact hstayed h l hl
            · intro h
              obtain ⟨l, hl, rest⟩ := hmoved' h
              exact ⟨l, List.mem_cons_of_mem _ hl, rest⟩

/-! ## Level 0 -/

end

/-- Where the level-0 files from `t` on are left: behind all of them, or in front of one that starts
behind a gap which a bridge from `start` on did not close. -/
structure ListEnd (env : SyncEnv) (infos : List FileInfo) (k t r : Nat) : Prop where
  ge : t ≤ r
  lt : r < 2 ^ 64 - 1
  ended : (∀ info ∈ infos, info.maxTxid ≤ r) ∨
    ∃ info ∈ infos, ∃ start, t ≤ start ∧ r + 1 < info.minTxid ∧
      (∀ x ∈ infos, x.maxTxid ≤ start ∨ info.minTxid ≤ x.minTxid) ∧
      BridgeEnd env info.minTxid gapLevels k start r
  moved : t < r → (∃ info ∈ infos, info.Continues t) ∨
    ∃ level ∈ gapLevels, ∃ i, k ≤ i ∧ ∃ x ∈ (env.moment i).bucket level, x.Continues t

/-- A file in front that is behind the position is passed by. -/
theorem ListEnd.cons {infos : List FileInfo} {k q r : Nat} (h : ListEnd env infos k q r)
    {info : FileInfo} (hmax : info.maxTxid ≤ q) (hle : t ≤ q)
    (hmoved : t < r → (info.Continues t ∨ ∃ x ∈ infos, x.Continues t) ∨
      ∃ level ∈ gapLevels, ∃ i, k ≤ i ∧ ∃ x ∈ (env.moment i).bucket level, x.Continues t) :
    ListEnd env (info :: infos) k t r where
  ge := hle.trans h.ge
  lt := h.lt
  ended := by
    rcases h.ended with hall | ⟨x, hx, start, hstart, hgap, horder, hbridge⟩
    · refine .inl fun y hy => ?_
      rcases List.mem_cons.mp hy with rfl | hy
      · exact hmax.trans h.ge
      · exact hall y hy
    · refine .inr ⟨x, List.mem_cons_of_mem _ hx, start, hle.trans hstart, hgap, fun y hy => ?_,
        hbridge⟩
      rcases List.mem_cons.mp hy with rfl | hy
      · exact .inl (hmax.trans hstart)
      · exact horder y hy
  moved := by
    intro hlt
    rcases hmoved hlt with (hcont | ⟨x, hx, hcont⟩) | hbridge
    · exact .inl ⟨info, List.mem_cons_self .., hcont⟩
    · exact .inl ⟨x, List.mem_cons_of_mem _ hx, hcont⟩
    · exact .inr hbridge

section
variable (hroad : Road c U n env pageSize fromTxid trouble)
include hroad

/-- **The level-0 files.** -/
theorem Road.applyLevel0 {i : Nat} {infos : List FileInfo} (hshown : Shown env i 0 infos) {k : Nat}
    (hi : i ≤ s.clock) (hk : k ≤ s.clock) (hfrom : fromTxid ≤ t) (ht : t < 2 ^ 64 - 1)
    (saw404 : Bool) :
    Spec (applyLevel0 env c opts pageSize infos t saw404) s
      (fun r s' => s.clock ≤ s'.clock ∧ (r.1 = t → Idle s s') ∧ r.2 = !saw404 ∧
        ListEnd env infos k t r.1) (fun _ _ => trouble) := by
  induction infos generalizing t s with
  | nil =>
      exact ⟨le_rfl, fun _ => .refl s, rfl, le_rfl, ht, .inl fun info hinfo => (by cases hinfo),
        fun h => absurd h (lt_irrefl t)⟩
  | cons info infos ih =>
      unfold Replica.applyLevel0
      refine Spec.bind (hroad.pass .cancelled s) ?_
      rintro - s₁ rfl
      -- without a gap the bridge is empty
      refine Spec.bind (Q := fun (r : Nat × Bool) s' => s.clock ≤ s'.clock ∧ (r.1 = t → Idle s s') ∧
          r.2 = saw404 ∧ t ≤ r.1 ∧ r.1 < 2 ^ 64 - 1 ∧ (info.minTxid ≤ t + 1 → r.1 = t) ∧
          (t + 1 < info.minTxid → BridgeEnd env info.minTxid gapLevels k t r.1)) ?_ ?_
      · unfold closeGap
        rw [wrappingSucc_eq ht]
        split
        · rename_i hgap
          refine (hroad.fillFollowGap _ _ _ (hk.trans (Nat.le_succ _)) hfrom ht).mono ?_
            fun _ _ h => h
          rintro r s' ⟨hclock, hidle, hsaw, hbridge⟩
          exact ⟨(Nat.le_succ _).trans hclock, fun h => ⟨(hidle h).db, (hidle h).txid⟩, hsaw,
            hbridge.ge, hbridge.lt, fun h => absurd hgap (not_lt.mpr h), fun _ => hbridge⟩
        · rename_i hgap
          exact ⟨Nat.le_succ _, fun _ => ⟨rfl, rfl⟩, rfl, le_rfl, ht, fun _ => rfl,
            fun h => absurd h hgap⟩
      · rintro ⟨current, saw⟩ s₂ ⟨hclock, hidle, rfl, hle, hlt, hsame, hbridge⟩
        have hmoved : t < current →
            ∃ level ∈ gapLevels, ∃ i, k ≤ i ∧ ∃ x ∈ (env.moment i).bucket level, x.Continues t := by
          intro h
          have hgap : t + 1 < info.minTxid := by
            by_contra hno
            exact absurd (hsame (not_lt.mp hno)) h.ne'
          obtain ⟨level, hlevel, j, hj, hx, -⟩ := (hbridge hgap).moved h
          exact ⟨level, hlevel, j, hj, hx⟩
        dsimp only
        rw [wrappingSucc_eq hlt]
        split
        · rename_i hbehind
          refine (ih hshown.tail (hi.trans hclock) (hk.trans hclock) (hfrom.trans hle) hlt).mono ?_
            fun _ _ h => h
          rintro r s' ⟨hclock', hidle', hsaw, hend⟩
          refine ⟨hclock.trans hclock', fun h => ?_, hsaw, hend.cons hbehind hle fun h => ?_⟩
          · have hge := hend.ge
            obtain rfl : current = t := by omega
            exact (hidle rfl).trans (hidle' h)
          · rcases Nat.eq_or_lt_of_le hle with rfl | hlt
            · exact (hend.moved h).imp_left .inr
            · exact .inr (hmoved hlt)
        · rename_i hbehind
          split
          · rename_i hgap
            have hgap₀ : t + 1 < info.minTxid := by omega
            refine ⟨hclock, hidle, rfl, hle, hlt,
              .inr ⟨info, List.mem_cons_self .., t, le_rfl, hgap, fun x hx => .inr ?_,
              hbridge hgap₀⟩, fun h => .inr (hmoved h)⟩
            rcases List.mem_cons.mp hx with rfl | hx
            · exact le_rfl
            · exact (List.pairwise_cons.mp hshown.sorted).1 x hx
          · rename_i hgap
            obtain ⟨x, hx, rfl⟩ := hshown.mem info (List.mem_cons_self ..)
            have hcont : current < x.maxTxid := not_le.mp hbehind
            have hmin : x.minTxid ≤ current + 1 := not_lt.mp hgap
            obtain ⟨-, -, hmax⟩ := hroad.range hx
            refine Spec.bind (hroad.applyLtxFile hx (lt_of_le_of_lt (hfrom.trans hle) hcont)
              (hi.trans hclock)) ?_
            rintro done s₃ ⟨rfl, hclock₃⟩
            rw [if_pos rfl]
            refine (ih hshown.tail ((hi.trans hclock).trans hclock₃)
              ((hk.trans hclock).trans hclock₃)
              ((hfrom.trans hle).trans hcont.le) hmax).mono ?_ fun _ _ h => h
            rintro r s' ⟨hclock', -, hsaw, hend⟩
            have hahead : t < r.1 := lt_of_le_of_lt hle (lt_of_lt_of_le hcont hend.ge)
            refine ⟨(hclock.trans hclock₃).trans hclock', fun h => absurd h hahead.ne', hsaw,
              hend.cons le_rfl (hle.trans hcont.le) fun _ => ?_⟩
            rcases Nat.eq_or_lt_of_le hle with rfl | hlt
            · exact .inl (.inl ⟨hmin, hcont⟩)
            · exact .inr (hmoved hlt)

/-! ## The end of a round -/

end

/-- The maximum over a listing, from a first value on. -/
theorem foldl_max_spec (infos : List FileInfo) (m : Nat) :
    m ≤ infos.foldl (fun m info => max m info.maxTxid) m ∧
      (∀ info ∈ infos, info.maxTxid ≤ infos.foldl (fun m info => max m info.maxTxid) m) ∧
      (infos.foldl (fun m info => max m info.maxTxid) m = m ∨
        ∃ info ∈ infos, info.maxTxid = infos.foldl (fun m info => max m info.maxTxid) m) := by
  induction infos generalizing m with
  | nil => exact ⟨le_rfl, fun info hinfo => (by cases hinfo), .inl rfl⟩
  | cons info infos ih =>
      rw [List.foldl_cons]
      obtain ⟨hge, hall, hattained⟩ := ih (max m info.maxTxid)
      refine ⟨(le_max_left ..).trans hge, fun x hx => ?_, ?_⟩
      · rcases List.mem_cons.mp hx with rfl | hx
        · exact (le_max_right ..).trans hge
        · exact hall x hx
      · rcases hattained with heq | ⟨x, hx, heq⟩
        · rcases le_total info.maxTxid m with hle | hle
          · rw [max_eq_left hle] at heq ⊢
            exact .inl heq
          · rw [max_eq_right hle] at heq ⊢
            exact .inr ⟨info, List.mem_cons_self .., heq.symm⟩
        · exact .inr ⟨x, List.mem_cons_of_mem _ hx, heq⟩

/-- The snapshot a survey picks reaches as far as each one it saw. -/
theorem foldl_newerSnapshot_ge (infos : List FileInfo) (newest : Option FileInfo) {info : FileInfo}
    (h : info ∈ newest ∨ info ∈ infos) :
    ∃ snap ∈ infos.foldl newerSnapshot newest, info.maxTxid ≤ snap.maxTxid := by
  induction infos generalizing newest info with
  | nil =>
      rcases h with h | h
      · exact ⟨info, h, le_rfl⟩
      · cases h
  | cons x infos ih =>
      rw [List.foldl_cons]
      -- the newer one of the two reaches as far as either
      have hboth : ∃ snap ∈ newerSnapshot newest x, x.maxTxid ≤ snap.maxTxid ∧
          ∀ y ∈ newest, y.maxTxid ≤ snap.maxTxid := by
        unfold newerSnapshot
        cases newest with
        | none => exact ⟨x, rfl, le_rfl, fun y hy => (by cases hy)⟩
        | some z =>
            dsimp only
            split
            · rename_i hlt
              refine ⟨x, rfl, le_rfl, fun y hy => ?_⟩
              rw [← Option.mem_some_iff.mp hy]
              exact hlt.le
            · rename_i hle
              refine ⟨z, rfl, not_lt.mp hle, fun y hy => ?_⟩
              rw [← Option.mem_some_iff.mp hy]
      obtain ⟨snap, hsnap, hx, hnewest⟩ := hboth
      obtain ⟨last, hlast, hle⟩ := ih _ (.inl hsnap)
      rcases h with hy | hy
      · exact ⟨last, hlast, (hnewest info hy).trans hle⟩
      · rcases List.mem_cons.mp hy with rfl | hy
        · exact ⟨last, hlast, hx.trans hle⟩
        · exact ih _ (.inr hy)

/-- What a survey begun at moment `k` finds. -/
structure SurveyEnd (env : SyncEnv) (levels : List Nat) (k m : Nat) (newest : Option FileInfo)
    (r : Nat × Option FileInfo) (s' : Follower) : Prop where
  ge : m ≤ r.1
  upper : ∀ level ∈ levels, ∃ i, k ≤ i ∧ ∀ x ∈ (env.moment i).bucket level, x.maxTxid ≤ r.1
  attained : r.1 = m ∨ ∃ level, ∃ i, ∃ x ∈ (env.moment i).bucket level, x.maxTxid = r.1
  kept : ∀ x ∈ newest, ∃ snap ∈ r.2, x.maxTxid ≤ snap.maxTxid
  snapshots : snapshotLevel ∈ levels → ∃ i, k ≤ i ∧
    ∀ x ∈ (env.moment i).bucket snapshotLevel, ∃ snap ∈ r.2, x.maxTxid ≤ snap.maxTxid
  shown : ∀ snap ∈ r.2, snap ∈ newest ∨ ∃ i ≤ s'.clock,
    ∃ x ∈ (env.moment i).bucket snapshotLevel, snap = x.info snapshotLevel

section
variable (hroad : Road c U n env pageSize fromTxid trouble)
include hroad

/-- **The survey of the bucket.** -/
theorem Road.survey (levels : List Nat) (m : Nat) (newest : Option FileInfo) {k : Nat}
    (hk : k ≤ s.clock) :
    Spec (survey env levels m newest) s
      (fun r s' => s.clock ≤ s'.clock ∧ Idle s s' ∧ SurveyEnd env levels k m newest r s')
      (fun _ _ => trouble) := by
  induction levels generalizing s m newest with
  | nil =>
      exact ⟨le_rfl, .refl s, le_rfl, fun level hlevel => (by cases hlevel), .inl rfl,
        fun x hx => ⟨x, hx, le_rfl⟩, fun hlevel => (by cases hlevel), fun snap hsnap => .inl hsnap⟩
  | cons level levels ih =>
      unfold Replica.survey
      refine Spec.bind (hroad.listLevel level 0 s) ?_
      rintro infos s₁ ⟨rfl, rfl⟩
      obtain ⟨hge, hall, hattained⟩ :=
        foldl_max_spec ((env.moment s.clock).bucket.ltxFiles level 0) m
      rw [Bucket.ltxFiles_zero] at hge hall hattained ⊢
      refine (ih _ _ (hk.trans (Nat.le_succ _))).mono ?_ fun _ _ h => h
      rintro r s' ⟨hclock, hidle, hend⟩
      have hclock' : s.clock ≤ s'.clock := (Nat.le_succ _).trans hclock
      refine ⟨hclock', ⟨hidle.db, hidle.txid⟩, hge.trans hend.ge, ?_, ?_, ?_, ?_, ?_⟩
      · -- the bound of this level is the one of its listing, the others come later
        intro l hl
        rcases List.mem_cons.mp hl with rfl | hl
        · exact ⟨s.clock, hk, fun x hx => (hall (x.info l) (List.mem_map_of_mem hx)).trans hend.ge⟩
        · exact hend.upper l hl
      · -- the maximum is attained by a file of this level or a later one
        rcases hend.attained with heq | hfound
        · rcases hattained with heq' | ⟨info, hinfo, heq'⟩
          · exact .inl (heq.trans heq')
          · obtain ⟨x, hx, rfl⟩ := List.mem_map.mp hinfo
            exact .inr ⟨level, s.clock, x, hx, heq'.trans heq.symm⟩
        · exact .inr hfound
      · -- a snapshot kept so far is only replaced by one that reaches further
        intro x hx
        have hstep : ∃ y ∈ (if level = snapshotLevel then
            ((env.moment s.clock).bucket level |>.map (Stored.info level)).foldl newerSnapshot
              newest
            else newest), x.maxTxid ≤ y.maxTxid := by
          split
          · exact foldl_newerSnapshot_ge _ _ (.inl hx)
          · exact ⟨x, hx, le_rfl⟩
        obtain ⟨y, hy, hxy⟩ := hstep
        obtain ⟨snap, hsnap, hle⟩ := hend.kept y hy
        exact ⟨snap, hsnap, hxy.trans hle⟩
      · -- at the snapshot level every listed snapshot is compared
        intro hmem
        by_cases hlevel : level = snapshotLevel
        · refine ⟨s.clock, hk, fun x hx => ?_⟩
          rw [← hlevel] at hx
          obtain ⟨y, hy, hxy⟩ := foldl_newerSnapshot_ge
            (((env.moment s.clock).bucket level).map (Stored.info level)) newest
            (.inr (List.mem_map_of_mem hx))
          obtain ⟨snap, hsnap, hle⟩ := hend.kept y (by rw [if_pos hlevel]; exact hy)
          exact ⟨snap, hsnap, hxy.trans hle⟩
        · rcases List.mem_cons.mp hmem with heq | hmem
          · exact absurd heq.symm hlevel
          · exact hend.snapshots hmem
      · -- what is kept was kept before or listed here
        intro snap hsnap
        rcases hend.shown snap hsnap with hold | hshown
        · split at hold
          · rename_i hlevel
            rcases mem_foldl_newerSnapshot hold with hold | hlisted
            · exact .inl hold
            · obtain ⟨x, hx, rfl⟩ := List.mem_map.mp hlisted
              subst hlevel
              exact .inr ⟨s.clock, hclock', x, hx, rfl⟩
          · exact .inl hold
        · exact .inr hshown

/-- The position file follows the position. -/
theorem Road.persist (t : Nat) (s : Follower) :
    Spec (persist env fromTxid t) s (fun r s' => r = t ∧ (t = fromTxid → Idle s s'))
      (fun _ _ => trouble) := by
  unfold Replica.persist
  split
  · rename_i hlt
    refine Spec.bind (Q := fun _ _ => True) ?_ fun _ s' _ => ⟨rfl, fun h => absurd h hlt.ne'⟩
    unfold advanceTxidFile
    refine Spec.bind (hroad.pass .io s) fun _ s₁ _ => ?_
    refine Spec.bind (hroad.pass .io s₁) fun _ s₂ _ => ?_
    refine Spec.bind (hroad.pass .io s₂) fun _ s₃ _ => ?_
    refine Spec.bind (hroad.effect _ _ s₃) fun _ s₄ _ => ?_
    by_cases htrouble : trouble
    · exact spec_passAnyway trivial fun _ => htrouble
    · unfold passAnyway
      rw [spec_bind, spec_tick, hroad.calm htrouble]
      trivial
  · exact ⟨rfl, fun _ => .refl s⟩

end

/-- Where a round from `fromTxid` on ends whose first request was made at moment `k`. -/
structure RoundEnd (env : SyncEnv) (fromTxid k : Nat) (s : Follower) (r : Nat) (s' : Follower) :
    Prop where
  ge : fromTxid ≤ r
  /-- the level-0 files were left at `q`, which is where the round ends unless it fell back from its
  start -/
  list : ∃ q, ListEnd env ((env.moment k).bucket.ltxFiles 0 (fromTxid + 1)) k fromTxid q ∧
    (r = q ∨ q = fromTxid)
  idle : r = fromTxid → Idle s s'
  noFile : r = fromTxid → ∀ x ∈ (env.moment k).bucket 0, x.minTxid ≠ fromTxid + 1
  noBridge : r = fromTxid → ∀ level ∈ gapLevels, ∃ i, k ≤ i ∧
    ∀ x ∈ (env.moment i).bucket level, ¬ x.Continues fromTxid
  noSnapshot : r = fromTxid → ∃ i, k ≤ i ∧
    ∀ x ∈ (env.moment i).bucket snapshotLevel, x.maxTxid ≤ fromTxid
  notBehind : r = fromTxid → (∀ level ∈ allLevels, ∃ i, k ≤ i ∧ (env.moment i).bucket level = []) ∨
    ∃ level, ∃ i, ∃ x ∈ (env.moment i).bucket level, fromTxid ≤ x.maxTxid
  moved : fromTxid < r → (∃ x ∈ (env.moment k).bucket 0, x.minTxid = fromTxid + 1) ∨
    (∃ level ∈ gapLevels, ∃ i, ∃ x ∈ (env.moment i).bucket level, x.Continues fromTxid) ∨
    ∃ i, ∃ x ∈ (env.moment i).bucket snapshotLevel, fromTxid < x.maxTxid

/-- The survey looks at the snapshot level. -/
theorem snapshotLevel_mem_allLevels : snapshotLevel ∈ allLevels := by decide

section
variable (hroad : Road c U n env pageSize fromTxid trouble)
include hroad

/-- **The end of a round** that has not moved. -/
theorem Road.finishIncremental {k : Nat} (hk : k ≤ s.clock) :
    Spec (finishIncremental env c opts pageSize fromTxid fromTxid true) s
      (fun r s' => fromTxid ≤ r ∧ (r = fromTxid → Idle s s' ∧
          (∃ i, k ≤ i ∧ ∀ x ∈ (env.moment i).bucket snapshotLevel, x.maxTxid ≤ fromTxid) ∧
          ((∀ level ∈ allLevels, ∃ i, k ≤ i ∧ (env.moment i).bucket level = []) ∨
            ∃ level, ∃ i, ∃ x ∈ (env.moment i).bucket level, fromTxid ≤ x.maxTxid)) ∧
        (fromTxid < r → ∃ i, ∃ x ∈ (env.moment i).bucket snapshotLevel, fromTxid < x.maxTxid))
      (fun _ _ => trouble) := by
  unfold Replica.finishIncremental
  rw [if_pos ⟨rfl, rfl⟩]
  refine Spec.bind (hroad.survey allLevels 0 none hk) ?_
  rintro ⟨bucketMax, newest⟩ s₁ ⟨hclock, hidle, hend⟩
  dsimp only
  obtain ⟨i, hi, hsnapshots⟩ := hend.snapshots snapshotLevel_mem_allLevels
  split
  · rename_i hzero
    -- an empty bucket: every file reaches transaction 1 at least
    have hempty : ∀ level ∈ allLevels, ∃ i, k ≤ i ∧ (env.moment i).bucket level = [] := by
      intro level hlevel
      obtain ⟨j, hj, hupper⟩ := hend.upper level hlevel
      refine ⟨j, hj, List.eq_nil_iff_forall_not_mem.mpr fun x hx => ?_⟩
      obtain ⟨h1, h2, -⟩ := hroad.range hx
      have hle : x.maxTxid ≤ bucketMax := hupper x hx
      omega
    obtain ⟨j, hj, hnil⟩ := hempty snapshotLevel snapshotLevel_mem_allLevels
    refine ⟨le_rfl, fun _ => ⟨hidle, ⟨j, hj, fun x hx => ?_⟩, .inl hempty⟩,
      fun h => absurd h (lt_irrefl _)⟩
    rw [hnil] at hx
    cases hx
  · rename_i hzero
    have hfound : ∃ level, ∃ i, ∃ x ∈ (env.moment i).bucket level, x.maxTxid = bucketMax :=
      hend.attained.resolve_left hzero
    split
    · rename_i hlt
      by_contra htrouble
      obtain ⟨level, hlevel, hahead⟩ := hroad.ahead htrouble
      obtain ⟨j, -, hupper⟩ := hend.upper level hlevel
      obtain ⟨x, hx, hle⟩ := hahead j
      exact absurd (hle.trans (hupper x hx)) (not_le.mpr hlt)
    · rename_i hge
      obtain ⟨level, j, y, hy, heq⟩ := hfound
      have hreach : ∃ level, ∃ i, ∃ x ∈ (env.moment i).bucket level, fromTxid ≤ x.maxTxid :=
        ⟨level, j, y, hy, by rw [heq]; exact not_lt.mp hge⟩
      refine Spec.bind (Q := fun current s' => (current = fromTxid → Idle s s' ∧
          ∀ x ∈ (env.moment i).bucket snapshotLevel, x.maxTxid ≤ fromTxid) ∧ fromTxid ≤ current ∧
          (fromTxid < current → ∃ i, ∃ x ∈ (env.moment i).bucket snapshotLevel,
            fromTxid < x.maxTxid))
        ?_ ?_
      · unfold fallBack
        split
        · refine ⟨fun _ => ⟨hidle, fun x hx => ?_⟩, le_rfl, fun h => absurd h (lt_irrefl _)⟩
          obtain ⟨snap, hsnap, -⟩ := hsnapshots x hx
          cases hsnap
        · rename_i snap
          rcases hend.shown snap rfl with hold | ⟨j, hj, z, hz, rfl⟩
          · cases hold
          split
          · rename_i hlt
            have hlt : fromTxid < z.maxTxid := hlt
            refine Spec.bind (hroad.pass .cancelled s₁) ?_
            rintro - s₂ rfl
            refine Spec.bind (hroad.applyLtxFile hz hlt (hj.trans (Nat.le_succ _))) ?_
            rintro done s₃ ⟨rfl, -⟩
            exact ⟨fun h => absurd h hlt.ne', hlt.le, fun _ => ⟨j, z, hz, hlt⟩⟩
          · rename_i hle
            refine ⟨fun _ => ⟨hidle, fun x hx => ?_⟩, le_rfl, fun h => absurd h (lt_irrefl _)⟩
            obtain ⟨snap, hsnap, hle'⟩ := hsnapshots x hx
            rw [← Option.mem_some_iff.mp hsnap] at hle'
            exact hle'.trans (not_lt.mp hle)
      · rintro current s₂ ⟨hsame, hle, hmoved⟩
        refine (hroad.persist _ s₂).mono ?_ fun _ _ h => h
        rintro r s' ⟨rfl, hidle'⟩
        refine ⟨hle, fun h => ?_, hmoved⟩
        obtain ⟨hid, hall⟩ := hsame h
        exact ⟨hid.trans (hidle' h), ⟨i, hi, hall⟩, .inr hreach⟩

/-- The files that a listing from the position on shows start behind it. -/
theorem Road.mem_ltxFiles {k : Nat} {info : FileInfo}
    (h : info ∈ (env.moment k).bucket.ltxFiles 0 (fromTxid + 1)) :
    fromTxid + 1 ≤ info.minTxid ∧ fromTxid < info.maxTxid ∧
      ∃ x ∈ (env.moment k).bucket 0, info = x.info 0 := by
  obtain ⟨x, hx, rfl⟩ := List.mem_map.mp h
  obtain ⟨hmem, hseek⟩ := List.mem_filter.mp hx
  have hmin : fromTxid + 1 ≤ x.minTxid := by simpa using hseek
  obtain ⟨-, hle, -⟩ := hroad.range hmem
  exact ⟨hmin, lt_of_lt_of_le (Nat.lt_of_succ_le hmin) hle, x, hmem, rfl⟩

/-- What it means that the listed files were left at the start. -/
theorem Road.listEnd_same {k : Nat}
    (h : ListEnd env ((env.moment k).bucket.ltxFiles 0 (fromTxid + 1)) k fromTxid fromTxid)
    (hne : (env.moment k).bucket.ltxFiles 0 (fromTxid + 1) ≠ []) :
    (∀ x ∈ (env.moment k).bucket 0, x.minTxid ≠ fromTxid + 1) ∧
      ∀ level ∈ gapLevels, ∃ i, k ≤ i ∧
        ∀ x ∈ (env.moment i).bucket level, ¬ x.Continues fromTxid := by
  rcases h.ended with hall | ⟨info, hinfo, start, hstart, hgap, horder, hbridge⟩
  · obtain ⟨info, hinfo⟩ := List.exists_mem_of_ne_nil _ hne
    obtain ⟨-, hlt, -⟩ := hroad.mem_ltxFiles hinfo
    exact absurd (hall info hinfo) (not_le.mpr hlt)
  · obtain rfl : start = fromTxid := Nat.le_antisymm hbridge.ge hstart
    refine ⟨fun x hx hmin => ?_, hbridge.stayed rfl⟩
    have hmem : x.info 0 ∈ (env.moment k).bucket.ltxFiles 0 (start + 1) :=
      List.mem_map_of_mem (List.mem_filter.mpr ⟨hx, by simp [hmin]⟩)
    obtain ⟨-, hlt, -⟩ := hroad.mem_ltxFiles hmem
    rcases horder _ hmem with hle | hle
    · exact absurd hle (not_le.mpr hlt)
    · have hle : info.minTxid ≤ x.minTxid := hle
      omega

/-- The files at the position, whether listed or bridged to. -/
theorem Road.applyListed {k : Nat} (hk : k < s.clock) :
    Spec (applyListed env c opts pageSize fromTxid
      ((env.moment k).bucket.ltxFiles 0 (fromTxid + 1))) s
      (fun r s' => s.clock ≤ s'.clock ∧ (r.1 = fromTxid → Idle s s') ∧ r.2 = true ∧
        ListEnd env ((env.moment k).bucket.ltxFiles 0 (fromTxid + 1)) k fromTxid r.1 ∧
        (r.1 = fromTxid → (∀ x ∈ (env.moment k).bucket 0, x.minTxid ≠ fromTxid + 1) ∧
          ∀ level ∈ gapLevels, ∃ i, k ≤ i ∧
            ∀ x ∈ (env.moment i).bucket level, ¬ x.Continues fromTxid)) (fun _ _ => trouble) := by
  unfold Replica.applyListed
  split
  · -- nothing begins behind the position: the levels above may bridge
    rename_i hempty
    have hnil := List.isEmpty_iff.mp hempty
    refine Spec.bind (hroad.fillFollowGap _ _ _ hk.le le_rfl hroad.position) ?_
    rintro ⟨current, saw⟩ s' ⟨hclock, hidle, rfl, hbridge⟩
    refine ⟨hclock, hidle, rfl, ⟨hbridge.ge, hbridge.lt, .inl fun info hinfo => ?_, fun hlt => ?_⟩,
      fun heq => ⟨fun x hx hmin => ?_, hbridge.stayed heq⟩⟩
    · rw [hnil] at hinfo
      cases hinfo
    · obtain ⟨level, hlevel, i, hi, hx, -⟩ := hbridge.moved hlt
      exact .inr ⟨level, hlevel, i, hi, hx⟩
    · have hmem : x.info 0 ∈ (env.moment k).bucket.ltxFiles 0 (fromTxid + 1) :=
        List.mem_map_of_mem (List.mem_filter.mpr ⟨hx, by simp [hmin]⟩)
      rw [hnil] at hmem
      cases hmem
  · -- files are listed at level 0
    rename_i hempty
    have hne : (env.moment k).bucket.ltxFiles 0 (fromTxid + 1) ≠ [] :=
      fun h => hempty (List.isEmpty_iff.mpr h)
    refine (hroad.applyLevel0 (hroad.shown k 0 _) hk.le hk.le le_rfl hroad.position false).mono ?_
      fun _ _ h => h
    rintro ⟨current, allow⟩ s' ⟨hclock, hidle, rfl, hend⟩
    refine ⟨hclock, hidle, rfl, hend, fun heq => ?_⟩
    obtain rfl : current = fromTxid := heq
    exact hroad.listEnd_same hend hne

/-- **Where a round ends** if no file it can use is taken away. -/
theorem Road.followBucket (s : Follower) :
    Spec (followBucket env c opts pageSize fromTxid) s
      (fun r s' => RoundEnd env fromTxid s.clock s r s') (fun _ _ => trouble) := by
  unfold Replica.followBucket
  rw [wrappingSucc_eq hroad.position]
  refine Spec.bind (hroad.listLevel 0 _ s) ?_
  rintro l0 s₁ ⟨rfl, rfl⟩
  refine Spec.bind (hroad.applyListed (Nat.lt_succ_self _)) ?_
  rintro ⟨current, allow⟩ s₂ ⟨hclock, hidle, rfl, hend, hstay⟩
  have hclock : s.clock ≤ s₂.clock := (Nat.le_succ _).trans hclock
  -- a file of the listing that continues the position starts right behind it
  have hlist : fromTxid < current →
      (∃ x ∈ (env.moment s.clock).bucket 0, x.minTxid = fromTxid + 1) ∨
      (∃ level ∈ gapLevels, ∃ i, ∃ x ∈ (env.moment i).bucket level, x.Continues fromTxid) ∨
      ∃ i, ∃ x ∈ (env.moment i).bucket snapshotLevel, fromTxid < x.maxTxid := by
    intro hlt
    rcases hend.moved hlt with ⟨info, hinfo, hcont⟩ | ⟨level, hlevel, i, -, hx⟩
    · obtain ⟨hmin, -, x, hx, rfl⟩ := hroad.mem_ltxFiles hinfo
      exact .inl ⟨x, hx, Nat.le_antisymm hcont.1 hmin⟩
    · exact .inr (.inl ⟨level, hlevel, i, hx⟩)
  rcases Nat.eq_or_lt_of_le hend.ge with heq | hlt
  · obtain rfl : fromTxid = current := heq
    obtain ⟨hfile, hbridge⟩ := hstay rfl
    refine (hroad.finishIncremental hclock).mono ?_ fun _ _ h => h
    rintro r s' ⟨hge, hsame, hmoved⟩
    refine ⟨hge, ⟨_, hend, .inr rfl⟩, fun h => ?_, fun _ => hfile, fun _ => hbridge, fun h => ?_,
      fun h => ?_, fun h => .inr (.inr (hmoved h))⟩
    · obtain ⟨hdb, htxid⟩ := (hidle rfl).trans (hsame h).1
      exact ⟨hdb, htxid⟩
    · exact (hsame h).2.1
    · exact (hsame h).2.2
  · dsimp only
    unfold Replica.finishIncremental
    rw [if_neg (fun h => absurd h.1 hlt.ne')]
    refine (hroad.persist _ s₂).mono ?_ fun _ _ h => h
    rintro r s' ⟨rfl, -⟩
    have hne : r ≠ fromTxid := hlt.ne'
    exact ⟨hlt.le, ⟨r, hend, .inl rfl⟩, fun h => absurd h hne, fun h => absurd h hne,
      fun h => absurd h hne, fun h => absurd h hne, fun h => absurd h hne, hlist⟩

end

/-- Where a whole round ends; its first request is its second step. -/
theorem Road.incrementalSync (opts : ReplicaOptions) (s₀ : Follower)
    (hsize : ¬ trouble → readPageSize s₀.db = some U.pageSize.toNat)
    (hroad : ∀ pageSize, readPageSize s₀.db = some pageSize →
      Road c U n env pageSize fromTxid trouble) :
    Spec (incrementalSync env c opts fromTxid) s₀
      (fun r s' => RoundEnd env fromTxid (s₀.clock + 1) s₀ r s') (fun _ _ => trouble) := by
  unfold Replica.incrementalSync
  cases hps : readPageSize s₀.db with
  | none =>
      -- the page size is that of the uploads, unless there is trouble
      have htrouble : trouble := by
        by_contra hno
        rw [hsize hno] at hps
        cases hps
      refine Spec.bind (Q := fun _ s₁ => s₁.db = s₀.db) (spec_pass rfl fun _ => htrouble)
        fun _ s₁ h₁ => ?_
      rw [spec_bind, spec_get, h₁, hps]
      exact htrouble
  | some pageSize =>
      have h := hroad pageSize hps
      refine Spec.bind (h.pass .io s₀) ?_
      rintro - s₁ rfl
      rw [spec_bind, spec_get]
      dsimp only
      rw [hps]
      refine (h.followBucket _).mono ?_ fun _ _ h => h
      intro r s' hend
      exact ⟨hend.ge, hend.list, fun h => ⟨(hend.idle h).db, (hend.idle h).txid⟩, hend.noFile,
        hend.noBridge, hend.noSnapshot, hend.notBehind, hend.moved⟩

end Replica

/-- A file that continues a position is still there later, under its key. -/
theorem SyncEnv.Lasting.continues {env : SyncEnv} {p : Nat} (h : env.Lasting p)
    {i j level q : Nat} (hij : i ≤ j) (hq : p ≤ q)
    {x : Stored} (hx : x ∈ (env.moment i).bucket level) (hcont : x.Continues q) :
    ∃ y ∈ (env.moment j).bucket level, y.Continues q := by
  obtain ⟨y, hy, hkey⟩ := h i j hij level x hx (lt_of_le_of_lt hq hcont.2)
  obtain ⟨hmin, hmax⟩ := Prod.mk.inj hkey
  refine ⟨y, hy, ?_, ?_⟩
  · rw [hmin]
    exact hcont.1
  · rw [hmax]
    exact hcont.2

/-- A round that finds something moves. -/
theorem SyncEnv.Lasting.moves {env : SyncEnv} {p : Nat} (h : env.Lasting p)
    (honward : (env.moment 1).bucket.Onward p)
    {s s' : Follower} {r : Nat} (hend : Replica.RoundEnd env p 1 s r s') : p < r := by
  refine lt_of_le_of_ne hend.ge fun heq => ?_
  rcases honward with ⟨x, hx, hmin⟩ | ⟨level, hlevel, x, hx, hcont⟩ | ⟨x, hx, hlt⟩
  · exact hend.noFile heq.symm x hx hmin
  · obtain ⟨i, hi, hnone⟩ := hend.noBridge heq.symm level hlevel
    obtain ⟨y, hy, hcont'⟩ := h.continues hi le_rfl hx hcont
    exact hnone y hy hcont'
  · obtain ⟨i, hi, hnone⟩ := hend.noSnapshot heq.symm
    obtain ⟨y, hy, hkey⟩ := h 1 i hi snapshotLevel x hx hlt
    exact absurd (hnone y hy) (by rw [(Prod.mk.inj hkey).2]; exact not_le.mpr hlt)

end Liters
