import Liters.Http.Mount
import Liters.Ltx.File

/-! # The write fence

Behind the fence level 0 is an append-only log: an accepted PUT either repeats a stored file byte
for byte, or begins right after the last transaction. This rests on the names that peers choose. A
range that runs backwards is accepted without moving the log on, and after a range that ends at the
last 64-bit number the next transaction cannot be computed any more. -/

namespace Liters

variable {opts : MountOptions}

/-! ## The highest transaction of a listing -/

/-- The newest TXID of a listing bounds each of its files. -/
theorem le_maxOf {files : List Stored} {f : Stored} (h : f ∈ files) : f.maxTxid ≤ maxOf files := by
  unfold maxOf
  cases hm : (files.map Stored.maxTxid).max? with
  | none =>
      rw [List.max?_eq_none_iff, List.map_eq_nil_iff] at hm
      rw [hm] at h
      cases h
  | some n => exact (List.max?_eq_some_iff.mp hm).2 _ (List.mem_map_of_mem h)

/-- The newest TXID of a listing is one of its files'. -/
theorem exists_maxTxid_eq_maxOf {files : List Stored} (h : files ≠ []) :
    ∃ f ∈ files, f.maxTxid = maxOf files := by
  unfold maxOf
  cases hm : (files.map Stored.maxTxid).max? with
  | none =>
      rw [List.max?_eq_none_iff, List.map_eq_nil_iff] at hm
      exact absurd hm h
  | some n => exact List.mem_map.mp (List.max?_eq_some_iff.mp hm).1

/-- It is the least such bound. -/
theorem maxOf_le {files : List Stored} {n : Nat} (h : ∀ f ∈ files, f.maxTxid ≤ n) :
    maxOf files ≤ n := by
  by_cases hne : files = []
  · rw [hne]
    exact Nat.zero_le n
  · obtain ⟨f, hf, hmax⟩ := exists_maxTxid_eq_maxOf hne
    rw [← hmax]
    exact h f hf

/-- The newest TXID of a bucket bounds every file of every level. -/
theorem le_bucketMax {b : Bucket} {level : Nat} {f : Stored} (hlevel : level ≤ snapshotLevel)
    (hf : f ∈ b level) : f.maxTxid ≤ bucketMax b :=
  le_maxOf (List.mem_flatMap.mpr ⟨level, List.mem_range.mpr (Nat.lt_succ_of_le hlevel), hf⟩)

/-- It is the least such bound. -/
theorem bucketMax_le {b : Bucket} {n : Nat}
    (h : ∀ level ≤ snapshotLevel, ∀ f ∈ b level, f.maxTxid ≤ n) : bucketMax b ≤ n := by
  refine maxOf_le fun f hf => ?_
  obtain ⟨level, hlevel, hf⟩ := List.mem_flatMap.mp hf
  exact h level (Nat.le_of_lt_succ (List.mem_range.mp hlevel)) f hf

/-! ## What the fence lets through -/

/-- The name of an offered file. -/
def Offer.key (o : Offer) : Nat × Nat := (o.minTxid, o.maxTxid)

/-- What a passed monotonicity rule says of an offered file. -/
structure Passed (b : Bucket) (o : Offer) (existing : Option Stored) : Prop where
  /-- A stored file is found by its name, and only at level 0. -/
  found : ∀ f, existing = some f → o.level = 0 ∧ f ∈ b 0 ∧ f.key = o.key
  /-- A new name at level 0 continues the log. -/
  continues : existing = none → o.level = 0 → (∀ f ∈ b 0, f.key ≠ o.key) ∧
    (b 0 = [] ∨ o.minTxid = maxOf (b 0) + 1)
  /-- At the other levels a file stays within the bucket. -/
  within : o.level ≠ 0 → o.maxTxid ≤ bucketMax b

/-- A put that the monotonic rules accept meets them. -/
theorem passed_of_checkMonotonic {b : Bucket} {o : Offer} {listed : Except String Unit}
    {existing : Option Stored} (h : checkMonotonic b o listed = .ok existing) :
    Passed b o existing := by
  unfold checkMonotonic at h
  -- the listing of level 0 can fail
  split at h
  · cases h
  · split at h
    · -- level 0: the PUT of a stored key is judged by its body later, a new key by the listing
      rename_i hlevel
      dsimp only at h
      split at h
      · rename_i f hfind
        cases h
        refine ⟨fun g hg => ?_, fun hn => (by cases hn), fun hn => absurd hlevel hn⟩
        cases hg
        exact ⟨hlevel, List.mem_of_find?_eq_some hfind,
          by simpa [Offer.key] using List.find?_some hfind⟩
      · rename_i hfind
        have hnew : ∀ f ∈ b 0, f.key ≠ o.key := by
          intro f hf
          simpa [Offer.key] using List.find?_eq_none.mp hfind f hf
        split at h
        · rename_i hempty
          cases h
          exact ⟨fun g hg => (by cases hg), fun _ _ => ⟨hnew, .inl hempty⟩,
            fun hn => absurd hlevel hn⟩
        · split at h
          · cases h
          · split at h
            · rename_i hmin
              cases h
              exact ⟨fun g hg => (by cases hg), fun _ _ => ⟨hnew, .inr hmin⟩,
                fun hn => absurd hlevel hn⟩
            · cases h
    · -- another level: only a TXID range behind the level's end is refused
      rename_i hlevel
      dsimp only at h
      split at h
      · cases h
      · rename_i hmax
        cases h
        exact ⟨fun g hg => (by cases hg), fun _ hn => absurd hn hlevel, fun _ => Nat.not_lt.mp hmax⟩

/-- The next transaction overflows only behind the last 64-bit number. -/
theorem overflow_of_checkMonotonic {b : Bucket} {o : Offer} {listed : Except String Unit}
    (h : checkMonotonic b o listed = .error .panic) : ∃ f ∈ b 0, 2 ^ 64 ≤ f.maxTxid + 1 := by
  unfold checkMonotonic at h
  split at h
  · cases h
  · split at h
    · dsimp only at h
      split at h
      · cases h
      · split at h
        · cases h
        · rename_i hne
          split at h
          · rename_i hover
            obtain ⟨f, hf, hmax⟩ := exists_maxTxid_eq_maxOf hne
            exact ⟨f, hf, hmax ▸ hover⟩
          · split at h
            · cases h
            · cases h
    · dsimp only at h
      split at h
      · cases h
      · cases h

/-- A passed fence has passed the monotonicity rule. -/
theorem passed_of_checkFence {s : MountState} {headers : Headers} {o : Offer} {now : Nat}
    {listed : Except String Unit} {pass : FencePass}
    (h : checkFence opts s headers (some o) now listed = .ok pass) :
    Passed s.bucket o pass.existingL0 := by
  unfold checkFence at h
  cases hc : checkLease opts s headers now with
  | error e => rw [hc] at h; cases h
  | ok claim =>
      rw [hc] at h
      simp only [bind, Except.bind] at h
      cases hm : checkMonotonic s.bucket o listed with
      | error e => rw [hm] at h; cases h
      | ok existing =>
          rw [hm] at h
          cases h
          exact passed_of_checkMonotonic hm

/-- The fence panics only over a level 0 that ends at the last TXID. -/
theorem overflow_of_checkFence {s : MountState} {headers : Headers} {put : Option Offer} {now : Nat}
    {listed : Except String Unit} (h : checkFence opts s headers put now listed = .error .panic) :
    ∃ f ∈ s.bucket 0, 2 ^ 64 ≤ f.maxTxid + 1 := by
  unfold checkFence at h
  cases hc : checkLease opts s headers now with
  | error e =>
      rw [hc] at h
      cases h
      exact absurd hc (checkLease_ne_panic s headers now)
  | ok claim =>
      rw [hc] at h
      cases put with
      | none => cases h
      | some o =>
          simp only [bind, Except.bind] at h
          cases hm : checkMonotonic s.bucket o listed with
          | error e =>
              rw [hm] at h
              cases h
              exact overflow_of_checkMonotonic hm
          | ok existing => rw [hm] at h; cases h

/-! ## The files of a bucket -/

/-- What a listing and a read show of a file: its name and its bytes. -/
def Stored.content (s : Stored) : (Nat × Nat) × Bytes := (s.key, s.body)

/-- The same names with the same bytes. -/
def SameFiles (b b' : Bucket) : Prop :=
  ∀ level, (b' level).map Stored.content = (b level).map Stored.content

/-- Writing a file over one of the same name and the same bytes shows no difference. -/
theorem map_content_insertFile {s f : Stored} {files : List Stored}
    (h : files.Pairwise Stored.Before) (hf : f ∈ files) (hcontent : f.content = s.content) :
    (Bucket.insertFile s files).map Stored.content = files.map Stored.content := by
  have hkey : f.key = s.key := (Prod.mk.inj hcontent).1
  have hkeys := hkey
  rw [Stored.key, Stored.key, Prod.mk.injEq] at hkeys
  induction files with
  | nil => cases hf
  | cons z files ih =>
      obtain ⟨hz, hfiles⟩ := List.pairwise_cons.mp h
      rw [Bucket.insertFile]
      rcases List.mem_cons.mp hf with rfl | hf'
      · rw [if_neg (by unfold Stored.Before; omega), if_pos hkey.symm, List.map_cons, List.map_cons,
          hcontent]
      · have hzf := hz f hf'
        unfold Stored.Before at hzf
        have hne : s.key ≠ z.key := by
          intro hsz
          rw [Stored.key, Stored.key, Prod.mk.injEq] at hsz
          omega
        rw [if_neg (by unfold Stored.Before; omega), if_neg hne, List.map_cons, List.map_cons,
          ih hfiles hf']

/-- A PUT over a file of the same name and the same bytes shows no difference. -/
theorem sameFiles_put {b : Bucket} {level : Nat} {s f : Stored}
    (hsorted : (b level).Pairwise Stored.Before) (hf : f ∈ b level)
    (hcontent : f.content = s.content) : SameFiles b (b.act (.put level s)) := by
  intro l
  show (b.setLevel level _ l).map Stored.content = _
  by_cases hl : l = level
  · subst hl
    rw [Bucket.setLevel_same]
    exact map_content_insertFile hsorted hf hcontent
  · rw [Bucket.setLevel_of_ne _ _ hl]

/-- A put stores its file at its level. -/
theorem act_put_same (b : Bucket) (level : Nat) (s : Stored) :
    b.act (.put level s) level = Bucket.insertFile s (b level) :=
  Bucket.setLevel_same b level _

/-- A put leaves the other levels alone. -/
theorem act_put_of_ne (b : Bucket) {level l : Nat} (s : Stored) (h : l ≠ level) :
    b.act (.put level s) l = b l :=
  Bucket.setLevel_of_ne b _ h

/-- A PUT keeps every level sorted. -/
theorem sorted_act_put {b : Bucket} (h : ∀ level, (b level).Pairwise Stored.Before) (level : Nat)
    (s : Stored) : ∀ l, (b.act (.put level s) l).Pairwise Stored.Before := by
  intro l
  by_cases hl : l = level
  · subst hl
    rw [act_put_same]
    exact Bucket.pairwise_insertFile (h l)
  · rw [act_put_of_ne b s hl]
    exact h l

/-- A PUT adds no file but its own. -/
theorem mem_act_put {b : Bucket} {level l : Nat} {s x : Stored} (h : x ∈ b.act (.put level s) l) :
    (x = s ∧ l = level) ∨ x ∈ b l := by
  by_cases hl : l = level
  · subst hl
    rw [act_put_same] at h
    exact (Bucket.mem_insertFile.1 h).imp_left fun hx => ⟨hx, rfl⟩
  · rw [act_put_of_ne b s hl] at h
    exact .inr h

/-! ## What a request does to the bucket -/

/-- All a request can do to the bucket. -/
inductive BucketEffect (b : Bucket) : Job → Outcome → Bucket → Prop where
  | kept {job : Job} {outcome : Outcome} (h : outcome.status ≠ some 200) :
      BucketEffect b job outcome b
  /-- A file behind the fence is stored; the backend may report an error all the same. -/
  | put {o : Offer} {headers : Headers} {body : Bytes} {hdr : Header} {existing : Option Stored}
      {outcome : Outcome} (hpass : Passed b o existing)
        (hsame : ∀ f, existing = some f → f.body = body) :
      BucketEffect b (.put o headers (.received body)) outcome
        (b.act (.put o.level (o.stored body hdr)))
  | removed {job : Job} {outcome : Outcome} {b' : Bucket}
      (hjob : ∀ o headers spool, job ≠ .put o headers spool)
      (hsub : ∀ level, (b' level).Sublist (b level)) : BucketEffect b job outcome b'

/-- A mutation is made, or it fails and is reported. -/
theorem mutate_cases (s : MountState) (pass : FencePass) (env : Surroundings)
    (full : Bucket → Bucket) (partly : (Nat → Nat × Nat → Bool) → Bucket → Bucket)
    (ok context : String) :
    ((mutate s pass env full partly ok context).1.bucket = full s.bucket ∨
      ∃ part, (mutate s pass env full partly ok context).1.bucket = partly part s.bucket ∧
        (mutate s pass env full partly ok context).2.status ≠ some 200) ∧
    (mutate s pass env full partly ok context).1.poisoned = s.poisoned ∧
    (mutate s pass env full partly ok context).2 ≠ .panicked := by
  unfold mutate
  split
  · unfold commitLease
    split
    · exact ⟨.inl rfl, rfl, by simp⟩
    · exact ⟨.inl rfl, rfl, by simp⟩
  · rename_i part msg hfailed
    exact ⟨.inr ⟨part, rfl, by simp [Outcome.status, Response.error]⟩, rfl, by simp⟩

/-- A removal of files by name. -/
theorem sublist_act_delete (b : Bucket) (level minTxid maxTxid : Nat) :
    ∀ l, (b.act (.delete level minTxid maxTxid) l).Sublist (b l) := by
  intro l
  show (b.setLevel level _ l).Sublist (b l)
  by_cases hl : l = level
  · subst hl
    rw [Bucket.setLevel_same]
    exact List.filter_sublist
  · rw [Bucket.setLevel_of_ne _ _ hl]

/-- A body found equal is the stored one. -/
theorem body_of_sameBody {pass : FencePass} {env : Surroundings} {body : Bytes}
    (h : sameBody pass env body = .ok true) (f : Stored) (hf : pass.existingL0 = some f) :
    f.body = body := by
  unfold sameBody at h
  rw [hf] at h
  dsimp only at h
  split at h
  · split at h
    · cases h
    · simpa using h
  · cases h

/-- Completing a request has one of these effects. -/
theorem complete_bucket (opts : MountOptions) (s : MountState) (env : Surroundings) (job : Job) :
    BucketEffect s.bucket job (complete opts s env job).2 (complete opts s env job).1.bucket := by
  have hjob := completed opts s env job
  generalize complete opts s env job = r at hjob ⊢
  cases hjob with
  -- nothing was sent to the bucket, and the answer says so
  | rejected h => exact .kept (by simpa [Outcome.status] using h)
  | gateLost h => exact .kept (by simp [Outcome.status])
  | overflowed h => exact .kept (by simp [Outcome.status])
  | @stored o headers body pass hdr hgate hfence hsame hhdr =>
      have hput {outcome} : BucketEffect s.bucket (.put o headers (.received body)) outcome
          (s.bucket.act (.put o.level (o.stored body hdr))) :=
        .put (passed_of_checkFence hfence) (body_of_sameBody hsame)
      obtain ⟨hb | ⟨part, hb, hstatus⟩, -, -⟩ := mutate_cases s pass env
        (fun b => b.act (.put o.level (o.stored body hdr)))
        (fun part => madeOrNot part o.level (o.minTxid, o.maxTxid)
          (.put o.level (o.stored body hdr)))
        -- the PUT goes through: all of it, or the part that was made before the failure
        (listingLine (o.stored body hdr)) "write"
      · rw [hb]
        exact hput
      · rw [hb]
        unfold madeOrNot
        split
        · exact hput
        · exact .kept hstatus
  | @deleted level minTxid maxTxid headers pass hfence =>
      refine .removed (fun _ _ _ h => by cases h) fun l => ?_
      obtain ⟨hb | ⟨part, hb, -⟩, -, -⟩ := mutate_cases s pass env
        (fun b => b.act (.delete level minTxid maxTxid))
        (fun part => madeOrNot part level (minTxid, maxTxid) (.delete level minTxid maxTxid))
        "deleted\n" "delete"
      · -- a DELETE only removes files, made in full or in part
        rw [hb]
        exact sublist_act_delete _ _ _ _ l
      · rw [hb]
        unfold madeOrNot
        split
        · exact sublist_act_delete _ _ _ _ l
        · exact List.Sublist.refl _
  | @wiped headers pass hfence =>
      refine .removed (fun _ _ _ h => by cases h) fun l => ?_
      obtain ⟨hb | ⟨part, hb, -⟩, -, -⟩ := mutate_cases s pass env (fun _ => Bucket.empty)
        (fun part b level => (b level).filter fun f => !part level f.key) "deleted\n" "delete all"
      · -- so does the DELETE of everything
        rw [hb]
        exact List.nil_sublist _
      · rw [hb]
        exact List.filter_sublist

/-- A request that panics meets a poisoned gate or an overflow. -/
theorem complete_ne_panicked (opts : MountOptions) {s : MountState} (hgate : s.poisoned = false)
    (hbelow : ∀ f ∈ s.bucket 0, f.maxTxid + 1 < 2 ^ 64) (env : Surroundings) (job : Job) :
    (complete opts s env job).2 ≠ .panicked ∧ (complete opts s env job).1.poisoned = false := by
  have hjob := completed opts s env job
  generalize complete opts s env job = r at hjob ⊢
  cases hjob with
  | rejected h => exact ⟨by simp, hgate⟩
  | gateLost h => rw [hgate] at h; cases h
  | overflowed h =>
      obtain ⟨f, hf, hover⟩ := overflow_of_checkFence h
      exact absurd (hbelow f hf) (Nat.not_lt.mpr hover)
  | stored hgate' hfence hsame hhdr =>
      obtain ⟨-, hp, hne⟩ := mutate_cases s _ env _ _ _ _
      exact ⟨hne, hp.trans hgate⟩
  | deleted hfence =>
      obtain ⟨-, hp, hne⟩ := mutate_cases s _ env _ _ _ _
      exact ⟨hne, hp.trans hgate⟩
  | wiped hfence =>
      obtain ⟨-, hp, hne⟩ := mutate_cases s _ env _ _ _ _
      exact ⟨hne, hp.trans hgate⟩

/-! ## The log over whole runs -/

/-- A PUT of a body under a name is answered 200. -/
def Accepts (opts : MountOptions) (s : Serving) (e : ServerEvent) (o : Offer) (body : Bytes) :
    Prop :=
  ∃ i env headers, e = .proceed i env ∧ s.waiting[i]? = some (.put o headers (.received body)) ∧
    (serve opts s e).2.bind Outcome.status = some 200

/-- The same bytes are there under the same name, and nothing changes. -/
def Repeated (b b' : Bucket) (o : Offer) (body : Bytes) : Prop :=
  (∃ f ∈ b 0, f.content = (o.key, body)) ∧ SameFiles b b'

/-- A file is added to level 0 right after the last transaction, and the log ends with it. -/
structure Appended (b b' : Bucket) (o : Offer) (body : Bytes) : Prop where
  isNew : ∀ f ∈ b 0, f.key ≠ o.key
  next : b 0 = [] ∨ o.minTxid = maxOf (b 0) + 1
  added : ∃ g, g.content = (o.key, body) ∧ ∀ x, x ∈ b' 0 ↔ x = g ∨ x ∈ b 0
  others : ∀ level, level ≠ 0 → b' level = b level
  raised : maxOf (b 0) < maxOf (b' 0) ∧ maxOf (b' 0) = o.maxTxid

/-- What the fence promises of one event. -/
structure FenceRules (opts : MountOptions) (s : Serving) (e : ServerEvent) : Prop where
  log : ∀ o body, Accepts opts s e o body → o.level = 0 →
    Repeated s.state.bucket (serve opts s e).1.state.bucket o body ∨
      Appended s.state.bucket (serve opts s e).1.state.bucket o body
  /-- No PUT, accepted or not, changes the bytes of a level-0 file. -/
  bytes : ∀ i env o headers spool, e = .proceed i env →
    s.waiting[i]? = some (.put o headers spool) →
    ∀ f ∈ s.state.bucket 0, ∃ g ∈ (serve opts s e).1.state.bucket 0, g.content = f.content
  upper : ∀ i env o headers spool, e = .proceed i env →
    s.waiting[i]? = some (.put o headers spool) →
    o.level ≠ 0 → bucketMax (serve opts s e).1.state.bucket ≤ bucketMax s.state.bucket
  total : (serve opts s e).2 ≠ some .panicked ∧ (serve opts s e).1.state.poisoned = false

/-- The early checks list files that are in the bucket or were. -/
def RealEvent : Serving → ServerEvent → Prop
  | s, .arrive v _ _ _ =>
      ∀ f ∈ v.state.bucket 0, f ∈ s.state.bucket 0 ∨ ∃ b ∈ s.past, f ∈ b 0
  | _, .proceed _ _ => True

/-- A new level-0 name that the fence can deal with: it does not end at 0 or at the last 64-bit
number, and it does not run backwards unless the level is empty. -/
structure Orderly (b : Bucket) (o : Offer) : Prop where
  pos : 1 ≤ o.maxTxid
  forward : b 0 = [] ∨ o.minTxid ≤ o.maxTxid
  below : o.maxTxid + 1 < 2 ^ 64

/-- The events in which every new level-0 name is orderly. -/
def OrderlyEvent (s : Serving) (e : ServerEvent) : Prop :=
  RealEvent s e ∧ ∀ i env o headers body, e = .proceed i env →
    s.waiting[i]? = some (.put o headers (.received body)) → o.level = 0 →
    (∀ f ∈ s.state.bucket 0, f.key ≠ o.key) → Orderly s.state.bucket o

/-- A mount over a bucket whose level 0 does not end at the last 64-bit number. -/
structure LogReady (m : MountState) : Prop where
  sorted : ∀ level, (m.bucket level).Pairwise Stored.Before
  below : ∀ f ∈ m.bucket 0, f.maxTxid + 1 < 2 ^ 64
  gate : m.poisoned = false

/-- The invariant of a run: so it is now, and no early check can list anything else. -/
structure LogInv (s : Serving) : Prop extends LogReady s.state where
  pastBelow : ∀ b ∈ s.past, ∀ f ∈ b 0, f.maxTxid + 1 < 2 ^ 64

/-- A file that is stored under an existing name is the one that was there. -/
theorem BucketEffect.existing {b : Bucket} {o : Offer} {existing : Option Stored} {body : Bytes}
    (hsorted : (b 0).Pairwise Stored.Before) (hpass : Passed b o existing)
    (hsame : ∀ f, existing = some f → f.body = body) (hlevel : o.level = 0) {f : Stored}
    (hf : f ∈ b 0) (hkey : f.key = o.key) : f.body = body := by
  cases existing with
  | none => exact absurd hkey ((hpass.continues rfl hlevel).1 f hf)
  | some g =>
      obtain ⟨-, hg, hgkey⟩ := hpass.found g rfl
      rw [Bucket.eq_of_key_eq hsorted hf hg (hkey.trans hgkey.symm)]
      exact hsame g rfl

/-- Completing a request keeps level 0 ready. -/
theorem LogReady.after (opts : MountOptions) {s : MountState} (h : LogReady s) (env : Surroundings)
    (job : Job) (hjob : ∀ o headers body, job = .put o headers (.received body) → o.level = 0 →
      (∀ f ∈ s.bucket 0, f.key ≠ o.key) → Orderly s.bucket o) :
    LogReady (complete opts s env job).1 := by
  have hgate := (complete_ne_panicked opts h.gate h.below env job).2
  have heffect := complete_bucket opts s env job
  suffices hbucket : (∀ level, ((complete opts s env job).1.bucket level).Pairwise Stored.Before) ∧
      ∀ f ∈ (complete opts s env job).1.bucket 0, f.maxTxid + 1 < 2 ^ 64 from
    ⟨hbucket.1, hbucket.2, hgate⟩
  generalize (complete opts s env job).1.bucket = b' at heffect ⊢
  cases heffect with
  | kept => exact ⟨h.sorted, h.below⟩
  | @put o headers body hdr existing _ hpass hsame =>
      refine ⟨sorted_act_put h.sorted _ _, fun f hf => ?_⟩
      rcases mem_act_put hf with ⟨rfl, hlevel⟩ | hf
      · -- the stored file has a name that is there already, or an orderly one
        by_cases hnew : ∀ g ∈ s.bucket 0, g.key ≠ o.key
        · exact (hjob o headers body rfl hlevel.symm hnew).below
        · simp only [not_forall, not_not] at hnew
          obtain ⟨g, hg, hkey⟩ := hnew
          have hmax : g.maxTxid = o.maxTxid := (Prod.mk.inj hkey).2
          show o.maxTxid + 1 < 2 ^ 64
          rw [← hmax]
          exact h.below g hg
      · exact h.below f hf
  -- removals keep the order and the bound
  | removed _ hsub =>
      exact ⟨fun level => (h.sorted level).sublist (hsub level),
        fun f hf => h.below f ((hsub 0).subset hf)⟩

/-- One event keeps the invariant. -/
theorem LogInv.after (opts : MountOptions) {s : Serving} (h : LogInv s) {e : ServerEvent}
    (he : OrderlyEvent s e) :
    LogInv (serve opts s e).1 := by
  cases e with
  | arrive v r spool answer =>
      unfold serve
      dsimp only
      split
      · exact h
      · exact ⟨h.toLogReady, h.pastBelow⟩
  | proceed i env =>
      cases hjob : s.waiting[i]? with
      | none =>
          rw [serve_proceed_none hjob]
          exact h
      | some job =>
          have hready := h.toLogReady.after opts env job fun o headers body hput =>
            he.2 i env o headers body rfl (hput ▸ hjob)
          unfold serve
          dsimp only
          rw [hjob]
          refine ⟨hready, fun b hb => ?_⟩
          rcases List.mem_cons.mp hb with rfl | hb
          · exact h.below
          · exact h.pastBelow b hb

/-- The invariant holds in every state of a run. -/
theorem ServingRun.logInv {P : Serving → ServerEvent → Prop} (hP : ∀ s e, P s e → OrderlyEvent s e)
    {s₀ s : Serving} (hr : ServingRun opts P s₀ s) (h : LogInv s₀) : LogInv s := by
  induction hr with
  | refl => exact h
  | step hr e he ih => exact ih.after opts (hP _ _ he)

/-- An accepted PUT to level 0 repeats a file or continues the log. -/
theorem LogReady.log {s : MountState} (h : LogReady s) (env : Surroundings) {o : Offer}
    {headers : Headers} {body : Bytes} (hlevel : o.level = 0)
    (hname : (∀ f ∈ s.bucket 0, f.key ≠ o.key) → Orderly s.bucket o)
    (hok : (complete opts s env (.put o headers (.received body))).2.status = some 200) :
    Repeated s.bucket (complete opts s env (.put o headers (.received body))).1.bucket o body ∨
      Appended s.bucket (complete opts s env (.put o headers (.received body))).1.bucket o
        body := by
  have heffect := complete_bucket opts s env (.put o headers (.received body))
  generalize (complete opts s env (.put o headers (.received body))).1.bucket = b' at heffect ⊢
  cases heffect with
  | kept hbad => exact absurd hok hbad
  | removed hjob => exact absurd rfl (hjob o headers (.received body))
  | @put _ _ _ hdr existing _ hpass hsame =>
      have hnew : (o.stored body hdr).content = (o.key, body) := rfl
      cases existing with
      | some f =>
          obtain ⟨-, hf, hkey⟩ := hpass.found f rfl
          have hcontent : f.content = (o.key, body) := Prod.ext hkey (hsame f rfl)
          refine .inl ⟨⟨f, hf, hcontent⟩, ?_⟩
          rw [hlevel]
          exact sameFiles_put (h.sorted 0) hf (hcontent.trans hnew.symm)
      | none =>
          obtain ⟨hkeys, hnext⟩ := hpass.continues rfl hlevel
          have hname := hname hkeys
          have hmem : ∀ x, x ∈ s.bucket.act (.put o.level (o.stored body hdr)) 0 ↔
              x = o.stored body hdr ∨ x ∈ s.bucket 0 := by
            intro x
            rw [hlevel, act_put_same, Bucket.mem_insertFile_iff (h.sorted 0)]
            exact or_congr_right ⟨fun hx => hx.1, fun hx => ⟨hx, hkeys x hx⟩⟩
          -- all files there are end before the new one
          have hraise : maxOf (s.bucket 0) < o.maxTxid := by
            rcases hnext with hempty | hmin
            · rw [hempty]
              exact hname.pos
            · rcases hname.forward with hempty | hle
              · rw [hempty]
                exact hname.pos
              · omega
          have hmax : maxOf (s.bucket.act (.put o.level (o.stored body hdr)) 0) = o.maxTxid := by
            refine Nat.le_antisymm (maxOf_le fun x hx => ?_) (le_maxOf ((hmem _).mpr (.inl rfl)))
            rcases (hmem x).mp hx with rfl | hx
            · exact Nat.le_refl _
            · exact (le_maxOf hx).trans hraise.le
          exact .inr ⟨hkeys, hnext, ⟨_, hnew, hmem⟩,
            fun level hl => act_put_of_ne _ _ (hlevel ▸ hl), hmax ▸ hraise, hmax⟩

/-- A PUT keeps the bytes of every level-0 file. -/
theorem LogReady.bytes (opts : MountOptions) {s : MountState} (h : LogReady s) (env : Surroundings)
    (o : Offer) (headers : Headers) (spool : Spool) {f : Stored} (hf : f ∈ s.bucket 0) :
    ∃ g ∈ (complete opts s env (.put o headers spool)).1.bucket 0, g.content = f.content := by
  have heffect := complete_bucket opts s env (.put o headers spool)
  generalize (complete opts s env (.put o headers spool)).1.bucket = b' at heffect ⊢
  cases heffect with
  | kept => exact ⟨f, hf, rfl⟩
  | removed hjob => exact absurd rfl (hjob o headers spool)
  | @put _ _ body hdr existing _ hpass hsame =>
      by_cases hlevel : o.level = 0
      · rw [hlevel, act_put_same]
        by_cases hkey : f.key = o.key
        · refine ⟨o.stored body hdr, (Bucket.mem_insertFile_iff (h.sorted 0)).mpr (.inl rfl), ?_⟩
          exact Prod.ext hkey.symm
            (BucketEffect.existing (h.sorted 0) hpass hsame hlevel hf hkey).symm
        · exact ⟨f, (Bucket.mem_insertFile_iff (h.sorted 0)).mpr (.inr ⟨hf, hkey⟩), rfl⟩
      · rw [act_put_of_ne _ _ (Ne.symm hlevel)]
        exact ⟨f, hf, rfl⟩

/-- A PUT to an upper level stays within the bucket. -/
theorem bucketMax_complete_le (s : MountState) (env : Surroundings) {o : Offer} (headers : Headers)
    (spool : Spool) (hlevel : o.level ≠ 0) :
    bucketMax (complete opts s env (.put o headers spool)).1.bucket ≤ bucketMax s.bucket := by
  have heffect := complete_bucket opts s env (.put o headers spool)
  generalize (complete opts s env (.put o headers spool)).1.bucket = b' at heffect ⊢
  cases heffect with
  | kept => exact Nat.le_refl _
  | removed hjob => exact absurd rfl (hjob o headers spool)
  | put hpass hsame =>
      refine bucketMax_le fun level hle x hx => ?_
      rcases mem_act_put hx with ⟨rfl, -⟩ | hx
      · exact hpass.within hlevel
      · exact le_bucketMax hle hx

/-- An early check over files that are below the last 64-bit number does not panic. -/
theorem receive_ne_panicked (opts : MountOptions) {v : View}
    (h : ∀ f ∈ v.state.bucket 0, f.maxTxid + 1 < 2 ^ 64) (r : Request) (spool : Spool)
    (answer : Response) : receive opts v r spool answer ≠ .error .panicked := by
  unfold receive
  intro hpanic
  -- the routes in turn: only the fence of a PUT computes a TXID
  split at hpanic
  · cases hpanic
  · split at hpanic
    · cases hpanic
    · cases hpanic
    · cases hpanic
    · split at hpanic
      · cases hpanic
      · split at hpanic
        · -- its overflow needs a stored file that ends at the largest TXID
          rename_i reject hfence
          cases reject with
          | conflict msg => cases hpanic
          | backend msg => cases hpanic
          | panic =>
              obtain ⟨f, hf, hover⟩ := overflow_of_checkFence hfence
              exact absurd (h f hf) (Nat.not_lt.mpr hover)
        · cases hpanic
    · split at hpanic
      · cases hpanic
      · cases hpanic
    · split at hpanic
      · cases hpanic
      · cases hpanic

/-- No event of an orderly run panics. -/
theorem LogInv.total {s : Serving} (h : LogInv s) {e : ServerEvent} (he : OrderlyEvent s e) :
    (serve opts s e).2 ≠ some .panicked ∧ (serve opts s e).1.state.poisoned = false := by
  refine ⟨?_, (h.after opts he).gate⟩
  cases e with
  | arrive v r spool answer =>
      have hbelow : ∀ f ∈ v.state.bucket 0, f.maxTxid + 1 < 2 ^ 64 := by
        intro f hf
        rcases he.1 f hf with hf | ⟨b, hb, hf⟩
        · exact h.below f hf
        · exact h.pastBelow b hb f hf
      have hne := receive_ne_panicked opts hbelow r spool answer
      unfold serve
      dsimp only
      split
      · rename_i o ho
        rintro ⟨⟩
        exact hne ho
      · simp
  | proceed i env =>
      cases hjob : s.waiting[i]? with
      | none =>
          rw [serve_proceed_none hjob]
          simp
      | some job =>
          rw [(serve_proceed opts hjob env).2]
          intro hpanic
          exact (complete_ne_panicked opts h.gate h.below env job).1 (Option.some.inj hpanic)

/-- The rules hold of every event of an orderly run. -/
theorem LogInv.fenceRules (opts : MountOptions) {s : Serving} (h : LogInv s) {e : ServerEvent}
    (he : OrderlyEvent s e) :
    FenceRules opts s e where
  log := by
    rintro o body ⟨i, env, headers, rfl, hjob, hok⟩ hlevel
    obtain ⟨hstate, hanswer⟩ := serve_proceed opts hjob env
    rw [hanswer, Option.bind_some] at hok
    rw [hstate]
    exact h.log env hlevel (he.2 i env o headers body rfl hjob hlevel) hok
  bytes := by
    rintro i env o headers spool rfl hjob f hf
    rw [(serve_proceed opts hjob env).1]
    exact h.toLogReady.bytes opts env o headers spool hf
  upper := by
    rintro i env o headers spool rfl hjob hlevel
    rw [(serve_proceed opts hjob env).1]
    exact bucketMax_complete_le s.state env headers spool hlevel
  total := h.total he

/-! ## One body for one name -/

/-- Level 0 has a file of a name. -/
def HasL0 (key : Nat × Nat) (s : Serving) : Prop := ∃ f ∈ s.state.bucket 0, f.key = key

/-- Level 0 has a body under a name. -/
def HoldsL0 (key : Nat × Nat) (body : Bytes) (s : Serving) : Prop :=
  ∃ f ∈ s.state.bucket 0, f.content = (key, body)

/-- While a name stays in level 0 its body stays the same. -/
theorem LogInv.holdsL0 {s : Serving} (h : LogInv s) {e : ServerEvent} {key : Nat × Nat}
    {body : Bytes} (hold : HoldsL0 key body s) (hafter : HasL0 key (serve opts s e).1) :
    HoldsL0 key body (serve opts s e).1 := by
  obtain ⟨f, hf, hcontent⟩ := hold
  cases e with
  -- an arriving request does not touch the bucket
  | arrive v r spool answer =>
      unfold HoldsL0
      rw [serve_arrive_state]
      exact ⟨f, hf, hcontent⟩
  | proceed i env =>
      cases hjob : s.waiting[i]? with
      | none =>
          rw [serve_proceed_none hjob]
          exact ⟨f, hf, hcontent⟩
      | some job =>
          have hstate := (serve_proceed opts hjob env).1
          unfold HoldsL0
          unfold HasL0 at hafter
          rw [hstate] at hafter ⊢
          -- a PUT under the same name keeps the bytes, or is refused
          by_cases hput : ∃ o headers spool, job = .put o headers spool
          · obtain ⟨o, headers, spool, rfl⟩ := hput
            obtain ⟨g, hg, hgf⟩ := h.toLogReady.bytes opts env o headers spool hf
            exact ⟨g, hg, hgf.trans hcontent⟩
          · -- a removal leaves the file itself, or no file of the name
            have heffect := complete_bucket opts s.state env job
            obtain ⟨g, hg, hkey⟩ := hafter
            generalize (complete opts s.state env job).1.bucket = b' at heffect hg ⊢
            cases heffect with
            | kept => exact ⟨f, hf, hcontent⟩
            | put hpass hsame => exact absurd ⟨_, _, _, rfl⟩ hput
            | removed hjob' hsub =>
                have hgf : g = f := Bucket.eq_of_key_eq (h.sorted 0) ((hsub 0).subset hg) hf
                  (hkey.trans (Prod.mk.inj hcontent).1.symm)
                exact ⟨g, hg, hgf ▸ hcontent⟩

/-- Over a run in which the name stays in level 0 its body stays the same. -/
theorem ServingRun.holdsL0 {key : Nat × Nat} {body : Bytes} {s₁ s₂ : Serving}
    (hr : ServingRun opts (fun s e => OrderlyEvent s e ∧ HasL0 key s) s₁ s₂) (h : LogInv s₁)
    (hold : HoldsL0 key body s₁) (hafter : HasL0 key s₂) : HoldsL0 key body s₂ := by
  induction hr with
  | refl => exact hold
  | step hr e he ih =>
      have hinv := hr.logInv (fun _ _ h => h.1) h
      exact hinv.holdsL0 (ih he.2) hafter

/-- An accepted body is there afterwards. -/
theorem LogInv.holdsL0_of_accepts {s : Serving} (h : LogInv s) {e : ServerEvent}
    (he : OrderlyEvent s e) {o : Offer} {body : Bytes} (hacc : Accepts opts s e o body)
    (hlevel : o.level = 0) : HoldsL0 o.key body (serve opts s e).1 := by
  rcases (h.fenceRules opts he).log o body hacc hlevel with ⟨⟨f, hf, hcontent⟩, -⟩ | happ
  · obtain ⟨i, env, headers, rfl, hjob, -⟩ := hacc
    obtain ⟨g, hg, hgf⟩ :=
      (h.fenceRules opts he).bytes i env o headers (.received body) rfl hjob f hf
    exact ⟨g, hg, hgf.trans hcontent⟩
  · obtain ⟨g, hg, hmem⟩ := happ.added
    exact ⟨g, (hmem g).mpr (.inl rfl), hg⟩

/-- A body that is accepted under a name in level 0 is the one that is there. -/
theorem LogInv.body_of_accepts {s : Serving} (h : LogInv s) {e : ServerEvent}
    (he : OrderlyEvent s e) {o : Offer} {body body' : Bytes} (hacc : Accepts opts s e o body)
    (hlevel : o.level = 0) (hold : HoldsL0 o.key body' s) : body = body' := by
  obtain ⟨g, hg, hcontent'⟩ := hold
  rcases (h.fenceRules opts he).log o body hacc hlevel with ⟨⟨f, hf, hcontent⟩, -⟩ | happ
  · have hfg : f = g := Bucket.eq_of_key_eq (h.sorted 0) hf hg
      ((Prod.mk.inj hcontent).1.trans (Prod.mk.inj hcontent').1.symm)
    rw [hfg, hcontent'] at hcontent
    exact (Prod.mk.inj hcontent).2.symm
  · exact absurd (Prod.mk.inj hcontent').1 (happ.isNew g hg)

/-- In every run whose new level-0 names are orderly the fence keeps its rules, and of two bodies
under one level-0 name the second is accepted only if it is the first, as long as the name stays. -/
theorem servingRun_fenceRules {m : MountState} (hm : LogReady m) {s : Serving}
    (hr : ServingRun opts OrderlyEvent (opened m) s) (e : ServerEvent) (he : OrderlyEvent s e) :
    FenceRules opts s e ∧
      ∀ o body, o.level = 0 → Accepts opts s e o body →
        ∀ s₂ e₂ body₂,
          ServingRun opts (fun s e => OrderlyEvent s e ∧ HasL0 o.key s) (serve opts s e).1 s₂ →
          HasL0 o.key s₂ → OrderlyEvent s₂ e₂ → Accepts opts s₂ e₂ o body₂ → body₂ = body := by
  have h : LogInv s := hr.logInv (fun _ _ h => h) ⟨hm, fun b hb => (by cases hb)⟩
  refine ⟨h.fenceRules opts he, fun o body hlevel hacc s₂ e₂ body₂ hr₂ hhas he₂ hacc₂ => ?_⟩
  have hafter := h.after opts he
  have hold := hr₂.holdsL0 hafter (h.holdsL0_of_accepts he hacc hlevel) hhas
  exact (hr₂.logInv (fun _ _ h => h.1) hafter).body_of_accepts he₂ hacc₂ hlevel hold

/-! ## Two pushes at once -/

/-- The shortest body that the backend takes. -/
def headerOnly : Bytes := (onePageRangeHeader 1 1).encode

/-- A mount that anybody may write to. -/
def openMount : MountOptions := { writable := true }

/-- The early view of an empty bucket. -/
def emptyView : View := ⟨⟨Bucket.empty, none, 0, false⟩, 0, .ok ()⟩

/-- A push to level 0 arrives at an empty bucket. -/
def pushed (name : String) : ServerEvent :=
  .arrive emptyView ⟨"PUT", "/ltx/0/" ++ name, []⟩ (.received headerOnly) ⟨200, ""⟩

/-- A waiting push is completed without trouble. -/
def completedFirst : ServerEvent := .proceed 0 ⟨0, .ok (), .ok (), .ok (), .done, 0⟩

/-- The mount after two pushes arrived and the first was completed. -/
def afterOne (nameA nameB : String) : Serving :=
  (serve openMount (serve openMount (serve openMount (opened emptyView.state)
    (pushed nameA)).1 (pushed nameB)).1 completedFirst).1

/-- What comes of a push with this body once it has passed the fence. -/
theorem acceptFile_headerOnly (s : MountState) (pass : FencePass) (o : Offer) (t : Nat)
    (h : pass.existingL0 = none) (hclaim : pass.claim = none) :
    acceptFile s pass ⟨t, .ok (), .ok (), .ok (), .done, t⟩ o headerOnly
      = (notify { s with bucket := s.bucket.act (.put o.level (o.stored headerOnly
          (onePageRangeHeader 1 1))) },
        .answered ⟨200, listingLine (o.stored headerOnly (onePageRangeHeader 1 1))⟩) := by
  have hlen : headerOnly.length = headerSize := Header.encode_length _
  have hdecode : Header.decode (headerOnly.take headerSize) = .ok (onePageRangeHeader 1 1) := by
    rw [List.take_of_length_le (Nat.le_of_eq hlen)]
    exact Header.decode_encode _
  unfold acceptFile sameBody
  rw [h]
  dsimp only
  unfold writeLtxFile
  rw [if_neg (by rw [hlen]; exact lt_irrefl _), hdecode]
  unfold mutate commitLease
  rw [hclaim]

/-- A push with this body that passes the monotonicity rule under a new name is stored. -/
theorem complete_headerOnly {s : MountState} {o : Offer} (hgate : s.poisoned = false)
    (hnew : checkMonotonic s.bucket o (.ok ()) = .ok none) :
    complete openMount s ⟨0, .ok (), .ok (), .ok (), .done, 0⟩ (.put o [] (.received headerOnly))
      = (notify { s with bucket := s.bucket.act (.put o.level (o.stored headerOnly
          (onePageRangeHeader 1 1))) },
        .answered ⟨200, listingLine (o.stored headerOnly (onePageRangeHeader 1 1))⟩) := by
  have hfence : checkFence openMount s [] (some o) 0 (.ok ())
      = .ok { claim := none, existingL0 := none } := by
    unfold checkFence
    simp only [bind, Except.bind, checkLease, writerId, header, List.find?_nil,
      Option.map_none, hnew]
    rfl
  show gated openMount s [] (some o) _ _ = _
  unfold gated
  rw [if_neg (by rw [hgate]; exact Bool.false_ne_true), hfence]
  exact acceptFile_headerOnly s ⟨none, none⟩ o 0 rfl rfl

/-- The bucket after a push to an empty one. -/
def oneFile (o : Offer) : Bucket :=
  Bucket.empty.act (.put 0 (o.stored headerOnly (onePageRangeHeader 1 1)))

/-- Two pushes wait at an empty bucket and the first is completed. -/
theorem serve_first (oA oB : Offer) (hlevel : oA.level = 0) :
    (serve openMount
        { state := emptyView.state,
          waiting := [.put oA [] (.received headerOnly), .put oB [] (.received headerOnly)] }
        completedFirst).1
      = { state := ⟨oneFile oA, none, 1, false⟩, waiting := [.put oB [] (.received headerOnly)],
          past := [Bucket.empty] } := by
  have hnew : checkMonotonic emptyView.state.bucket oA (.ok ()) = .ok none := by
    unfold checkMonotonic
    rw [if_pos hlevel]
    rfl
  have hdone := complete_headerOnly (s := emptyView.state) rfl hnew
  unfold serve completedFirst
  simp only [List.getElem?_cons_zero, hdone, hlevel]
  rfl

/-- The mount after a push of `1-4` was completed and one of `5-3` waits. -/
def beforeBackward : Serving :=
  afterOne "0000000000000001-0000000000000004.ltx" "0000000000000005-0000000000000003.ltx"

/-- The mount after a push up to the last 64-bit number was completed and one of `2-2` waits. -/
def beforeOverflow : Serving :=
  afterOne "0000000000000001-ffffffffffffffff.ltx" "0000000000000002-0000000000000002.ltx"

/-- The state in which the backward put arrives. -/
theorem beforeBackward_eq : beforeBackward
    = { state := ⟨oneFile ⟨0, 1, 4⟩, none, 1, false⟩,
        waiting := [.put ⟨0, 5, 3⟩ [] (.received headerOnly)], past := [Bucket.empty] } :=
  serve_first ⟨0, 1, 4⟩ ⟨0, 5, 3⟩ rfl

/-- The state in which the put behind the last TXID arrives. -/
theorem beforeOverflow_eq : beforeOverflow
    = { state := ⟨oneFile ⟨0, 1, 18446744073709551615⟩, none, 1, false⟩,
        waiting := [.put ⟨0, 2, 2⟩ [] (.received headerOnly)], past := [Bucket.empty] } :=
  serve_first ⟨0, 1, 18446744073709551615⟩ ⟨0, 2, 2⟩ rfl

/-- Two pushes to an empty bucket are events as they occur. -/
theorem servingRun_afterOne (nameA nameB : String) :
    ServingRun openMount RealEvent (opened emptyView.state) (afterOne nameA nameB) := by
  have hseen : ∀ s, ∀ name, RealEvent s (pushed name) := fun s name f hf => by cases hf
  exact ((ServingRun.refl.step _ (hseen _ nameA)).step _ (hseen _ nameB)).step _ trivial

/-- A name that runs backwards is accepted and does not raise the maximum; behind a name that ends
at the last 64-bit number the fence panics. -/
theorem not_fenceRules_of_backward_or_last :
    (ServingRun openMount RealEvent (opened emptyView.state) beforeBackward ∧
      RealEvent beforeBackward completedFirst ∧
      ¬ FenceRules openMount beforeBackward completedFirst) ∧
    (ServingRun openMount RealEvent (opened emptyView.state) beforeOverflow ∧
      RealEvent beforeOverflow completedFirst ∧
      ¬ FenceRules openMount beforeOverflow completedFirst) := by
  refine ⟨⟨servingRun_afterOne _ _, trivial, fun h => ?_⟩,
    servingRun_afterOne _ _, trivial, fun h => ?_⟩
  · rw [beforeBackward_eq] at h
    -- the fence finds 5 = 4 + 1
    have hnew : checkMonotonic (oneFile ⟨0, 1, 4⟩) ⟨0, 5, 3⟩ (.ok ()) = .ok none := rfl
    have hdone := complete_headerOnly (s := ⟨oneFile ⟨0, 1, 4⟩, none, 1, false⟩) rfl hnew
    have hacc : Accepts openMount
        { state := ⟨oneFile ⟨0, 1, 4⟩, none, 1, false⟩,
          waiting := [.put ⟨0, 5, 3⟩ [] (.received headerOnly)], past := [Bucket.empty] }
        completedFirst ⟨0, 5, 3⟩ headerOnly := by
      refine ⟨0, _, [], rfl, rfl, ?_⟩
      rw [completedFirst, (serve_proceed _ rfl _).2, hdone]
      rfl
    rcases h.log _ _ hacc rfl with ⟨⟨f, hf, hcontent⟩, -⟩ | happ
    · have hkey := (Prod.mk.inj hcontent).1
      rw [List.mem_singleton.mp hf] at hkey
      exact absurd hkey (by decide)
    · have hraised := happ.raised.1.trans_eq happ.raised.2
      have hmax : maxOf (oneFile ⟨0, 1, 4⟩ 0) = 4 := rfl
      rw [hmax] at hraised
      exact absurd hraised (by decide)
  · rw [beforeOverflow_eq] at h
    have hover : checkFence openMount ⟨oneFile ⟨0, 1, 18446744073709551615⟩, none, 1, false⟩ []
        (some ⟨0, 2, 2⟩) 0 (.ok ()) = .error .panic := rfl
    refine h.total.1 ?_
    rw [completedFirst, (serve_proceed _ rfl _).2]
    show some (gated openMount ⟨oneFile ⟨0, 1, 18446744073709551615⟩, none, 1, false⟩ []
      (some ⟨0, 2, 2⟩) _ _).2 = _
    unfold gated
    rw [hover]
    rfl

/-- Behind a push of `1-4` one of `5-6` waits. -/
def beforeAppend : Serving :=
  afterOne "0000000000000001-0000000000000004.ltx" "0000000000000005-0000000000000006.ltx"

/-- A run of orderly names: a push to an empty bucket and one that continues it. -/
theorem servingRun_fenceRules_append :
    LogReady emptyView.state ∧ OrderlyEvent beforeAppend completedFirst ∧
      FenceRules openMount beforeAppend completedFirst := by
  have hready : LogReady emptyView.state := ⟨fun _ => .nil, fun f hf => (by cases hf), rfl⟩
  have harrive : ∀ s name, OrderlyEvent s (pushed name) := by
    intro s name
    exact ⟨fun f hf => (by cases hf), fun i env o headers body h => (by cases h)⟩
  -- the only job that is completed first offers an orderly name
  have hproceed : ∀ s o rest, s.waiting = .put o [] (.received headerOnly) :: rest →
      Orderly s.state.bucket o → OrderlyEvent s completedFirst := by
    intro s o rest hwait hname
    refine ⟨trivial, fun i env o' headers body he hjob _ _ => ?_⟩
    cases he
    rw [hwait, List.getElem?_cons_zero] at hjob
    cases hjob
    exact hname
  have hfirst : Orderly emptyView.state.bucket ⟨0, 1, 4⟩ := ⟨by decide, .inl rfl, by decide⟩
  have hsecond : OrderlyEvent beforeAppend completedFirst := by
    have heq : beforeAppend
        = { state := ⟨oneFile ⟨0, 1, 4⟩, none, 1, false⟩,
            waiting := [.put ⟨0, 5, 6⟩ [] (.received headerOnly)], past := [Bucket.empty] } :=
      serve_first ⟨0, 1, 4⟩ ⟨0, 5, 6⟩ rfl
    rw [heq]
    exact hproceed _ ⟨0, 5, 6⟩ [] rfl ⟨by decide, .inr (by decide), by decide⟩
  refine ⟨hready, hsecond, (servingRun_fenceRules hready ?_ _ hsecond).1⟩
  exact ((ServingRun.refl.step _ (harrive _ _)).step _ (harrive _ _)).step _
    (hproceed _ ⟨0, 1, 4⟩ [.put ⟨0, 5, 6⟩ [] (.received headerOnly)] rfl hfirst)

end Liters
