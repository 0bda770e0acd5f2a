import Liters.Replica.CatchUp
import Liters.Replica.Follow

/-! # The pace of a follower

A follower must not hammer the bucket. Syncs never go back by themselves
(`incrementalSync_written`), a session that ends with nothing applied is followed by a sleep, and so
is every error that is retried. So a follower that comes back to the top of the loop without a sleep
got ahead since it was there before, or a sync restored it (`followSteps_ahead`). -/

namespace Liters

/-! ## Syncs do not go back -/

namespace Replica

/-- A part of a sync that leaves the position file alone, and returns only what `Q` allows. -/
def Leaves {α : Type} (x : Sync α) (Q : α → Prop) : Prop :=
  ∀ s, Spec x s (fun a s' => s'.txid = s.txid ∧ Q a) fun _ s' => s'.txid = s.txid

section
variable {env : SyncEnv} {c : Codec} {opts : ReplicaOptions} {pageSize : Nat} {α β : Type}

/-- A value leaves the position file alone. -/
theorem leaves_pure {Q : α → Prop} {a : α} (h : Q a) : Leaves (pure a : Sync α) Q :=
  fun _ => ⟨rfl, h⟩

/-- So does an error. -/
theorem leaves_throw {Q : α → Prop} (halt : Halt) : Leaves (throw halt : Sync α) Q := fun _ => rfl

/-- So do two parts, one after the other. -/
theorem Leaves.bind {x : Sync α} {f : α → Sync β} {Q : α → Prop} {R : β → Prop} (hx : Leaves x Q)
    (hf : ∀ a, Q a → Leaves (f a) R) : Leaves (x >>= f) R := by
  intro s
  refine (hx s).bind ?_
  rintro a s' ⟨htxid, ha⟩
  refine (hf a ha s').mono ?_ fun _ _ htxid' => htxid'.trans htxid
  rintro b s'' ⟨htxid', hb⟩
  exact ⟨htxid'.trans htxid, hb⟩

/-- What is returned may be described more weakly. -/
theorem Leaves.mono {x : Sync α} {Q R : α → Prop} (h : Leaves x Q) (hQ : ∀ a, Q a → R a) :
    Leaves x R :=
  fun s => (h s).mono (fun a _ ha => ⟨ha.1, hQ a ha.2⟩) fun _ _ htxid => htxid

/-- What matters where an error ends it all. -/
theorem Leaves.spec {x : Sync α} {Q : α → Prop} (h : Leaves x Q) (s : Follower) :
    Spec x s (fun a s' => s'.txid = s.txid ∧ Q a) fun _ _ => True :=
  (h s).mono (fun _ _ ha => ha) fun _ _ _ => trivial

/-- An error that is caught keeps what was done before it. -/
theorem Leaves.tryCatch {x : Sync α} {handler : Halt → Sync α} {Q : α → Prop} (h : Leaves x Q)
    (hcatch : ∀ halt, Leaves (handler halt) Q) : Leaves (tryCatch x handler) Q := by
  intro s
  refine (h s).tryCatch fun halt s' htxid => ?_
  refine (hcatch halt s').mono ?_ fun _ _ htxid' => htxid'.trans htxid
  rintro a s'' ⟨htxid', ha⟩
  exact ⟨htxid'.trans htxid, ha⟩

/-- A change that keeps the position file leaves it alone. -/
theorem leaves_modify {f : Follower → Follower} (hf : ∀ s, (f s).txid = s.txid) :
    Leaves (modify f : Sync PUnit) fun _ => True := fun _ => ⟨hf _, trivial⟩

/-- An effect on the database. -/
theorem leaves_effect {e : ReplicaError} {f : Moment → Follower → Follower}
    (hf : ∀ m s, (f m s).txid = s.txid) :
    Leaves (effect env e f) fun _ => True :=
  fun _ => spec_effect (fun m => ⟨hf m _, trivial⟩) (fun m _ => hf m _) fun _ => rfl

/-- So does a step without an effect. -/
theorem leaves_pass {e : ReplicaError} : Leaves (pass env e) fun _ => True :=
  leaves_effect fun _ _ => rfl

/-- A request tells what the bucket holds at some moment. -/
theorem leaves_request : Leaves (request env) fun b => ∃ i, b = (env.moment i).bucket :=
  fun s => spec_request ⟨rfl, s.clock, rfl⟩ fun _ => rfl

/-- So does the writing of pages. -/
theorem leaves_writePages (pages : List Page) :
    Leaves (writePages env pageSize pages) fun _ => True := by
  induction pages with
  | nil => exact leaves_pure trivial
  | cons page pages ih =>
      refine Leaves.bind (Q := fun _ => True) ?_ fun _ _ => ih
      exact leaves_effect fun _ _ => rfl

/-- So does the application of a decoded file. -/
theorem leaves_applyDecoded (hdr : Header) (pages : List Page) :
    Leaves (applyDecoded env opts pageSize hdr pages) fun _ => True := by
  unfold applyDecoded
  refine Leaves.bind (Q := fun _ => True) ?_ fun _ _ => ?_
  · unfold takeLock
    split
    · exact leaves_pass
    · exact leaves_pure trivial
  refine Leaves.bind (leaves_modify (f := Follower.start hdr) fun _ => rfl) fun _ _ => ?_
  refine Leaves.bind (Q := fun _ => True) ?_ fun _ _ => leaves_modify fun s => ?_
  · unfold writeFile setSize
    refine (leaves_writePages pages).bind fun _ _ => ?_
    refine Leaves.bind (Q := fun _ => True) ?_ fun _ _ => leaves_pass
    split
    · exact leaves_effect fun _ _ => rfl
    · exact leaves_pure trivial
  · unfold Follower.finish
    split
    · rfl
    · split
      · rfl
      · rfl

/-- Applying a file, whatever its bytes are. -/
theorem leaves_applySpooled (body : Bytes) :
    Leaves (applySpooled env c opts pageSize body) fun _ => True := by
  unfold applySpooled
  split
  · exact leaves_throw _
  · split
    · exact leaves_throw _
    · split
      · exact leaves_throw _
      · exact leaves_applyDecoded _ _

/-- So does the application of a stored one. -/
theorem leaves_applyLtxFile (info : FileInfo) :
    Leaves (applyLtxFile env c opts pageSize info) fun _ => True := by
  unfold applyLtxFile
  refine leaves_request.bind fun b _ => ?_
  split
  · exact leaves_pure trivial
  · refine leaves_pass.bind fun _ _ => leaves_pass.bind fun _ _ => leaves_pass.bind fun _ _ => ?_
    exact (leaves_applySpooled _).bind fun _ _ => leaves_pure trivial

end

/-- From `t` on: the same transaction, or a later one that fits 64 bits. -/
def Onto (t r : Nat) : Prop := r = t ∨ (t < r ∧ r < 2 ^ 64)

/-- A transaction is on from itself. -/
theorem Onto.refl (t : Nat) : Onto t t := .inl rfl

/-- One is on from another through a third. -/
theorem Onto.trans {t r q : Nat} (h : Onto t r) (h' : Onto r q) : Onto t q := by
  unfold Onto at *
  omega

/-- Transactions fit 64 bits. -/
def FitsList (infos : List FileInfo) : Prop := ∀ info ∈ infos, info.maxTxid < 2 ^ 64

end Replica

/-- The buckets that a sync is shown hold transactions of 64 bits. -/
def SyncEnv.Fits (env : SyncEnv) : Prop :=
  ∀ i level, ∀ x ∈ (env.moment i).bucket level, x.maxTxid < 2 ^ 64

namespace Replica

section
variable {env : SyncEnv} {c : Codec} {opts : ReplicaOptions} {pageSize : Nat} (hfits : env.Fits)
include hfits

/-- A listing returns 64-bit TXIDs. -/
theorem leaves_listLevel (level seek : Nat) : Leaves (listLevel env level seek) FitsList := by
  unfold listLevel
  refine leaves_request.bind fun b hb => leaves_pure ?_
  obtain ⟨i, rfl⟩ := hb
  intro info hinfo
  obtain ⟨x, hx, rfl⟩ := List.mem_map.mp hinfo
  exact hfits i level x (List.mem_filter.mp hx).1

omit hfits in
/-- Filling from one level goes on only. -/
theorem leaves_fillLevel {gapMin : Nat} {infos : List FileInfo} (hinfos : FitsList infos)
    (current : Nat) :
    Leaves (fillLevel env c opts pageSize gapMin infos current) fun r => Onto current r.1 := by
  induction infos generalizing current with
  | nil => exact leaves_pure (.refl _)
  | cons info infos ih =>
      have hrest : FitsList infos := fun x hx => hinfos x (List.mem_cons_of_mem _ hx)
      have hinfo : info.maxTxid < 2 ^ 64 := hinfos info (List.mem_cons_self ..)
      unfold fillLevel
      split
      · exact leaves_pure (.refl _)
      · split
        · exact ih hrest current
        · rename_i hnew
          have honto : Onto current info.maxTxid := .inr ⟨not_le.mp hnew, hinfo⟩
          refine leaves_pass.bind fun _ _ => (leaves_applyLtxFile info).bind fun applied _ => ?_
          cases applied with
          | false => exact leaves_pure (.refl _)
          | true =>
              rw [if_pos rfl]
              split
              · exact leaves_pure honto
              · exact (ih hrest _).mono fun r hr => honto.trans hr

/-- So does filling from all levels. -/
theorem leaves_fillFollowGap {gapMin : Nat} (levels : List Nat) (after : Nat) (saw404 : Bool) :
    Leaves (fillFollowGap env c opts pageSize gapMin levels after saw404) fun r =>
      Onto after r.1 := by
  induction levels with
  | nil => exact leaves_pure (.refl _)
  | cons level levels ih =>
      unfold fillFollowGap
      refine (leaves_listLevel hfits level 0).bind fun infos hinfos => ?_
      refine (leaves_fillLevel hinfos after).bind fun r hr => ?_
      obtain ⟨current, ended⟩ := r
      cases ended with
      | filled => exact leaves_pure hr
      | notFound => exact leaves_pure hr
      | exhausted =>
          dsimp only
          split
          · exact leaves_pure hr
          · exact ih

/-- So does the closing of a gap. -/
theorem leaves_closeGap (info : FileInfo) (current : Nat) (saw404 : Bool) :
    Leaves (closeGap env c opts pageSize info current saw404) fun r => Onto current r.1 := by
  unfold closeGap
  split
  · exact leaves_fillFollowGap hfits _ _ _
  · exact leaves_pure (.refl _)

/-- So does the walk over level 0. -/
theorem leaves_applyLevel0 {infos : List FileInfo} (hinfos : FitsList infos) (current : Nat)
    (saw404 : Bool) :
    Leaves (applyLevel0 env c opts pageSize infos current saw404) fun r => Onto current r.1 := by
  induction infos generalizing current saw404 with
  | nil => exact leaves_pure (.refl _)
  | cons info infos ih =>
      have hrest : FitsList infos := fun x hx => hinfos x (List.mem_cons_of_mem _ hx)
      have hinfo : info.maxTxid < 2 ^ 64 := hinfos info (List.mem_cons_self ..)
      unfold applyLevel0
      refine leaves_pass.bind fun _ _ =>
        (leaves_closeGap hfits info current saw404).bind fun r hr => ?_
      obtain ⟨bridged, saw404⟩ := r
      have hr : Onto current bridged := hr
      dsimp only
      split
      · exact (ih hrest bridged saw404).mono fun q hq => hr.trans hq
      · rename_i hnew
        split
        · exact leaves_pure hr
        · refine (leaves_applyLtxFile info).bind fun applied _ => ?_
          cases applied with
          | false => exact leaves_pure hr
          | true =>
              have honto : Onto bridged info.maxTxid := .inr ⟨not_le.mp hnew, hinfo⟩
              exact (ih hrest info.maxTxid saw404).mono fun q hq => (hr.trans honto).trans hq

/-- So does the incremental part of a sync. -/
theorem leaves_applyListed {infos : List FileInfo} (hinfos : FitsList infos) (fromTxid : Nat) :
    Leaves (applyListed env c opts pageSize fromTxid infos) fun r => Onto fromTxid r.1 := by
  unfold applyListed
  split
  · refine (leaves_fillFollowGap hfits gapLevels fromTxid false).bind fun r hr => ?_
    exact leaves_pure hr
  · exact leaves_applyLevel0 hfits hinfos fromTxid false

omit hfits in
/-- The newer of two snapshots has a 64-bit TXID too. -/
theorem fits_newerSnapshot {infos : List FileInfo} (hinfos : FitsList infos)
    {newest : Option FileInfo} (hnewest : ∀ snap ∈ newest, snap.maxTxid < 2 ^ 64) :
    ∀ snap ∈ infos.foldl newerSnapshot newest, snap.maxTxid < 2 ^ 64 := by
  intro snap hsnap
  rcases mem_foldl_newerSnapshot hsnap with h | h
  · exact hnewest snap h
  · exact hinfos snap h

/-- The survey of the bucket returns a snapshot of 64 bits. -/
theorem leaves_survey (levels : List Nat) (bucketMax : Nat) {newest : Option FileInfo}
    (hnewest : ∀ snap ∈ newest, snap.maxTxid < 2 ^ 64) :
    Leaves (survey env levels bucketMax newest) fun r => ∀ snap ∈ r.2, snap.maxTxid < 2 ^ 64 := by
  induction levels generalizing bucketMax newest with
  | nil => exact leaves_pure hnewest
  | cons level levels ih =>
      unfold survey
      refine (leaves_listLevel hfits level 0).bind fun infos hinfos => ih _ ?_
      split
      · exact fits_newerSnapshot hinfos hnewest
      · exact hnewest

omit hfits in
/-- The fallback to a snapshot goes on only. -/
theorem leaves_fallBack (current : Nat) {newest : Option FileInfo}
    (hnewest : ∀ snap ∈ newest, snap.maxTxid < 2 ^ 64) :
    Leaves (fallBack env c opts pageSize current newest) fun r => Onto current r := by
  unfold fallBack
  cases newest with
  | none => exact leaves_pure (.refl _)
  | some snap =>
      dsimp only
      split
      · rename_i hahead
        refine leaves_pass.bind fun _ _ => (leaves_applyLtxFile snap).bind fun applied _ => ?_
        cases applied with
        | false => exact leaves_throw _
        | true => exact leaves_pure (.inr ⟨hahead, hnewest snap rfl⟩)
      · exact leaves_pure (.refl _)

/-- A position that is written down, or has not moved. -/
def Written (fromTxid : Nat) (s : Follower) (r : Nat) (s' : Follower) : Prop :=
  (r = fromTxid ∧ s'.txid = s.txid) ∨ (fromTxid < r ∧ r < 2 ^ 64 ∧ s'.txid = some (txidLine r))

omit hfits in
/-- The position file is advanced to what it is told. -/
theorem advanceTxidFile_spec (txid : Nat) (s : Follower) :
    Spec (advanceTxidFile env txid) s (fun _ s' => s'.txid = some (txidLine txid)) fun _ _ =>
      True := by
  unfold advanceTxidFile
  refine (leaves_pass.spec s).bind fun _ s₁ _ => ?_
  refine (leaves_pass.spec s₁).bind fun _ s₂ _ => ?_
  refine (leaves_pass.spec s₂).bind fun _ s₃ _ => ?_
  refine Spec.bind (Q := fun _ s' => s'.txid = some (txidLine txid))
    (spec_effect (fun _ => rfl) (fun _ _ => trivial) fun _ => trivial) fun _ s₄ htxid => ?_
  exact spec_passAnyway htxid fun _ => trivial

omit hfits in
/-- The end of a sync writes the position it returns. -/
theorem persist_spec {fromTxid current : Nat} (h : Onto fromTxid current) (s : Follower) :
    Spec (persist env fromTxid current) s (fun r s' => Written fromTxid s r s') fun _ _ =>
      True := by
  unfold persist
  split
  · rename_i hmoved
    refine (advanceTxidFile_spec current s).bind fun _ s' htxid => ?_
    have hbound : current < 2 ^ 64 := by
      unfold Onto at h
      omega
    exact .inr ⟨hmoved, hbound, htxid⟩
  · rename_i hstays
    have heq : current = fromTxid := by
      unfold Onto at h
      omega
    exact .inl ⟨heq, rfl⟩

/-- **The end of an incremental sync** has written the position it returns. -/
theorem finishIncremental_written {fromTxid current : Nat} (h : Onto fromTxid current)
    (allow : Bool) (s : Follower) :
    Spec (finishIncremental env c opts pageSize fromTxid current allow) s
      (fun r s' => Written fromTxid s r s')
      fun _ _ => True := by
  unfold finishIncremental
  split
  · rename_i hstays
    have hnone : ∀ snap ∈ (none : Option FileInfo), snap.maxTxid < 2 ^ 64 := fun _ hsnap => by
      cases hsnap
    refine ((leaves_survey hfits allLevels 0 hnone).spec s).bind ?_
    rintro ⟨bucketMax, newest⟩ s₁ ⟨htxid, hnewest⟩
    dsimp only
    split
    · exact .inl ⟨hstays.1, htxid⟩
    · split
      · trivial
      · refine ((leaves_fallBack current hnewest).spec s₁).bind ?_
        rintro r s₂ ⟨htxid', hr⟩
        refine (persist_spec (h.trans hr) s₂).mono ?_ fun _ _ _ => trivial
        rintro q s₃ (⟨rfl, heq⟩ | hmoved)
        · exact .inl ⟨rfl, (heq.trans htxid').trans htxid⟩
        · exact .inr hmoved
  · exact persist_spec h s

/-- **A round does not go back**: it returns its start with the position file as it was, or a later
transaction that the position file says. -/
theorem incrementalSync_written (fromTxid : Nat) (s : Follower) :
    Spec (incrementalSync env c opts fromTxid) s (fun r s' => Written fromTxid s r s') fun _ _ =>
      True := by
  unfold incrementalSync
  refine (leaves_pass.spec s).bind fun _ s₁ h₁ => ?_
  rw [spec_bind, spec_get]
  split
  · trivial
  · rename_i pageSize hsize
    unfold followBucket
    refine ((leaves_listLevel hfits 0 _).spec s₁).bind ?_
    rintro infos s₂ ⟨h₂, hinfos⟩
    refine ((leaves_applyListed hfits hinfos fromTxid).spec s₂).bind ?_
    rintro ⟨current, allow⟩ s₃ ⟨h₃, hcurrent⟩
    refine (finishIncremental_written hfits hcurrent allow s₃).mono ?_ fun _ _ _ => trivial
    rintro r s₄ (⟨rfl, heq⟩ | hmoved)
    · exact .inl ⟨rfl, ((heq.trans h₃).trans h₂).trans h₁.1⟩
    · exact .inr hmoved

end

end Replica

/-- The position is a matter of the position file alone. -/
theorem readTxidFile_congr {d d' : Disk} (h : d.txid = d'.txid) :
    readTxidFile d = readTxidFile d' := by
  unfold readTxidFile
  rw [h]

/-- A sync that does not restore leaves a position that is no less than the one before. -/
theorem syncWith_forward {c : Codec} {opts : ReplicaOptions} {env : SyncEnv} (hfits : env.Fits)
    {s site : Site} {before : Nat} (hbefore : readTxidFile s.disk = .ok before)
    {result : SyncResult}
    (hsync : syncWith c opts env s = (.ok result, site)) (hkept : result.restored = false) :
    ∃ position, readTxidFile site.disk = .ok position ∧ before ≤ position := by
  have houtcome := syncWith_outcome c opts env s
  rw [hsync] at houtcome
  cases houtcome with
  | fresh hres hpos =>
      cases hres
      cases hkept
  | restored hdb hpos hread hrun hdiv hres =>
      cases hres
      cases hkept
  | @returned db fromTxid toTxid f hdb hpos hread hrun =>
      obtain rfl : before = fromTxid := Except.ok.inj (hbefore.symm.trans hread)
      have hspec := @Replica.incrementalSync_written _ c opts hfits before
        ⟨db, s.disk.txid, 0, s.reached, s.rooted⟩
      rw [Spec, hrun] at hspec
      rcases hspec with ⟨rfl, heq⟩ | ⟨hlt, hbound, heq⟩
      · exact ⟨toTxid, (readTxidFile_congr heq).trans hbefore, le_rfl⟩
      · exact ⟨toTxid, readTxidFile_line hbound heq, hlt.le⟩

/-! ## One step -/

/-- What an input tells fits 64 bits. -/
def FollowInput.Fits : FollowInput → Prop
  | .round env => env.sync.Fits
  | .event env => ∀ info, env.told = .ok (.ltx info) → info.maxTxid < 2 ^ 64

/-- Ahead of `p`: at the top of the loop by the position, in a session as soon as something was
applied. -/
def Following.Ahead (p : Nat) (s : Following) : Prop :=
  match s.phase with
  | .round => ∃ q, readTxidFile s.site.disk = .ok q ∧ p < q
  | .streaming session => readTxidFile s.site.disk = .ok session.position ∧ p ≤ session.before ∧
      session.before ≤ session.position ∧
        (session.madeProgress = true → session.before < session.position)
  | _ => True

/-- Ahead of `p`, unless there were more than `naps` sleeps or more than `restores` restores. -/
structure Following.Paced (p naps restores : Nat) (s : Following) : Prop where
  slept : naps ≤ s.naps.length
  restored : restores ≤ s.restores
  ahead : s.naps.length = naps → s.restores = restores → s.Ahead p

namespace Following

variable {c : Codec} {opts : ReplicaOptions} {fopts : FollowOptions} {p k r : Nat} {s : Following}

/-- A follower that returns is paced. -/
theorem paced_leave (hk : k ≤ s.naps.length) (hr : r ≤ s.restores)
    (result : Except ReplicaError Unit) :
    (s.leave result).Paced p k r := ⟨hk, hr, fun _ _ => trivial⟩

/-- So is one that is killed. -/
theorem paced_killed (hk : k ≤ s.naps.length) (hr : r ≤ s.restores) :
    Paced p k r { s with phase := .killed } :=
  ⟨hk, hr, fun _ _ => trivial⟩

/-- A sleep is one more. -/
theorem paced_sleep (hk : k ≤ s.naps.length) (hr : r ≤ s.restores) (nap : Nap) (cancelled : Bool) :
    (s.sleep nap cancelled).Paced p k r := by
  have hlength : (s.sleep nap cancelled).naps.length = s.naps.length + 1 := List.length_append
  exact ⟨by omega, hr, fun heq => absurd heq (by omega)⟩

/-- So is one that retries, having slept or not. -/
theorem paced_retryOr (hk : k ≤ s.naps.length) (hr : r ≤ s.restores)
    (unavailable sleepCancelled : Bool) (e : ReplicaError) :
    (s.retryOr fopts unavailable sleepCancelled e).Paced p k r := by
  unfold retryOr
  split
  · obtain ⟨hnaps, hrestores, -⟩ := paced_sleep (p := p) hk hr (.backoff s.attempt) sleepCancelled
    have hlength : (s.sleep (.backoff s.attempt) sleepCancelled).naps.length = s.naps.length + 1 :=
      List.length_append
    exact ⟨hnaps, hrestores, fun heq => absurd (hlength.symm.trans heq) (by omega)⟩
  · exact paced_leave hk hr _

/-- So is one that opens a session, at a position no smaller than before. -/
theorem paced_openSession (hk : k ≤ s.naps.length) (hr : r ≤ s.restores) (env : RoundEnv)
    {before : Nat} (h : s.naps.length = k → s.restores = r →
      ∃ q, readTxidFile s.site.disk = .ok q ∧ p ≤ before ∧ before ≤ q) :
    (s.openSession fopts env before).Paced p k r := by
  unfold openSession
  split
  · exact paced_leave hk hr _
  · rename_i position hposition
    split
    · exact paced_killed hk hr
    · exact paced_leave hk hr _
    · exact paced_retryOr hk hr _ _ _
    · exact paced_sleep hk hr _ _
    · split
      · exact paced_killed hk hr
      · refine ⟨hk, hr, fun hnaps hrestores => ?_⟩
        obtain ⟨q, hq, hle, hge⟩ := h hnaps hrestores
        obtain rfl : position = q := Except.ok.inj (hposition.symm.trans hq)
        exact ⟨hq, hle, hge, of_decide_eq_true⟩
      · exact paced_retryOr hk hr _ _ _

/-- A round from a position that is not behind `p`. -/
theorem paced_round (hk : k ≤ s.naps.length) (hr : r ≤ s.restores) {env : RoundEnv}
    (hfits : env.sync.Fits)
    (h : s.naps.length = k → s.restores = r → ∃ q, readTxidFile s.site.disk = .ok q ∧ p ≤ q) :
    (s.round c opts fopts env).Paced p k r := by
  unfold round
  split
  · -- cancelled before the round begins
    exact paced_leave hk hr _
  · split
    · -- the position cannot be read, which ends the follow
      exact paced_leave hk hr _
    · rename_i before hbefore
      split
      · exact ⟨hk, hr, fun _ _ => trivial⟩
      · exact ⟨hk, hr, fun _ _ => trivial⟩
      · rename_i site hsync
        exact paced_sleep (s := { s with site }) hk hr _ _
      · rename_i e site _ _ hsync
        exact paced_retryOr (s := { s with site }) hk hr _ _ e
      · -- a finished sync opens a session at its position
        rename_i result site hsync
        refine paced_openSession (s := { s with site, attempt := 0, restores := _ }) hk ?_ env
          fun hnaps hrestores => ?_
        · dsimp only
          split
          · exact Nat.le_succ_of_le hr
          · exact hr
        · -- no restore, so the sync did not go back
          have hrestores : (if result.restored then s.restores + 1 else s.restores) = r := hrestores
          cases hkept : result.restored with
          | true =>
              rw [hkept, if_pos rfl] at hrestores
              omega
          | false =>
              rw [hkept, if_neg Bool.false_ne_true] at hrestores
              obtain ⟨q, hq, hle⟩ := h hnaps hrestores
              obtain rfl : before = q := Except.ok.inj (hbefore.symm.trans hq)
              obtain ⟨position, hposition, hge⟩ := syncWith_forward hfits hbefore hsync hkept
              exact ⟨position, hposition, hle, hge⟩

end Following

/-- Applying a frame. -/
theorem Replica.leaves_appliesSpooled {env : SyncEnv} {c : Codec} {opts : ReplicaOptions}
    {pageSize : Nat} {body : Bytes} :
    Leaves (appliesSpooled env c opts pageSize body) fun _ => True := by
  have hrun : Leaves (do applySpooled env c opts pageSize body; pure true) fun _ => True :=
    (leaves_applySpooled body).bind fun _ _ => leaves_pure trivial
  refine hrun.tryCatch fun halt => ?_
  split
  · exact leaves_pure trivial
  · exact leaves_pure trivial
  · exact leaves_pure trivial
  · exact leaves_pure trivial
  · exact leaves_throw _

/-- How an event leaves the position file, if nothing goes wrong: as it was, or at the end of a
frame that continues the position. -/
theorem Replica.handleEvent_written {c : Codec} {opts : ReplicaOptions} {env : EventEnv}
    (session : StreamSession) (f : Follower) :
    Spec (handleEvent c opts env session) f
      (fun next f' => match next with
        | none => f'.txid = f.txid
        | some session' => (session' = session ∧ f'.txid = f.txid) ∨
            ∃ info, env.told = .ok (.ltx info) ∧ session.position < info.maxTxid ∧
              session' = { session with position := info.maxTxid, madeProgress := true } ∧
              f'.txid = some (txidLine info.maxTxid))
      fun _ _ => True := by
  unfold handleEvent
  refine (leaves_pass.spec f).bind ?_
  rintro - f₁ ⟨h₁, -⟩
  split
  · trivial
  · rename_i info htold
    -- passed over: the file is not ahead of the session
    split
    · exact .inl ⟨rfl, h₁⟩
    · rename_i hnew
      -- contiguous: it is spooled and applied, and the label follows
      split
      · refine (leaves_pass.spec f₁).bind ?_
        rintro - f₂ ⟨h₂, -⟩
        refine (leaves_appliesSpooled.spec f₂).bind ?_
        rintro applied f₃ ⟨h₃, -⟩
        cases applied with
        | false => exact (h₃.trans h₂).trans h₁
        | true =>
            refine (advanceTxidFile_spec info.maxTxid f₃).bind fun _ f₄ h₄ => ?_
            exact .inr ⟨info, htold, not_le.mp hnew, rfl, h₄⟩
      · -- a gap ends the session
        exact h₁
  · -- a ping below the position ends it, another one changes nothing
    split
    · exact h₁
    · exact .inl ⟨rfl, h₁⟩
  · exact .inl ⟨rfl, h₁⟩
  · exact h₁

namespace Following

variable {c : Codec} {opts : ReplicaOptions} {fopts : FollowOptions} {p k r : Nat} {s : Following}

/-- The end of a session that got ahead if anything was applied. -/
theorem paced_endSession (hk : k ≤ s.naps.length) (hr : r ≤ s.restores) (env : EventEnv)
    {madeProgress : Bool} {e : Option ReplicaError}
    (h : e = none → madeProgress = true → s.naps.length = k → s.restores = r →
      ∃ q, readTxidFile s.site.disk = .ok q ∧ p < q) :
    (s.endSession fopts env madeProgress e).Paced p k r := by
  unfold endSession
  cases madeProgress with
  | true =>
      rw [if_pos rfl]
      split
      · exact paced_leave (s := { s with attempt := 0 }) hk hr _
      · exact paced_retryOr (s := { s with attempt := 0 }) hk hr _ _ _
      · exact ⟨hk, hr, h rfl rfl⟩
  | false =>
      rw [if_neg Bool.false_ne_true]
      split
      · exact paced_leave hk hr _
      · exact paced_retryOr hk hr _ _ _
      · exact paced_sleep hk hr _ _

/-- **An event of a session.** -/
theorem Paced.event (h : s.Paced p k r) {session : StreamSession}
    (hphase : s.phase = .streaming session) {env : EventEnv}
    (hfits : ∀ info, env.told = .ok (.ltx info) → info.maxTxid < 2 ^ 64) :
    (s.event c opts fopts env session).Paced p k r := by
  obtain ⟨hk, hr, hahead⟩ := h
  unfold Ahead at hahead
  rw [hphase] at hahead
  unfold Following.event
  -- cancelled between two events
  split
  · exact paced_leave hk hr _
  · split
    · exact ⟨hk, hr, fun hnaps hrestores =>
        by unfold Ahead; rw [hphase]; exact hahead hnaps hrestores⟩
    · -- the event is handled, and only an applied file moves the label
      rename_i db hdb
      have hspec := @Replica.handleEvent_written c opts env session
        ⟨db, s.site.disk.txid, 0, s.site.reached, s.site.rooted⟩
      unfold Spec at hspec
      split
      · -- the session goes on
        rename_i session' f hrun
        rw [hrun] at hspec
        refine ⟨hk, hr, fun hnaps hrestores => ?_⟩
        obtain ⟨hread, hle, hge, hprogress⟩ := hahead hnaps hrestores
        rcases hspec with ⟨rfl, htxid⟩ | ⟨info, htold, hlt, rfl, htxid⟩
        · exact ⟨(readTxidFile_congr htxid).trans hread, hle, hge, hprogress⟩
        · have hlabel : readTxidFile f.site.disk = .ok info.maxTxid :=
            readTxidFile_line (hfits info htold) htxid
          have hup : session.before < info.maxTxid := lt_of_le_of_lt hge hlt
          exact ⟨hlabel, hle, hup.le, fun _ => hup⟩
      · -- it is over
        rename_i f hrun
        rw [hrun] at hspec
        refine paced_endSession (s := { s with site := f.site }) hk hr env fun _ hprogress hnaps
          hrestores => ?_
        obtain ⟨hread, hle, hge, hahead⟩ := hahead hnaps hrestores
        have htxid : f.site.disk.txid = s.site.disk.txid := hspec
        exact ⟨session.position, (readTxidFile_congr htxid).trans hread,
          lt_of_le_of_lt hle (hahead hprogress)⟩
      · exact ⟨hk, hr, fun _ _ => trivial⟩
      · -- after an error it sleeps before the next round, or it ends
        rename_i e f hrun
        exact paced_endSession (s := { s with site := f.site }) hk hr env fun hnone => by
          cases hnone

/-- **One step.** -/
theorem Paced.step (h : s.Paced p k r) {input : FollowInput} (hfits : input.Fits) :
    (followStep c opts fopts s input).Paced p k r := by
  cases input with
  | round env =>
      unfold followStep
      dsimp only
      split
      · rename_i hphase
        refine paced_round h.slept h.restored hfits fun hnaps hrestores => ?_
        have hahead := h.ahead hnaps hrestores
        unfold Ahead at hahead
        rw [hphase] at hahead
        obtain ⟨q, hq, hlt⟩ := hahead
        exact ⟨q, hq, hlt.le⟩
      · exact h
  | event env =>
      unfold followStep
      dsimp only
      split
      · rename_i session hphase
        exact h.event hphase hfits
      · exact h

/-- **All steps.** -/
theorem Paced.steps (h : s.Paced p k r) {inputs : List FollowInput}
    (hfits : ∀ input ∈ inputs, input.Fits) :
    (followSteps c opts fopts s inputs).Paced p k r := by
  induction inputs generalizing s with
  | nil => exact h
  | cons input inputs ih =>
      exact ih (h.step (hfits input (List.mem_cons_self ..))) fun x hx =>
        hfits x (List.mem_cons_of_mem _ hx)

end Following

/-- **No hot loop.** Whatever the bucket, the stream, the disk and the token do, in any number of
rounds and sessions: a follower that is back at the top of the loop and has not slept since it was
there before is further ahead than it was then, or a sync restored it meanwhile. -/
theorem followSteps_ahead {c : Codec} {opts : ReplicaOptions} {fopts : FollowOptions}
    {s : Following} {p : Nat} (htop : s.phase = .round) (hp : readTxidFile s.site.disk = .ok p)
    (env : RoundEnv) (inputs : List FollowInput)
    (hfits : ∀ input ∈ .round env :: inputs, input.Fits)
    (hback : (followSteps c opts fopts s (.round env :: inputs)).phase = .round)
    (hawake : (followSteps c opts fopts s (.round env :: inputs)).naps = s.naps) :
    (∃ q, readTxidFile (followSteps c opts fopts s (.round env :: inputs)).site.disk = .ok q ∧
      p < q) ∨
      s.restores < (followSteps c opts fopts s (.round env :: inputs)).restores := by
  have hfirst : (followStep c opts fopts s (.round env)).Paced p s.naps.length s.restores := by
    unfold followStep
    rw [htop]
    exact Following.paced_round le_rfl le_rfl (hfits (.round env) (List.mem_cons_self ..)) fun _
      _ => ⟨p, hp, le_rfl⟩
  have hlast : (followSteps c opts fopts s (.round env :: inputs)).Paced p s.naps.length
      s.restores :=
    hfirst.steps fun x hx => hfits x (List.mem_cons_of_mem _ hx)
  rcases Nat.eq_or_lt_of_le hlast.restored with heq | hlt
  · have hahead := hlast.ahead (by rw [hawake]) heq.symm
    unfold Following.Ahead at hahead
    rw [hback] at hahead
    exact .inl hahead
  · exact .inr hlt

/-- The bucket of two transactions, each with a file. -/
def pairBucket : Bucket := stampedBucket literalCodec .ofNat (twoRanges 2)

/-- A replica at the first transaction. -/
def firstSite : Site := ⟨⟨some (stampedPage 1), some (txidLine 1)⟩, 1, true⟩

/-- The sample bucket is faithful. -/
theorem pairBucket_faithful : Faithful literalCodec (stampedUploads .ofNat) 2 pairBucket :=
  stampedBucket_faithful (twoRanges_ok le_rfl) (by decide)

/-- A sync brings it to the second one. -/
theorem firstSite_sync :
    ∃ site, syncWith literalCodec ⟨.none, false, false⟩ (calmSync pairBucket) firstSite
    = (.ok ⟨false, 1, 2⟩, site) ∧ HoldsAt (stampedUploads .ofNat) 2 2 site := by
  have hstart : SameDatabase (stampedUploads .ofNat).pageSize.toNat (stampedUploads .ofNat).lock
      (stampedPage 1)
      ((stampedUploads .ofNat).image 1) := by
    rw [stampedUploads_image le_rfl]
    exact .refl _ _ _
  have hmem : stampedFile literalCodec .ofNat 2 2 ∈ pairBucket 0 := stampedFile_mem (by decide)
  have hstill : (calmSync pairBucket).Still pairBucket := ⟨fun _ => rfl, fun _ => rfl⟩
  obtain ⟨r, site, hsync, hsite, hge, hle, honward⟩ :=
    (hstart.holdsAt (n := 2) (by decide) (by decide)).sync
    literalCodec_lawful (by decide) pairBucket_faithful le_rfl (by decide) hmem
    (by rw [(stampedFile_key ..).2]; decide) (stampedUploads_readPageSize le_rfl)
      ⟨.none, false, false⟩ hstill
  have hlt : 1 < r := honward.mpr (.inl ⟨_, hmem, (stampedFile_key ..).1⟩)
  obtain rfl : r = 2 := by omega
  exact ⟨site, hsync, hsite⟩

/-- A round in which nothing goes wrong. -/
def calmRound (b : Bucket) : RoundEnv where
  cancelled := false
  sync := calmSync b
  stream := .live
  file := .done
  unavailable := false
  sleepCancelled := false

/-- An event whose handling nothing disturbs. -/
def calmEvent (told : Except ReplicaError StreamEvent) (spool : Bytes) : EventEnv where
  cancelled := false
  steps := calmSync fun _ => []
  told := told
  spool := spool
  unavailable := false
  sleepCancelled := false

section
variable {c : Codec} {opts : ReplicaOptions} {fopts : FollowOptions} {U : Uploads} {n p : Nat}
  {s : Following}

/-- The page size of a replica that holds a transaction can be read. -/
theorem HoldsAt.readPageSize {site : Site} (h : HoldsAt U n p site) (hpos : 1 ≤ p) :
    ∃ db pageSize, site.disk.db = some db ∧ Replica.readPageSize db = some pageSize := by
  obtain ⟨⟨db, hdb, hheld⟩, -, -, -⟩ := h
  have hlength : 18 ≤ db.length := by
    have hsize : 1 ≤ (U.state p).size := by
      rw [Uploads.state, History.state_size hpos]
      exact Nat.one_le_iff_ne_zero.mpr fun hzero =>
        (U.file p).commit_ne_zero (UInt32.toNat_inj.mp hzero)
    have hge := U.pageSize_ge
    rw [hheld.length rfl]
    calc 18 ≤ 1 * 512 := by decide
      _ ≤ (U.state p).size * U.pageSize.toNat := Nat.mul_le_mul hsize hge
  have hread : (Replica.readPageSize db).isSome = true := by
    rw [Replica.readPageSize, if_neg (by omega)]
    rfl
  obtain ⟨pageSize, hpageSize⟩ := Option.isSome_iff_exists.mp hread
  exact ⟨db, pageSize, hdb, hpageSize⟩

/-- A replica that holds a transaction goes over to the stream. -/
theorem HoldsAt.openSession (h : HoldsAt U n p s.site) (hn : n < 2 ^ 64 - 1) (hpos : 1 ≤ p)
    (b : Bucket) (before : Nat) : ∃ pageSize, s.openSession fopts (calmRound b) before
      = { s with phase := .streaming ⟨before, pageSize, p, before < p⟩ } := by
  obtain ⟨db, pageSize, hdb, hread⟩ := h.readPageSize hpos
  obtain ⟨⟨_, _, hheld⟩, htxid, -, -⟩ := h
  have hp : p < 2 ^ 64 := by
    have := hheld.bound
    omega
  refine ⟨pageSize, ?_⟩
  unfold Following.openSession
  rw [readTxidFile_line hp htxid, hdb]
  simp only [calmRound, Option.bind_some, hread]

/-- A round whose sync returns. -/
theorem followStep_calmRound {site : Site} {b : Bucket} {before : Nat} {result : SyncResult}
    (htop : s.phase = .round) (hbefore : readTxidFile s.site.disk = .ok before)
    (hsync : syncWith c opts (calmSync b) s.site = (.ok result, site))
    (hsite : HoldsAt U n p site) (hn : n < 2 ^ 64 - 1) (hpos : 1 ≤ p) :
    ∃ pageSize, followStep c opts fopts s (.round (calmRound b)) =
      { s with
        site, attempt := 0, restores := if result.restored then s.restores + 1 else s.restores,
        phase := .streaming ⟨before, pageSize, p, before < p⟩ } := by
  obtain ⟨pageSize, hopen⟩ :=
    @HoldsAt.openSession fopts _ _ _
    { s with
      site, attempt := 0, restores := if result.restored then s.restores + 1 else s.restores }
    hsite hn hpos b before
  have hgo : (calmRound b).cancelled = false := rfl
  have hsync' : syncWith c opts (calmRound b).sync s.site = (.ok result, site) := hsync
  refine ⟨pageSize, ?_⟩
  unfold followStep
  rw [htop]
  show s.round c opts fopts (calmRound b) = _
  unfold Following.round
  rw [hgo, if_neg Bool.false_ne_true, hbefore]
  dsimp only
  rw [hsync']
  exact hopen

/-- A gap ends a session. -/
theorem followStep_gap {session : StreamSession} {db : Bytes}
    (hphase : s.phase = .streaming session) (hdb : s.site.disk.db = some db)
    (hprogress : session.madeProgress = true) (next : Nat) :
    followStep c opts fopts s (.event (calmEvent (.ok (.gap next)) []))
      = { s with attempt := 0, phase := .round } := by
  obtain ⟨⟨⟨disk, txid⟩, reached, rooted⟩, attempt, phase, naps, restores⟩ := s
  obtain ⟨before, pageSize, position, madeProgress⟩ := session
  obtain rfl : disk = some db := hdb
  obtain rfl : madeProgress = true := hprogress
  obtain rfl : phase = .streaming ⟨before, pageSize, position, true⟩ := hphase
  rfl

end

/-- A sync applies the second file, the stream has a gap, and the follower is back at the top,
without a sleep. -/
theorem followSteps_ahead_gap :
    ∃ s, followSteps literalCodec ⟨.none, false, false⟩ ⟨true⟩ { site := firstSite }
        [.round (calmRound pairBucket), .event (calmEvent (.ok (.gap 4)) [])] = s ∧
      s.phase = .round ∧ s.naps = [] ∧
        ((∃ q, readTxidFile s.site.disk = .ok q ∧ 1 < q) ∨ 0 < s.restores) := by
  obtain ⟨site, hsync, hsite⟩ := firstSite_sync
  obtain ⟨db, hdb, -⟩ := hsite.db
  have hread : readTxidFile firstSite.disk = .ok 1 := readTxidFile_line (by decide) rfl
  obtain ⟨pageSize, hround⟩ :=
    @followStep_calmRound _ _ ⟨true⟩ _ _ _ { site := firstSite } _ _ _ _ rfl hread hsync
    hsite (by decide) (by decide)
  have hrun : followSteps literalCodec ⟨.none, false, false⟩ ⟨true⟩ { site := firstSite }
      [.round (calmRound pairBucket), .event (calmEvent (.ok (.gap 4)) [])] = { site := site } := by
    unfold followSteps
    rw [List.foldl_cons, hround, List.foldl_cons, List.foldl_nil]
    exact followStep_gap rfl hdb rfl 4
  have hfits : ∀ input ∈ [FollowInput.round (calmRound pairBucket),
      .event (calmEvent (.ok (.gap 4)) [])],
      input.Fits := by
    intro input hinput
    rcases List.mem_pair.mp hinput with rfl | rfl
    · intro i level x hx
      have hle := ((pairBucket_faithful.files level x hx).range).2.2
      omega
    · intro info htold
      cases htold
  have hahead := @followSteps_ahead literalCodec ⟨.none, false, false⟩ ⟨true⟩ { site := firstSite }
    _ rfl hread (calmRound pairBucket) [.event (calmEvent (.ok (.gap 4)) [])] hfits
    (by rw [hrun]) (by rw [hrun])
  rw [hrun] at hahead
  exact ⟨_, hrun, rfl, rfl, hahead⟩

end Liters
