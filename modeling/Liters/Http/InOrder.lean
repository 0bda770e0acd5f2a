import Liters.Http.Fence

/-! # Requests that a mount does not refuse

The fence of a mount lets a level-0 file through if it goes right behind the newest one, and a file
of a higher level if it ends within the bucket. Such a file is not refused, nor is the same file
when it is sent once more, to a mount whose lease is the writer's own or nobody's. -/

namespace Liters

/-! ## Requests in order -/

/-- A request of a bucket's only writer: a level-0 file right behind the newest one, a file of a
higher level that ends within the bucket, or a DELETE that spares the newest level-0 file. -/
def InOrder (b : Bucket) : Mutation → Prop
  | .put level s => if level = 0 then s.minTxid = maxOf (b 0) + 1 ∧ s.maxTxid = s.minTxid
      else level ≤ snapshotLevel ∧ s.maxTxid ≤ bucketMax b
  | .delete level _ maxTxid => level = 0 → maxTxid ≠ maxOf (b 0)

/-- What a mount makes of a request. -/
def Mutation.job (headers : Headers) : Mutation → Job
  | .put level s => .put ⟨level, s.minTxid, s.maxTxid⟩ headers (.received s.body)
  | .delete level minTxid maxTxid => .delete level minTxid maxTxid headers

/-- The target of a PUT. -/
def Mutation.offer : Mutation → Option Offer
  | .put level s => some ⟨level, s.minTxid, s.maxTxid⟩
  | .delete _ _ _ => none

/-- The lease, if somebody holds it, is the writer's own. -/
def MountState.OwnLease (st : MountState) (headers : Headers) : Prop :=
  ∀ l id, st.lease = some l → writerId headers = some id → l.id = id

/-- A mount with the bucket `b` does not refuse a request: not with the early check of its fence,
and not behind the write gate. -/
structure Welcome (b : Bucket) (m : Mutation) : Prop where
  fence : ∀ opts (st : MountState) headers now listed msg, st.bucket = b → st.OwnLease headers →
    checkFence opts st headers m.offer now listed ≠ .error (.conflict msg)
  answer : ∀ opts (st : MountState) headers env, st.bucket = b → st.OwnLease headers →
    (complete opts st env (m.job headers)).2.status ≠ some 409

/-! ## The fence -/

/-- The lease check lets its own holder pass. -/
theorem checkLease_of_ownLease {opts : MountOptions} {st : MountState} {headers : Headers}
    (h : st.OwnLease headers) (now : Nat) :
    ∃ claim, checkLease opts st headers now = .ok claim := by
  unfold checkLease
  cases hid : writerId headers with
  | none => exact ⟨_, rfl⟩
  | some id =>
      have hheld : heldByOther opts st.lease id now = none := by
        unfold heldByOther
        cases hl : st.lease with
        | none => rfl
        | some l =>
            have hown := h l id hl hid
            simp [Option.filter, hown]
      dsimp only
      rw [hheld]
      exact ⟨_, rfl⟩

/-- What a mount must not find wrong with a file: it continues level 0, it is a stored file of the
same bytes, or it ends within the bucket. -/
def Agreeable (b : Bucket) (level : Nat) (s : Stored) : Prop :=
  if level = 0 then s.minTxid = maxOf (b 0) + 1 ∧ s.maxTxid = s.minTxid ∨
    ∃ x, ((b 0).find? fun f => f.key = (s.minTxid, s.maxTxid)) = some x ∧ x.body = s.body
  else s.maxTxid ≤ bucketMax b

/-- The monotonic rules let an agreeable put pass, and find the same file if any. -/
theorem checkMonotonic_of_agreeable {b : Bucket} {level : Nat} {s : Stored}
    (h : Agreeable b level s) (listed : Except String Unit) :
    (∀ msg, checkMonotonic b ⟨level, s.minTxid, s.maxTxid⟩ listed ≠ .error (.conflict msg)) ∧
      ∀ existing x, checkMonotonic b ⟨level, s.minTxid, s.maxTxid⟩ listed = .ok existing →
        existing = some x →
        x.body = s.body := by
  unfold Agreeable at h
  unfold checkMonotonic
  cases listed with
  | error msg => exact ⟨fun _ heq => (by cases heq), fun _ _ heq => (by cases heq)⟩
  | ok _ =>
      dsimp only
      by_cases hlevel : level = 0
      · rw [if_pos hlevel] at h
        rw [if_pos hlevel]
        rcases h with ⟨hmin, hmax⟩ | ⟨x, hfind, hbody⟩
        · -- no stored file reaches this far
          have hnone : ((b 0).find? fun f => f.key = (s.minTxid, s.maxTxid)) = none := by
            refine List.find?_eq_none.mpr fun f hf => ?_
            have hle := le_maxOf hf
            simp only [Stored.key, Prod.mk.injEq, decide_eq_true_eq, not_and]
            omega
          rw [hnone]
          dsimp only
          split
          · exact ⟨fun _ heq => (by cases heq), fun _ _ heq hx => by cases heq; cases hx⟩
          · split
            · exact ⟨fun _ heq => (by cases heq), fun _ _ heq => (by cases heq)⟩
            · exact ⟨fun _ heq => (by cases heq), fun _ _ heq hx => by cases heq; cases hx⟩
        · -- the key is stored already, with this body
          rw [hfind]
          refine ⟨fun _ heq => (by cases heq), fun _ y heq hy => ?_⟩
          cases heq
          cases hy
          exact hbody
      · -- behind the end of a level above 0 every range is accepted
        rw [if_neg hlevel] at h
        rw [if_neg hlevel, if_neg (Nat.not_lt.mpr h)]
        exact ⟨fun _ heq => (by cases heq), fun _ _ heq hx => by cases heq; cases hx⟩

/-- An agreeable file is not refused, and a stored one of its name has its bytes. -/
theorem checkFence_of_agreeable {opts : MountOptions} {st : MountState} {headers : Headers}
    {level : Nat} {s : Stored} (h : Agreeable st.bucket level s) (hown : st.OwnLease headers)
    (now : Nat) (listed : Except String Unit) :
    (∀ msg, checkFence opts st headers (some ⟨level, s.minTxid, s.maxTxid⟩) now listed ≠
      .error (.conflict msg)) ∧
      ∀ pass x, checkFence opts st headers (some ⟨level, s.minTxid, s.maxTxid⟩) now listed =
        .ok pass →
        pass.existingL0 = some x → x.body = s.body := by
  obtain ⟨claim, hclaim⟩ := @checkLease_of_ownLease opts _ _ hown now
  obtain ⟨hconflict, hexisting⟩ := checkMonotonic_of_agreeable h listed
  unfold checkFence
  rw [hclaim]
  simp only [bind, Except.bind]
  cases hm : checkMonotonic st.bucket ⟨level, s.minTxid, s.maxTxid⟩ listed with
  | error reject =>
      refine ⟨fun msg heq => ?_, fun _ _ heq => (by cases heq)⟩
      cases heq
      exact hconflict msg hm
  | ok existing =>
      refine ⟨fun _ heq => (by cases heq), fun pass x heq hx => ?_⟩
      cases heq
      exact hexisting existing x hm hx

/-- A mutation is answered 200 or 500. -/
theorem mutate_status_ne (st : MountState) (pass : FencePass) (env : Surroundings)
    (full : Bucket → Bucket) (partly : (Nat → Nat × Nat → Bool) → Bucket → Bucket)
    (ok context : String) :
    (mutate st pass env full partly ok context).2.status ≠ some 409 := by
  unfold mutate
  split
  · simp [Outcome.status]
  · simp [Outcome.status, Response.error]

/-- Behind the gate a request is refused by the fence only, or by what it does there. -/
theorem gated_status_ne {opts : MountOptions} {st : MountState} {headers : Headers}
    {put : Option Offer} {env : Surroundings} {act : FencePass → MountState × Outcome}
    (hfence : ∀ msg, checkFence opts st headers put env.fenceAt env.listed ≠ .error (.conflict msg))
    (hact : ∀ pass, checkFence opts st headers put env.fenceAt env.listed = .ok pass →
      (act pass).2.status ≠ some 409) :
      (gated opts st headers put env act).2.status ≠ some 409 := by
  unfold gated
  split
  · simp [Outcome.status]
  · split
    · simp [Outcome.status]
    · rename_i reject hne heq
      cases reject with
      | conflict msg => exact absurd heq (hfence msg)
      | backend msg => simp [FenceReject.outcome, Outcome.status, Response.error]
      | panic => exact absurd rfl hne
    · rename_i pass heq
      exact hact pass heq

/-- A file that agrees with the stored one of its name is not refused behind the gate. -/
theorem acceptFile_status_ne {st : MountState} {pass : FencePass} {env : Surroundings} {o : Offer}
    {body : Bytes} (h : ∀ x, pass.existingL0 = some x → x.body = body) :
    (acceptFile st pass env o body).2.status ≠ some 409 := by
  have hsame : sameBody pass env body ≠ .ok false := by
    unfold sameBody
    cases hx : pass.existingL0 with
    | none => simp
    | some x =>
        dsimp only
        rw [h x hx, if_pos rfl]
        cases env.compared with
        | error msg => simp
        | ok _ => simp
  unfold acceptFile
  split
  · simp [Outcome.status, Response.error]
  · rename_i hfalse
    exact absurd hfalse hsame
  · split
    · simp [Outcome.status, Response.error]
    · unfold writeLtxFile
      split
      · simp [Outcome.status, Response.error]
      · split
        · simp [Outcome.status, Response.error]
        · exact mutate_status_ne _ _ _ _ _ _ _

/-- An agreeable put is welcome. -/
theorem welcome_put {b : Bucket} {level : Nat} {s : Stored} (h : Agreeable b level s) :
    Welcome b (.put level s) where
  fence opts st headers now listed msg hb hown := by
    subst hb
    exact (checkFence_of_agreeable h hown now listed).1 msg
  answer opts st headers env hb hown := by
    subst hb
    obtain ⟨hconflict, hexisting⟩ :=
      @checkFence_of_agreeable opts _ _ _ _ h hown env.fenceAt env.listed
    exact gated_status_ne hconflict fun pass hpass => acceptFile_status_ne fun x hx =>
      hexisting pass x hpass hx

/-- A delete is welcome. -/
theorem welcome_delete (b : Bucket) (level minTxid maxTxid : Nat) :
    Welcome b (.delete level minTxid maxTxid) := by
  have hfence : ∀ opts (st : MountState) headers now listed msg, st.OwnLease headers →
      checkFence opts st headers none now listed ≠ .error (.conflict msg) := by
    intro opts st headers now listed msg hown heq
    obtain ⟨claim, hclaim⟩ := @checkLease_of_ownLease opts _ _ hown now
    unfold checkFence at heq
    rw [hclaim] at heq
    cases heq
  refine ⟨fun opts st headers now listed msg _ hown => hfence _ _ _ _ _ _ hown,
    fun opts st headers env _ hown => ?_⟩
  exact gated_status_ne (fun msg => hfence _ _ _ _ _ _ hown) fun pass _ =>
    mutate_status_ne _ _ _ _ _ _ _

/-- A new file is found under its name. -/
theorem find?_insertFile {s : Stored} {files : List Stored}
    (h : ∀ f ∈ files, f.key ≠ (s.minTxid, s.maxTxid)) :
    ((Bucket.insertFile s files).find? fun f => f.key = (s.minTxid, s.maxTxid)) = some s := by
  induction files with
  | nil => simp [Bucket.insertFile, Stored.key]
  | cons z files ih =>
      have hz := h z (List.mem_cons_self ..)
      have hkey : ¬ s.key = z.key := fun heq => hz heq.symm
      rw [Bucket.insertFile, if_neg hkey]
      split
      · simp [Stored.key]
      · rw [List.find?_cons_of_neg (by simpa using hz)]
        exact ih fun f hf => h f (List.mem_cons_of_mem _ hf)

/-- A request in order is welcome, and so is the same request once more. -/
theorem InOrder.welcome {b : Bucket} {m : Mutation} (h : InOrder b m) :
    Welcome b m ∧ Welcome (b.act m) m := by
  cases m with
  -- a DELETE is never refused by the fence
  | delete level minTxid maxTxid => exact ⟨welcome_delete _ _ _ _, welcome_delete _ _ _ _⟩
  | put level s =>
      unfold InOrder at h
      dsimp only at h
      by_cases hlevel : level = 0
      · rw [if_pos hlevel] at h
        refine ⟨welcome_put ?_, welcome_put ?_⟩
        · unfold Agreeable
          rw [if_pos hlevel]
          exact .inl h
        · -- the stored file is found under its name
          unfold Agreeable
          rw [if_pos hlevel]
          refine .inr ⟨s, ?_, rfl⟩
          subst hlevel
          have hbefore : ∀ f ∈ b 0, f.key ≠ (s.minTxid, s.maxTxid) := by
            intro f hf hkey
            have hle := le_maxOf hf
            rw [Stored.key, Prod.mk.injEq] at hkey
            omega
          rw [act_put_same]
          exact find?_insertFile hbefore
      · -- above level 0 only the end of the level counts
        rw [if_neg hlevel] at h
        refine ⟨welcome_put ?_, welcome_put ?_⟩
        · unfold Agreeable
          rw [if_neg hlevel]
          exact h.2
        · unfold Agreeable
          rw [if_neg hlevel]
          refine le_bucketMax h.1 (f := s) ?_
          rw [act_put_same]
          exact (@Bucket.mem_insertFile s s (b level)).2.2

end Liters
