import Liters.Http.Mount

/-! # The writer lease

The lease is checked before a write and recorded after it. Only accepted writes of writers that name
themselves move it, a rejected request leaves no trace, and a request without an id has nothing to
do with it. -/

namespace Liters

variable {opts : MountOptions}

/-! ## The check -/

/-- A writer without an id passes the lease rule whoever holds the lease. -/
theorem checkLease_anonymous {headers : Headers} (h : writerId headers = none) (s : MountState)
    (now : Nat) : checkLease opts s headers now = .ok none := by
  unfold checkLease
  rw [h]

/-- A passed lease rule claims the lease for the writer's id. -/
theorem claim_of_checkLease {s : MountState} {headers : Headers} {now : Nat} {claim : Option String}
    (h : checkLease opts s headers now = .ok claim) : claim = writerId headers := by
  unfold checkLease at h
  split at h
  · rename_i hid
    cases h
    exact hid.symm
  · rename_i id hid
    split at h
    · cases h
      exact hid.symm
    · split at h
      · cases h
        exact hid.symm
      · cases h

/-- A writer that passes the lease rule without takeover finds the lease free, its own, or old. -/
theorem free_of_checkLease {s : MountState} {headers : Headers} {now : Nat} {claim : Option String}
    {id : String} (h : checkLease opts s headers now = .ok claim) (hid : writerId headers = some id)
    (htake : takeover headers = false) (l : WriterLease) (hl : s.lease = some l) :
    l.id = id ∨ opts.leaseTtl ≤ now - l.lastSeen := by
  by_contra hheld
  rw [not_or, Nat.not_le] at hheld
  have hother : heldByOther opts s.lease id now = some l := by
    rw [hl, heldByOther, Option.filter_some, if_pos (by simpa using hheld)]
  unfold checkLease at h
  rw [hid] at h
  simp only [hother, htake, Bool.false_eq_true, if_false] at h
  cases h

/-- A passed fence has passed the lease rule. -/
theorem checkLease_of_checkFence {s : MountState} {headers : Headers} {put : Option Offer}
    {now : Nat} {listed : Except String Unit} {pass : FencePass}
    (h : checkFence opts s headers put now listed = .ok pass) :
    checkLease opts s headers now = .ok pass.claim := by
  unfold checkFence at h
  cases hc : checkLease opts s headers now with
  | error e => rw [hc] at h; cases h
  | ok claim =>
      rw [hc] at h
      cases put with
      | none => cases h; rfl
      | some o =>
          simp only [bind, Except.bind] at h
          cases hm : checkMonotonic s.bucket o listed with
          | error e => rw [hm] at h; cases h
          | ok existing => rw [hm] at h; cases h; rfl

/-- The fence looks at the lease only for a writer that names itself. -/
theorem checkFence_anonymous {headers : Headers} (h : writerId headers = none) (s : MountState)
    (lease : Option WriterLease) (put : Option Offer) (now : Nat) (listed : Except String Unit) :
    checkFence opts { s with lease } headers put now listed
      = checkFence opts s headers put now listed := by
  unfold checkFence
  rw [checkLease_anonymous h, checkLease_anonymous h]

/-! ## Accepted and rejected requests -/

/-- The lease after an accepted write that claims it. -/
def claimed (lease : Option WriterLease) (claim : Option String) (now : Nat) : Option WriterLease :=
  match claim with
  | some id => some ⟨id, now⟩
  | none => lease

/-- Committing a claim changes the lease as `claimed` says. -/
theorem commitLease_lease (s : MountState) (pass : FencePass) (now : Nat) :
    (commitLease s pass now).lease = claimed s.lease pass.claim now := by
  unfold commitLease claimed
  split <;> simp_all

/-- A step that leaves the bucket, the lease and the generation alone. -/
structure Traceless (s s' : MountState) : Prop where
  bucket : s'.bucket = s.bucket
  lease : s'.lease = s.lease
  generation : s'.generation = s.generation

/-- A backend call that fails changes no file. -/
def Surroundings.Clean (env : Surroundings) : Prop :=
  ∀ part msg, env.backend = .failed part msg → ∀ level key, part level key = false

/-- The events in which failing backend calls change nothing. -/
def CleanEvent : Serving → ServerEvent → Prop
  | _, .arrive _ _ _ _ => True
  | _, .proceed _ env => env.Clean

/-- What an accepted write has behind it and what a rejected one leaves. -/
def Judged (opts : MountOptions) (s : MountState) (env : Surroundings) (headers : Headers)
    (r : MountState × Outcome) : Prop :=
  (r.2.status = some 200 ∧ r.1.lease = claimed s.lease (writerId headers) env.commitAt ∧
      checkLease opts s headers env.fenceAt = .ok (writerId headers)) ∨
    (r.2.status ≠ some 200 ∧ Traceless s r.1)

/-- A mutation behind a passed fence. -/
theorem mutate_judged {s : MountState} {env : Surroundings} {headers : Headers} {put : Option Offer}
    {pass : FencePass} {full : Bucket → Bucket}
    {partly : (Nat → Nat × Nat → Bool) → Bucket → Bucket} {ok context : String}
    (hfence : checkFence opts s headers put env.fenceAt env.listed = .ok pass)
    (hclean : ∀ part msg, env.backend = .failed part msg → partly part s.bucket = s.bucket) :
    Judged opts s env headers (mutate s pass env full partly ok context) := by
  have hlease := checkLease_of_checkFence hfence
  have hclaim := claim_of_checkLease hlease
  unfold mutate
  split
  · refine .inl ⟨rfl, ?_, hclaim ▸ hlease⟩
    show (commitLease _ pass env.commitAt).lease = _
    rw [commitLease_lease, hclaim]
  · rename_i part msg hfailed
    refine .inr ⟨by simp [Outcome.status, Response.error], ?_, rfl, rfl⟩
    exact hclean part msg hfailed

/-- A request is accepted under the lease rule, or it leaves no trace. -/
theorem complete_judged (opts : MountOptions) (s : MountState) {env : Surroundings}
    (hclean : env.Clean) (job : Job) :
    Judged opts s env job.headers (complete opts s env job) := by
  -- a single-file mutation that fails was not made
  have hnot : ∀ level key m part msg, env.backend = .failed part msg →
      madeOrNot part level key m s.bucket = s.bucket := by
    intro level key m part msg hfailed
    unfold madeOrNot
    rw [hclean part msg hfailed, if_neg Bool.false_ne_true]
  have hjob := completed opts s env job
  generalize complete opts s env job = r at hjob ⊢
  cases hjob with
  | rejected h => exact .inr ⟨by simpa [Outcome.status] using h, rfl, rfl, rfl⟩
  | gateLost h => exact .inr ⟨by simp [Outcome.status], rfl, rfl, rfl⟩
  | overflowed h => exact .inr ⟨by simp [Outcome.status], rfl, rfl, rfl⟩
  | stored hgate hfence hsame hhdr => exact mutate_judged hfence (hnot _ _ _)
  | deleted hfence => exact mutate_judged hfence (hnot _ _ _)
  | wiped hfence =>
      refine mutate_judged hfence fun part msg hfailed => ?_
      funext level
      exact List.filter_eq_self.mpr fun f _ => by simp [hclean part msg hfailed]

/-! ## Requests without an id -/

/-- The early checks of a request without an id do not depend on the lease. -/
theorem receive_anonymous (v : View) {r : Request} (h : writerId r.headers = none) (spool : Spool)
    (answer : Response) (lease : Option WriterLease) :
    receive opts { v with state := { v.state with lease } } r spool answer
      = receive opts v r spool answer := by
  unfold receive
  simp only [checkFence_anonymous h]

/-- The same outcome over another lease. -/
def withLease (lease : Option WriterLease) (r : MountState × Outcome) : MountState × Outcome :=
  ({ r.1 with lease }, r.2)

/-- A mutation without a claim carries any lease along. -/
theorem mutate_anonymous {s : MountState} {pass : FencePass} (h : pass.claim = none)
    (env : Surroundings) (full : Bucket → Bucket)
    (partly : (Nat → Nat × Nat → Bool) → Bucket → Bucket) (ok context : String)
    (lease : Option WriterLease) :
    mutate { s with lease } pass env full partly ok context
      = withLease lease (mutate s pass env full partly ok context) := by
  unfold mutate
  cases env.backend with
  | done =>
      unfold commitLease
      rw [h]
      rfl
  | failed part msg => rfl

/-- A spooled PUT without a claim carries any lease along. -/
theorem acceptFile_anonymous {s : MountState} {pass : FencePass} (h : pass.claim = none)
    (env : Surroundings) (o : Offer) (body : Bytes) (lease : Option WriterLease) :
    acceptFile { s with lease } pass env o body =
      withLease lease (acceptFile s pass env o body) := by
  unfold acceptFile writeLtxFile
  cases sameBody pass env body with
  | error msg => rfl
  | ok same =>
      cases same with
      | false => rfl
      | true =>
          cases env.rewound with
          | error msg => rfl
          | ok _ =>
              show (if _ then _ else _) = withLease lease (if _ then _ else _)
              split
              · rfl
              · cases Header.decode (body.take headerSize) with
                | error e => rfl
                | ok hdr => exact mutate_anonymous h _ _ _ _ _ _

/-- Behind the gate nothing of a request without an id depends on the lease. -/
theorem gated_anonymous {s : MountState} {headers : Headers} (h : writerId headers = none)
    (put : Option Offer) (env : Surroundings) (lease : Option WriterLease)
    {act act' : FencePass → MountState × Outcome}
    (hact : ∀ pass, pass.claim = none → act' pass = withLease lease (act pass)) :
    gated opts { s with lease } headers put env act'
      = withLease lease (gated opts s headers put env act) := by
  unfold gated
  rw [checkFence_anonymous h]
  by_cases hp : s.poisoned = true
  · rw [if_pos hp, if_pos hp]
    rfl
  · rw [if_neg hp, if_neg hp]
    cases hf : checkFence opts s headers put env.fenceAt env.listed with
    | error reject => cases reject <;> rfl
    | ok pass => exact hact pass ((claim_of_checkLease (checkLease_of_checkFence hf)).trans h)

/-- A request without an id is answered the same way under any lease and leaves the lease as it
is. -/
theorem complete_anonymous (opts : MountOptions) (s : MountState) (env : Surroundings) {job : Job}
    (h : writerId job.headers = none) (lease : Option WriterLease) :
    complete opts { s with lease } env job = withLease lease (complete opts s env job) := by
  cases job with
  | put o headers spool =>
      cases spool with
      | truncated msg => rfl
      | failed msg => rfl
      | received body =>
          exact gated_anonymous h _ _ _ fun pass hp => acceptFile_anonymous hp _ _ _ _
  | delete level minTxid maxTxid headers =>
      exact gated_anonymous h _ _ _ fun pass hp => mutate_anonymous hp _ _ _ _ _ _
  | deleteAll headers =>
      exact gated_anonymous h _ _ _ fun pass hp => mutate_anonymous hp _ _ _ _ _ _

/-! ## Whole runs -/

/-- The lease that the accepted writes leave. -/
def lastAccepted (accepted : List (String × Nat)) : Option WriterLease :=
  accepted.head?.map fun a => ⟨a.1, a.2⟩

/-- Noting an accepted write moves the lease as the mount does. -/
theorem lastAccepted_noteAccepted {job : Job} {o : Outcome} {now : Nat}
    {accepted : List (String × Nat)} (h : o.status = some 200) :
    lastAccepted (noteAccepted job o now accepted)
      = claimed (lastAccepted accepted) (writerId job.headers) now := by
  unfold noteAccepted claimed
  rw [if_pos h]
  cases writerId job.headers with
  | none => rfl
  | some id => rfl

/-- Whoever wrote last with an id holds the lease. -/
theorem ServingRun.lease_eq {m : MountState} {s : Serving}
    (hr : ServingRun opts CleanEvent (opened m) s) (hm : m.lease = none) :
    s.state.lease = lastAccepted s.accepted := by
  induction hr with
  | refl => exact hm
  | @step s hr e he ih =>
      cases e with
      | arrive v r spool answer =>
          unfold serve
          dsimp only
          split <;> exact ih
      | proceed i env =>
          unfold serve
          dsimp only
          split
          · exact ih
          · rename_i job hjob
            show (complete opts s.state env job).1.lease = lastAccepted (noteAccepted _ _ _ _)
            obtain ⟨hok, hlease, -⟩ | ⟨hbad, htrace⟩ := complete_judged opts s.state he job
            · rw [hlease, lastAccepted_noteAccepted hok, ih]
            · rw [htrace.lease, ih]
              unfold noteAccepted
              rw [if_neg hbad]

/-- What the lease promises of one event. -/
structure LeaseRules (opts : MountOptions) (s : Serving) (e : ServerEvent) : Prop where
  /-- The last accepted write with an id holds the lease, before the event and after it. -/
  before : s.state.lease = lastAccepted s.accepted
  after : (serve opts s e).1.state.lease = lastAccepted (serve opts s e).1.accepted
  /-- Without takeover a write needs a lease that is free, its own, or old. -/
  accepted : ∀ i env job id, e = .proceed i env → s.waiting[i]? = some job →
    (serve opts s e).2.bind Outcome.status = some 200 → writerId job.headers = some id →
    takeover job.headers = false →
      s.accepted = [] ∨ ∃ holder time earlier, s.accepted = (holder, time) :: earlier ∧
        (holder = id ∨ opts.leaseTtl ≤ env.fenceAt - time)
  /-- A request that is not answered 200 leaves no trace. -/
  rejected : ∀ o, (serve opts s e).2 = some o → o.status ≠ some 200 →
    Traceless s.state (serve opts s e).1.state
  /-- A request without an id does not depend on the lease and does not move it. -/
  anonymousEarly : ∀ v r spool answer, e = .arrive v r spool answer → writerId r.headers = none →
    (serve opts s e).1.state = s.state ∧ ∀ lease,
      receive opts { v with state := { v.state with lease } } r spool answer
        = receive opts v r spool answer
  anonymous : ∀ i env job, e = .proceed i env → s.waiting[i]? = some job →
    writerId job.headers = none → (serve opts s e).1.state.lease = s.state.lease ∧ ∀ lease,
      complete opts { s.state with lease } env job = withLease lease (complete opts s.state env job)

/-- In every run of a mount whose failing backend calls change nothing, the lease follows the
accepted writes. -/
theorem servingRun_leaseRules {m : MountState} (hm : m.lease = none) {s : Serving}
    (hr : ServingRun opts CleanEvent (opened m) s) (e : ServerEvent) (he : CleanEvent s e) :
    LeaseRules opts s e where
  before := hr.lease_eq hm
  after := (hr.step e he).lease_eq hm
  accepted := by
    intro i env job id hproceed hjob hok hid htake
    subst hproceed
    rw [(serve_proceed opts hjob env).2, Option.bind_some] at hok
    obtain ⟨-, -, hfence⟩ | ⟨hbad, -⟩ := complete_judged opts s.state he job
    · have hlease := hr.lease_eq hm
      cases hacc : s.accepted with
      | nil => exact .inl rfl
      | cons a earlier =>
          rw [hacc] at hlease
          exact .inr ⟨a.1, a.2, earlier, rfl, free_of_checkLease hfence hid htake ⟨a.1, a.2⟩ hlease⟩
    · exact absurd hok hbad
  rejected := by
    intro o ho hbad
    cases e with
    | arrive v r spool answer =>
        rw [serve_arrive_state]
        exact ⟨rfl, rfl, rfl⟩
    | proceed i env =>
        cases hjob : s.waiting[i]? with
        | none =>
            rw [serve_proceed_none hjob] at ho
            cases ho
        | some job =>
            rw [(serve_proceed opts hjob env).2] at ho
            rw [(serve_proceed opts hjob env).1]
            obtain ⟨hok, -⟩ | ⟨-, htrace⟩ := complete_judged opts s.state he job
            · exact absurd (Option.some.inj ho ▸ hok) hbad
            · exact htrace
  anonymousEarly := by
    intro v r spool answer harrive hid
    subst harrive
    exact ⟨serve_arrive_state s v r spool answer, receive_anonymous v hid spool answer⟩
  anonymous := by
    intro i env job hproceed hjob hid
    subst hproceed
    refine ⟨?_, complete_anonymous opts s.state env hid⟩
    rw [(serve_proceed opts hjob env).1]
    have hsame := complete_anonymous opts s.state env hid s.state.lease
    exact congrArg (fun r : MountState × Outcome => r.1.lease) hsame

/-- A writable mount whose leases last ten nanoseconds. -/
def briefLease : MountOptions := { writable := true, leaseTtl := 10 }

/-- A writer deletes a file. -/
def deletion (id : String) : Request where
  method := "DELETE"
  path := "/ltx/0/0000000000000001-0000000000000001.ltx"
  headers := [("x-liters-writer-id", id)]

/-- Everything goes well. -/
def calmAt (now : Nat) : Surroundings := ⟨now, .ok (), .ok (), .ok (), .done, now⟩

/-- A mount where writer `a` deleted a file at time 1 and writer `b` waits to delete it. -/
def afterFirst : Serving :=
  let v : View := ⟨⟨Bucket.empty, none, 0, false⟩, 0, .ok ()⟩
  let arrive (id : String) : ServerEvent := .arrive v (deletion id) (.received []) ⟨200, ""⟩
  let s₁ := (serve briefLease (opened v.state) (arrive "a")).1
  let s₂ := (serve briefLease s₁ (.proceed 0 (calmAt 1))).1
  (serve briefLease s₂ (arrive "b")).1

/-- Ten nanoseconds after the write of `a` the delete of `b` is accepted, under the rules. -/
theorem servingRun_leaseRules_expired :
    LeaseRules briefLease afterFirst (.proceed 0 (calmAt 11)) ∧
      afterFirst.accepted = [("a", 1)] ∧
      (serve briefLease afterFirst (.proceed 0 (calmAt 11))).2 =
        some (.answered ⟨200, "deleted\n"⟩) ∧
      (serve briefLease afterFirst (.proceed 0 (calmAt 10))).2
        = some (.answered ⟨409, "bucket is owned by writer a\n"⟩) := by
  have hclean : ∀ now, (calmAt now).Clean := fun now part msg h => by cases h
  refine ⟨servingRun_leaseRules (m := ⟨Bucket.empty, none, 0, false⟩) rfl ?_ _ (hclean 11),
    by decide, by decide, by decide⟩
  exact ((ServingRun.refl.step _ trivial).step _ (hclean 1)).step _ trivial

end Liters
