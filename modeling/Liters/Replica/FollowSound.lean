import Liters.Replica.FollowPace
import Liters.Replica.Interrupted

/-! # Followers show one history

A follower whose syncs are careful and whose stream tells files of the history: at the top of the
loop the position file claims no more than what the image holds, and while a session waits for its
next event the image is the writer's database at its position, pages of a file that could not be
applied included in neither (`Followed.ok`). -/

namespace Liters

variable {c : Codec} {U : Uploads} {n p : Nat} {opts : ReplicaOptions} {fopts : FollowOptions}

/-! ## Syncs that return -/

/-- A replica that holds its position is sound. -/
theorem HoldsAt.sound {site : Site} (h : HoldsAt U n p site) (hn : n < 2 ^ 64 - 1) :
    Sound U n site := by
  obtain ⟨⟨db, hdb, hheld⟩, htxid, hreached, -⟩ := h
  refine .inr ⟨p, htxid, lt_of_le_of_lt hheld.bound hn, fun db' hdb' _ => ?_⟩
  obtain rfl : db = db' := Option.some.inj (hdb.symm.trans hdb')
  rw [hreached]
  exact hheld

/-- A mended follower holds its position's state. -/
theorem Replica.Mended.holdsAt {r : Nat} {f : Follower} (h : Mended U n r f) :
    HoldsAt U n r f.site where
  db := ⟨f.db, rfl, h.held⟩
  txid := h.txid
  reached := h.reached
  rooted := h.rooted

/-- The image of a restore that returned. -/
theorem RestoreOutcome.holdsAt {renv : RestoreEnv} {s site : Site} {result : SyncResult}
    (hres : RestoreOutcome c opts renv p s (.ok result, site)) (hc : c.Lawful) (hn : n < 2 ^ 64 - 1)
    (hb : ∀ q, Faithful c U n (renv.bucket q)) : HoldsAt U n result.toTxid site := by
  cases hres with
  | returned hprep => exact ⟨⟨_, rfl, held_of_prepare hc hn hb hprep⟩, rfl, rfl, rfl⟩

/-- **A careful sync that returns** leaves a replica that holds its position. -/
theorem Sound.sync_holdsAt {env : SyncEnv} {s site : Site} (h : Sound U n s) (hc : c.Lawful)
    (hn : n < 2 ^ 64 - 1) (hof : env.Of c U n) (hcare : Careful c U opts env s)
    {result : SyncResult}
    (hsync : syncWith c opts env s = (.ok result, site)) : HoldsAt U n result.toTxid site := by
  have houtcome := syncWith_outcome c opts env s
  rw [hsync] at houtcome
  cases houtcome with
  | fresh hres hpos => exact hres.holdsAt hc hn hof.restore
  | restored hdb hpos hread hrun hdiv hres => exact hres.holdsAt hc hn hof.restore
  | @returned db fromTxid toTxid f hdb hpos hread hrun =>
      -- a site without database, or one with the image of its label
      rcases h with hnone | ⟨q, hlabel, hq, hheld⟩
      · rw [readTxidFile, hnone] at hread
        cases hread
        cases hpos
      · obtain rfl := eq_of_readTxidFile hlabel hq hread
        have hspec : Spec (Replica.incrementalSync env c opts q)
            ⟨db, s.disk.txid, 0, s.reached, s.rooted⟩
            (fun r s' => Replica.Mended U n r s') (fun _ s' => ∃ p, Replica.Stopped U n q
              ⟨db, s.disk.txid, 0, s.reached, s.rooted⟩ p s') := by
          -- an image of this bucket's uploads, or one of other files
          cases hrooted : s.rooted with
          | true =>
              exact Replica.incrementalSync_mended hc hn hof.moments hq rfl rfl hlabel
                (hheld db hdb hrooted)
                (hcare.mends hrooted q (by rw [hdb]; exact Option.some_ne_none db) hlabel)
          | false =>
              exact Replica.incrementalSync_foreign hc hn hof.moments hq rfl rfl hlabel
                (hcare.foreign hrooted q db hdb hlabel)
        rw [Spec, hrun] at hspec
        exact hspec.holdsAt

/-! ## Events -/

/-- What an event brings is a file of the history, with the range that its line says. -/
def EventEnv.Genuine (c : Codec) (U : Uploads) (n : Nat) (env : EventEnv) : Prop :=
  ∀ info, env.told = .ok (.ltx info) → ∃ f : LtxFile, env.spool = f.bytes c ∧ FileOk U n f ∧
    f.hdr.minTxid.toNat = info.minTxid ∧ f.hdr.maxTxid.toNat = info.maxTxid

namespace Replica

/-- Applying a frame that continues the position: in full, or left to the next sync. -/
theorem appliesSpooled_spec (hc : c.Lawful) (hn : n < 2 ^ 64 - 1) {env : SyncEnv} {f : LtxFile}
    (hf : FileOk U n f) {body : Bytes} (hbody : body = f.bytes c)
    (hat : f.hdr.minTxid.toNat ≤ p + 1) (hlt : p < f.hdr.maxTxid.toNat)
    (pageSize : Nat) {s : Follower} (hrooted : s.rooted = true)
    (hheld : Held U n p s.reached s.db) :
    Spec (appliesSpooled env c opts pageSize body) s
      (fun applied s' => if applied then Applied U n f.hdr.maxTxid.toNat s s'
        else Missed U n p s s')
      (fun _ s' => Missed U n p s s') := by
  have hrun : Spec (do applySpooled env c opts pageSize body; pure true) s
      (fun applied s' => if applied then Applied U n f.hdr.maxTxid.toNat s s'
        else Missed U n p s s')
      (fun _ s' => Missed U n p s s') := by
    refine (applySpooled_spec hc hn hf hbody hat hlt pageSize (fun _ => hheld) ?_).bind fun _ s'
      happlied => ?_
    · exact fun hno => absurd (hrooted.symm.trans hno) Bool.true_eq_false.mp
    · exact happlied
  refine hrun.tryCatch fun halt s' hmissed => ?_
  split
  · exact hmissed
  · exact hmissed
  · exact hmissed
  · exact hmissed
  · exact hmissed

/-- A replica that missed a frame is where it was, but for pages of the frame. -/
theorem Missed.sound {s s' : Follower} (h : Missed U n p s s') (hp : p < 2 ^ 64 - 1)
    (hrooted : s.rooted = true) (htxid : s.txid = some (txidLine p)) : Sound U n s'.site := by
  refine .inr ⟨p, h.txid.trans htxid, hp, fun db hdb _ => ?_⟩
  obtain rfl : s'.db = db := Option.some.inj hdb
  exact h.held hrooted

/-- The position is written down behind a frame that was applied. -/
theorem advanceTxidFile_holdsAt (hn : n < 2 ^ 64 - 1) (hp : p < 2 ^ 64 - 1) {env : SyncEnv}
    {t b : Nat} {s : Follower} (hle : p ≤ t) (htxid : s.txid = some (txidLine p))
    (hheld : Held U n t t s.db) (hreached : s.reached = t)
    (hrooted : s.rooted = true) (hb : t = b) :
    Spec (advanceTxidFile env b) s (fun _ s' => HoldsAt U n b s'.site) fun _ s' =>
      Sound U n s'.site := by
  subst hb
  -- before the rename the position file is behind the image, after it they agree
  have hbefore : ∀ k, Sound U n (Follower.site { s with clock := k }) := by
    intro k
    refine .inr ⟨p, htxid, hp, fun db hdb _ => ?_⟩
    obtain rfl : s.db = db := Option.some.inj hdb
    show Held U n p s.reached s.db
    rw [hreached]
    exact hheld.lower hn hle
  have hafter : ∀ k, HoldsAt U n t
      (Follower.site { s with txid := some (txidLine t), clock := k }) :=
    fun _ => ⟨⟨s.db, rfl, hheld⟩, rfl, hreached, hrooted⟩
  have hpass : ∀ k, Spec (pass env .io) { s with clock := k }
      (fun _ s' => ∃ k, s' = { s with clock := k })
      fun _ s' => Sound U n s'.site := fun k => spec_pass ⟨_, rfl⟩ fun _ => hbefore _
  unfold advanceTxidFile
  refine (hpass s.clock).bind ?_
  rintro - - ⟨k₁, rfl⟩
  refine (hpass k₁).bind ?_
  rintro - - ⟨k₂, rfl⟩
  refine (hpass k₂).bind ?_
  rintro - - ⟨k₃, rfl⟩
  refine Spec.bind (Q := fun _ s' => ∃ k, s' = { s with txid := some (txidLine t), clock := k })
    (spec_effect (fun _ => ⟨_, rfl⟩) (fun _ _ => (hafter _).sound hn) fun _ => hbefore _) ?_
  rintro - - ⟨k₄, rfl⟩
  exact spec_passAnyway (hafter _) fun _ => (hafter _).sound hn

/-- **An event of a session** of a replica that holds its position. -/
theorem handleEvent_spec (hc : c.Lawful) (hn : n < 2 ^ 64 - 1) {env : EventEnv}
    (hgen : env.Genuine c U n) (session : StreamSession) {s : Follower}
    (h : HoldsAt U n session.position s.site) :
    Spec (handleEvent c opts env session) s
      (fun next s' => match next with
        | some session' => HoldsAt U n session'.position s'.site
        | none => Sound U n s'.site)
      fun _ s' => Sound U n s'.site := by
  -- steps without an effect
  have hlater : ∀ {s' : Follower}, Later s s' → s'.db = s.db →
      HoldsAt U n session.position s'.site := by
    rintro s' hl hdb
    obtain ⟨⟨db, hdb', hheld⟩, htxid, hreached, hrooted⟩ := h
    refine ⟨⟨db, ?_, hheld⟩, hl.txid.trans htxid, hl.reached.trans hreached,
      hl.rooted.trans hrooted⟩
    show some s'.db = some db
    rw [hdb]
    exact hdb'
  have hstep : ∀ k, s.clock ≤ k →
      HoldsAt U n session.position (Follower.site { s with clock := k }) :=
    fun k hk => hlater ⟨rfl, rfl, rfl, hk⟩ rfl
  unfold handleEvent
  refine Spec.bind (Q := fun _ s' => s' = { s with clock := s.clock + 1 })
    (spec_pass rfl fun _ => (hstep _ (Nat.le_succ _)).sound hn) ?_
  rintro - - rfl
  have hnow := hstep (s.clock + 1) (Nat.le_succ _)
  split
  · exact hnow.sound hn
  · rename_i info htold
    split
    · exact hnow
    · split
      · rename_i hnew hcont
        obtain ⟨f, hspool, hf, hmin, hmax⟩ := hgen info htold
        obtain ⟨⟨db, hdb, hheld⟩, htxid, hreached, hrooted⟩ := h
        have hdb : s.db = db := Option.some.inj hdb
        have hp : session.position < 2 ^ 64 - 1 := lt_of_le_of_lt hheld.bound hn
        have hat : f.hdr.minTxid.toNat ≤ session.position + 1 := by
          rw [isContiguous, Bool.and_eq_true, decide_eq_true_eq] at hcont
          have := wrappingSucc_le session.position
          omega
        have hlt : session.position < f.hdr.maxTxid.toNat := by omega
        have hlate : s.clock ≤ s.clock + 1 + 1 := by omega
        refine Spec.bind (Q := fun _ s' => s' = { s with clock := s.clock + 1 + 1 })
          (spec_pass rfl fun _ => (hstep _ hlate).sound hn) ?_
        rintro - - rfl
        have hheld₁ : Held U n session.position s.reached s.db := by
          rw [hdb]
          have hreached : s.reached = session.position := hreached
          rw [hreached]
          exact hheld
        have hsteps := @appliesSpooled_spec _ _ _ _ opts hc hn env.steps _ hf _ hspool hat hlt
          session.pageSize
          { s with clock := s.clock + 1 + 1 } hrooted hheld₁
        refine Spec.bind (hsteps.mono (fun _ _ hq => hq) fun _ s' hmissed =>
          hmissed.sound hp hrooted htxid) ?_
        rintro applied s' hs'
        cases applied with
        | false => exact Missed.sound hs' hp hrooted htxid
        | true =>
            obtain ⟨htxid', -, hrooted', hreached', hheld'⟩ : Applied U n f.hdr.maxTxid.toNat _
              s' := hs'
            have hrooted : s.rooted = true := hrooted
            have hreached : s.reached = session.position := hreached
            rw [if_pos hrooted, hreached, max_eq_right hlt.le] at hreached'
            rw [hreached'] at hheld'
            refine Spec.bind (advanceTxidFile_holdsAt hn hp hlt.le (htxid'.trans htxid) hheld'
              hreached' hrooted' hmax)
              fun _ s'' hs'' => ?_
            exact hs''
      · exact hnow.sound hn
  · split
    · exact hnow.sound hn
    · exact hnow
  · exact hnow
  · exact hnow.sound hn

end Replica

/-! ## Steps -/

/-- What holds of a follower: in a session it holds its position, elsewhere it is sound. -/
def Following.Ok (U : Uploads) (n : Nat) (s : Following) : Prop :=
  match s.phase with
  | .streaming session => HoldsAt U n session.position s.site
  | _ => Sound U n s.site

/-- What an input has to do with the history: syncs are careful and see buckets of it, events bring
files of it. -/
def FollowInput.Genuine (c : Codec) (U : Uploads) (n : Nat) (opts : ReplicaOptions)
    (s : Following) : FollowInput → Prop
  | .round env => env.sync.Of c U n ∧ Careful c U opts env.sync s.site
  | .event env => env.Genuine c U n

namespace Following

variable {s : Following}

/-- A follower that returns leaves a sound site. -/
theorem ok_leave (h : Sound U n s.site) (result : Except ReplicaError Unit) :
    (s.leave result).Ok U n := h

/-- So does one that sleeps. -/
theorem ok_sleep (h : Sound U n s.site) (nap : Nap) (cancelled : Bool) :
    (s.sleep nap cancelled).Ok U n := by
  unfold Ok sleep
  cases cancelled with
  | true => exact h
  | false => exact h

/-- So does one that retries. -/
theorem ok_retryOr (h : Sound U n s.site) (unavailable sleepCancelled : Bool) (e : ReplicaError) :
    (s.retryOr fopts unavailable sleepCancelled e).Ok U n := by
  unfold retryOr
  split
  · exact ok_sleep h (.backoff s.attempt) sleepCancelled
  · exact ok_leave h _

/-- So does one that opens a session where it stands. -/
theorem ok_openSession (h : HoldsAt U n p s.site) (hn : n < 2 ^ 64 - 1) (env : RoundEnv)
    (before : Nat) :
    (s.openSession fopts env before).Ok U n := by
  obtain ⟨⟨db, hdb, hheld⟩, htxid, hreached, hrooted⟩ := id h
  have hp : p < 2 ^ 64 := by
    have := hheld.bound
    omega
  unfold openSession
  rw [readTxidFile_line hp htxid]
  dsimp only
  split
  · exact h.sound hn
  · exact ok_leave (h.sound hn) _
  · exact ok_retryOr (h.sound hn) _ _ _
  · exact ok_sleep (h.sound hn) _ _
  · split
    · exact h.sound hn
    · exact h
    · exact ok_retryOr (h.sound hn) _ _ _

/-- **A careful round** leaves a sound site. -/
theorem ok_round (h : Sound U n s.site) (hc : c.Lawful) (hn : n < 2 ^ 64 - 1) {env : RoundEnv}
    (hof : env.sync.Of c U n) (hcare : Careful c U opts env.sync s.site) :
    (s.round c opts fopts env).Ok U n := by
  have hsound := (h.sync hc hn hof hcare).1
  unfold round
  split
  · exact ok_leave h _
  · split
    · exact ok_leave h _
    · rename_i before hbefore
      split
      · rename_i site hsync
        rw [hsync] at hsound
        exact hsound
      · rename_i site hsync
        rw [hsync] at hsound
        exact hsound
      · rename_i site hsync
        rw [hsync] at hsound
        exact ok_sleep (s := { s with site }) hsound _ _
      · rename_i e site _ _ hsync
        rw [hsync] at hsound
        exact ok_retryOr (s := { s with site }) hsound _ _ e
      · rename_i result site hsync
        exact ok_openSession (s := { s with site, attempt := 0, restores := _ })
          (h.sync_holdsAt hc hn hof hcare hsync) hn env before

/-- So does the end of a session. -/
theorem ok_endSession (h : Sound U n s.site) (env : EventEnv) (madeProgress : Bool)
    (e : Option ReplicaError) :
    (s.endSession fopts env madeProgress e).Ok U n := by
  unfold endSession
  cases madeProgress with
  | true =>
      rw [if_pos rfl]
      split
      · exact ok_leave (s := { s with attempt := 0 }) h _
      · exact ok_retryOr (s := { s with attempt := 0 }) h _ _ _
      · exact h
  | false =>
      rw [if_neg Bool.false_ne_true]
      split
      · exact ok_leave h _
      · exact ok_retryOr h _ _ _
      · exact ok_sleep h _ _

/-- **A genuine event** leaves a sound site. -/
theorem ok_event {session : StreamSession} (h : HoldsAt U n session.position s.site)
    (hok : s.Ok U n) (hc : c.Lawful) (hn : n < 2 ^ 64 - 1) {env : EventEnv}
    (hgen : env.Genuine c U n) :
    (s.event c opts fopts env session).Ok U n := by
  unfold Following.event
  split
  · exact ok_leave (h.sound hn) _
  · split
    · exact hok
    · rename_i db hdb
      have hsite : HoldsAt U n session.position
          (Follower.site ⟨db, s.site.disk.txid, 0, s.site.reached, s.site.rooted⟩) := by
        obtain ⟨⟨db', hdb', hheld⟩, htxid, hreached, hrooted⟩ := h
        exact ⟨⟨db', hdb.symm.trans hdb', hheld⟩, htxid, hreached, hrooted⟩
      have hspec := @Replica.handleEvent_spec _ _ _ opts hc hn _ hgen session _ hsite
      unfold Spec at hspec
      split
      · -- the session goes on, with what the event left
        rename_i session' f hrun
        rw [hrun] at hspec
        exact hspec
      · -- it ends by itself
        rename_i f hrun
        rw [hrun] at hspec
        exact ok_endSession (s := { s with site := f.site }) hspec env _ _
      · -- killed while it was handled
        rename_i f hrun
        rw [hrun] at hspec
        exact hspec
      · -- it ends with an error
        rename_i e f hrun
        rw [hrun] at hspec
        exact ok_endSession (s := { s with site := f.site }) hspec env _ _

/-- What is right at every phase is a sound site. -/
theorem Ok.sound (h : s.Ok U n) (hn : n < 2 ^ 64 - 1) : Sound U n s.site := by
  unfold Ok at h
  split at h
  · exact h.sound hn
  · exact h

/-- **One step.** -/
theorem Ok.step (h : s.Ok U n) (hc : c.Lawful) (hn : n < 2 ^ 64 - 1) {input : FollowInput}
    (hgen : input.Genuine c U n opts s) : (followStep c opts fopts s input).Ok U n := by
  cases input with
  | round env =>
      unfold followStep
      dsimp only
      split
      · exact ok_round (h.sound hn) hc hn hgen.1 hgen.2
      · exact h
  | event env =>
      unfold followStep
      dsimp only
      split
      · rename_i session hphase
        have hheld : HoldsAt U n session.position s.site := by
          unfold Ok at h
          rwa [hphase] at h
        exact ok_event hheld h hc hn hgen
      · exact h

end Following

/-! ## Runs -/

/-- What a replica that begins with an empty directory goes through: the steps of `follow`, each
with the options its process was started with; and at any time the process may be gone, and the next
one follows what is on disk. -/
inductive Followed (c : Codec) (U : Uploads) (n : Nat) : Following → Prop where
  | start : Followed c U n { site := ⟨⟨none, none⟩, 0, true⟩ }
  | step {s : Following} (h : Followed c U n s) (opts : ReplicaOptions) (fopts : FollowOptions)
      (input : FollowInput)
      (hgen : input.Genuine c U n opts s) : Followed c U n (followStep c opts fopts s input)
  | restart {s : Following} (h : Followed c U n s) : Followed c U n { site := s.site }

/-- **Followers are in order** after every step. -/
theorem Followed.ok (hc : c.Lawful) (hn : n < 2 ^ 64 - 1) {s : Following} (h : Followed c U n s) :
    s.Ok U n := by
  induction h with
  | start => exact .inl rfl
  | step _ opts fopts input hgen ih => exact ih.step hc hn hgen
  | restart _ ih => exact ih.sound hn

end Liters
