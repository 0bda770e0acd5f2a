import Liters.Writer.Lineage

/-! # What a passing lineage check says about a shared bucket

Between sessions other parties may do anything to the bucket. The check compares one number, the
bucket's highest transaction, with the position this lineage verified. A bucket that another party
left exactly there passes, so the check is sound only along runs in which that does not happen
(`careful`); along those, the newest file of a bucket that passes is one this lineage uploaded. -/

namespace Liters

variable {c : Codec}

/-! ## Runs with other parties -/

/-- The baseline that opening a writer takes from the directory. -/
def Device.baseline (d : Device) : Memory :=
  match d.verifiedPos with
  | some t => { verifiedPos := t, verifiedPosProvisional := false }
  | none =>
      if (d.l0.find? d.l0.maxKey).isSome then
        { verifiedPos := d.l0.maxKey, verifiedPosProvisional := true }
      else { verifiedPos := 0, verifiedPosProvisional := false }

/-- A bucket that is empty or ends with a file that this lineage uploaded. -/
def Owned (d : Device) (bucket : SortedMap Bytes) : Prop :=
  ∀ body, bucket.find? bucket.maxKey = some body → (bucket.maxKey, body) ∈ d.puts

/-- What the steps of a run meet: `others` the bucket that another party leaves, `opens` the device
on which a writer opens. -/
structure Terms where
  others : Device → SortedMap Bytes → Prop
  opens : Device → Prop

/-- No condition at all. -/
def Terms.anything : Terms where
  others _ _ := True
  opens _ := True

/-- No party leaves the bucket at the verified transaction with a file of its own; no session opens
on a baseline that is an adopted file of another party; and a directory without verified-pos file
meets a bucket that is rejected, or whose newest file it uploaded. -/
def Terms.careful : Terms where
  others d bucket := Owned d bucket ∨ d.verifiedPos ≠ some bucket.maxKey
  opens d := (d.verifiedPos = none → Owned d d.bucket ∨ foreign d.baseline d.bucket.maxKey) ∧
    ∀ r, d.adopted = some r → d.verifiedPos ≠ some r

namespace Host

/-- The states that a writer reaches at a bucket it shares. A run starts without verified-pos file,
in a fresh directory or with what an earlier program left. -/
inductive SharedRun (c : Codec) (T : Terms) : Host → Prop where
  | start (dev : Device) (hv : dev.verifiedPos = none) (ha : dev.adopted = none) :
      SharedRun c T ⟨none, dev⟩
  | openWriter {dev : Device} (hr : SharedRun c T ⟨none, dev⟩) (ht : T.opens dev)
      (fates : List Fate) :
      SharedRun c T (openOn dev fates)
  | push {m : Memory} {dev : Device} (hr : SharedRun c T ⟨some m, dev⟩)
      (sources : List (Option SyncSource)) (fates : List Fate) :
      SharedRun c T (run (Liters.push c sources) m dev fates)
  | check {m : Memory} {dev : Device} (hr : SharedRun c T ⟨some m, dev⟩) (fates : List Fate) :
      SharedRun c T (run ensureLineageChecked m dev fates)
  | kill {m : Memory} {dev : Device} (hr : SharedRun c T ⟨some m, dev⟩) : SharedRun c T ⟨none, dev⟩
  | others {dev : Device} (hr : SharedRun c T ⟨none, dev⟩) (bucket : SortedMap Bytes)
      (ht : T.others dev bucket) :
      SharedRun c T ⟨none, { dev with bucket, adopted := none }⟩

end Host

/-- Where the check passes on an exact baseline, the newest file of the bucket is one this lineage
uploaded, or the bucket is empty and nothing in it is verified. -/
def CheckSound (h : Host) : Prop :=
  ∀ m, h.mem = some m → m.lineageChecked = false → m.verifiedPosProvisional = false →
    ∀ fates s, ensureLineageChecked ⟨m, h.dev, fates⟩ = .ok () s →
      foreign m h.dev.bucket.maxKey = false →
      (∃ body, h.dev.bucket.find? h.dev.bucket.maxKey = some body ∧
        (h.dev.bucket.maxKey, body) ∈ h.dev.puts) ∨
      ((∀ t, h.dev.bucket.find? t = none) ∧ m.verifiedPos = 0)

/-! ## The invariant -/

/-- What holds without a writer. -/
def TracedClosed (d : Device) : Prop :=
  Owned d d.bucket ∨ d.adopted = some d.bucket.maxKey ∨ d.verifiedPos ≠ some d.bucket.maxKey

/-- What holds of an open writer: the newest file of the bucket is an own one, or adopted, or the
check is still to come and will reject it. -/
structure Traced (m : Memory) (d : Device) : Prop where
  newest : Owned d d.bucket ∨ d.adopted = some d.bucket.maxKey ∨
    (d.verifiedPos ≠ some d.bucket.maxKey ∧ m.lineageChecked = false ∧
      foreign m d.bucket.maxKey = true)
  adopted : d.adopted = some d.bucket.maxKey → Owned d d.bucket ∨ m.lineageChecked = true ∨
    foreign m d.bucket.maxKey = true
  exact : m.lineageChecked = true → m.verifiedPosProvisional = false
  cursor : ∀ r, m.remoteTxid = some r → r = d.bucket.maxKey

/-- What is traced while open is so when closed. -/
theorem Traced.closed {m : Memory} {d : Device} (h : Traced m d) : TracedClosed d := by
  rcases h.newest with ho | ha | ⟨hv, -, -⟩
  · exact Or.inl ho
  · exact Or.inr (Or.inl ha)
  · exact Or.inr (Or.inr hv)

/-- A pending check that will pass sees an own file. -/
theorem Traced.owned {m : Memory} {d : Device} (h : Traced m d) (hc : m.lineageChecked = false)
    (hf : foreign m d.bucket.maxKey = false) : Owned d d.bucket := by
  rcases h.newest with ho | ha | ⟨-, -, hf'⟩
  · exact ho
  · rcases h.adopted ha with ho | hc' | hf'
    · exact ho
    · rw [hc] at hc'
      cases hc'
    · rw [hf] at hf'
      cases hf'
  · rw [hf] at hf'
    cases hf'

/-- What is left when an operation stops: with the process its memory is gone. -/
def StopsTraced : Stop → Session → Prop
  | .error _, s => Traced s.mem s.dev
  | .killed, s => TracedClosed s.dev

/-- A stop leaves what is traced. -/
theorem StopsTraced.of_traced {s : Session} (h : Traced s.mem s.dev) (stop : Stop) :
    StopsTraced stop s := by
  cases stop with
  | error _ => exact h
  | killed => exact h.closed

/-! ## What concerns local files only -/

/-- Only local files and what is derived from them differ. -/
def Untouched (s s' : Session) : Prop :=
  s'.mem = { s.mem with cachedPos := s'.mem.cachedPos, syncedToWalEnd := s'.mem.syncedToWalEnd } ∧
    s'.dev = { s.dev with l0 := s'.dev.l0 }

/-- Nothing has been touched yet. -/
theorem Untouched.refl (s : Session) : Untouched s s := ⟨rfl, rfl⟩

/-- What leaves things untouched twice leaves them untouched. -/
theorem Untouched.trans {s s' s'' : Session} (h : Untouched s s') (h' : Untouched s' s'') :
    Untouched s s'' := by
  obtain ⟨hm, hd⟩ := h
  obtain ⟨hm', hd'⟩ := h'
  refine ⟨?_, ?_⟩
  · rw [hm', hm]
  · rw [hd', hd]

/-- What is untouched stays traced. -/
theorem Untouched.traced {s s' : Session} (hu : Untouched s s') (h : Traced s.mem s.dev) :
    Traced s'.mem s'.dev := by
  obtain ⟨hm, hd⟩ := hu
  obtain ⟨h1, h2, h3, h4⟩ := h
  rw [hm, hd]
  exact ⟨h1, h2, h3, h4⟩

/-- Both ends of an operation on local files. -/
abbrev LocalOnly {α : Type} (x : Act α) (s : Session) : Prop :=
  Spec x s (fun _ => Untouched s) fun _ => Untouched s

/-- Two local acts are one. -/
theorem LocalOnly.bind {α β : Type} {x : Act α} {f : α → Act β} {s : Session} (h : LocalOnly x s)
    (hf : ∀ a s', LocalOnly (f a) s') : LocalOnly (x >>= f) s := by
  rw [LocalOnly, spec_bind]
  refine Spec.mono h (fun a s' hu => ?_) fun _ _ hu => hu
  exact Spec.mono (hf a s') (fun _ _ hu' => hu.trans hu') fun _ _ hu' => hu.trans hu'

/-- A step that reads only is local. -/
theorem localOnly_readOnly {s : Session} (e : WriterError) : LocalOnly (readOnly e) s :=
  spec_readOnly (fun _ => ⟨rfl, rfl⟩) fun _ _ => ⟨rfl, rfl⟩

/-- The position from the local files is local. -/
theorem localOnly_metaPos (c : Codec) (s : Session) : LocalOnly (metaPos c) s := by
  unfold metaPos
  refine LocalOnly.bind (localOnly_readOnly _) fun _ s' => ?_
  rw [LocalOnly, spec_bind, spec_get]
  dsimp only
  cases s'.dev.l0.find? s'.dev.l0.maxKey with
  | none => exact Untouched.refl s'
  | some body =>
      dsimp only
      cases verifyFile c body with
      | ok r => exact Untouched.refl s'
      | error e => exact Untouched.refl s'

/-- So is the cached one. -/
theorem localOnly_pos (c : Codec) (s : Session) : LocalOnly (pos c) s := by
  unfold pos
  rw [LocalOnly, spec_bind, spec_get]
  cases s.mem.cachedPos with
  | some p => exact Untouched.refl s
  | none => exact LocalOnly.bind (localOnly_metaPos c s) fun p s' => ⟨rfl, rfl⟩

/-- So is a sync of the database. -/
theorem localOnly_sync (c : Codec) (source : Option SyncSource) (s : Session) :
    LocalOnly (sync c source) s := by
  cases source with
  | none =>
      unfold sync
      exact LocalOnly.bind (localOnly_pos c s) fun _ _ => localOnly_readOnly _
  | some source =>
      unfold sync
      refine LocalOnly.bind (localOnly_pos c s) fun p s' => ?_
      split
      · refine spec_effect (fun _ => ⟨rfl, rfl⟩) fun _ part _ => ?_
        split
        · exact ⟨rfl, rfl⟩
        · split
          · exact ⟨rfl, rfl⟩
          · exact ⟨rfl, rfl⟩
      · exact ⟨rfl, rfl⟩

/-- So are several. -/
theorem localOnly_syncAll (c : Codec) (sources : List (Option SyncSource)) (s : Session) :
    LocalOnly (syncAll c sources) s := by
  induction sources generalizing s with
  | nil => exact Untouched.refl s
  | cons source sources ih =>
      unfold syncAll
      exact LocalOnly.bind (localOnly_sync c source s) fun _ s' => ih s'

/-- What concerns local files only keeps the invariant. -/
theorem LocalOnly.traced {α : Type} {x : Act α} {s : Session} (h : LocalOnly x s)
    (ht : Traced s.mem s.dev) : Spec x s (fun _ s' => Traced s'.mem s'.dev) StopsTraced :=
  Spec.mono h (fun _ _ hu => hu.traced ht) fun stop _ hu => .of_traced (hu.traced ht) stop

/-- A step that reads only keeps what is traced. -/
theorem traced_readOnly {s : Session} (h : Traced s.mem s.dev) (e : WriterError) :
    Spec (readOnly e) s (fun _ s' => Traced s'.mem s'.dev) StopsTraced :=
  LocalOnly.traced (localOnly_readOnly e) h

/-! ## The check -/

/-- The newest file of the bucket is an own one, or adopted. -/
def Accepted (d : Device) : Prop := Owned d d.bucket ∨ d.adopted = some d.bucket.maxKey

/-- What an accepted bucket and a check that is done establish. -/
theorem Accepted.traced {m : Memory} {d : Device} (h : Accepted d) (hc : m.lineageChecked = true)
    (hp : m.verifiedPosProvisional = false)
    (hr : ∀ r, m.remoteTxid = some r → r = d.bucket.maxKey) :
    Traced m d where
  newest := by
    rcases h with ho | ha
    · exact Or.inl ho
    · exact Or.inr (Or.inl ha)
  adopted _ := Or.inr (Or.inl hc)
  exact _ := hp
  cursor := hr

/-- An accepted device is traced when closed. -/
theorem Accepted.closed {d : Device} (h : Accepted d) : TracedClosed d := by
  rcases h with ho | ha
  · exact Or.inl ho
  · exact Or.inr (Or.inl ha)

/-- Writing the verified-pos file over an accepted bucket. -/
theorem accepted_writeVerifiedPos {s : Session} (h : Accepted s.dev) (txid : Nat) :
    Spec (writeVerifiedPos txid) s (fun _ s' => s'.mem = s.mem ∧ Accepted s'.dev ∧
      s'.dev.bucket = s.dev.bucket) StopsTraced := by
  have hwrite : ∀ fates, Accepted (Session.persist txid { s with fates }).dev := fun _ => h
  refine spec_bestEffort (fun fates => ⟨rfl, hwrite fates, rfl⟩) (fun part fates => ?_)
    fun part fates => ?_
  · split
    · exact ⟨rfl, hwrite fates, rfl⟩
    · exact ⟨rfl, h, rfl⟩
  · show TracedClosed _
    split
    · exact (hwrite fates).closed
    · exact h.closed

/-- A wiped directory changes nothing here. -/
theorem localOnly_clearL0 (s : Session) : LocalOnly clearL0 s :=
  spec_effect (fun _ => ⟨rfl, rfl⟩) fun _ _ _ => ⟨rfl, rfl⟩

/-- The rebaseline adopts the newest file of the bucket, unless it is an own one. -/
theorem accepted_rebaselineFromRemote {s : Session} (h : Traced s.mem s.dev) :
    Spec (rebaselineFromRemote s.dev.bucket.maxKey) s
      (fun _ s' => Accepted s'.dev ∧ s'.dev.bucket = s.dev.bucket) StopsTraced := by
  unfold rebaselineFromRemote
  -- up to the last line only local files change
  refine Spec.bind (Q := fun _ => Untouched s) (Spec.mono (localOnly_readOnly _) (fun _ _ hu => hu)
    fun stop _ hu => .of_traced (hu.traced h) stop) ?_
  intro _ s₁ h₁
  refine Spec.bind (Q := fun _ => Untouched s) (Spec.mono (localOnly_clearL0 _)
    (fun _ _ hu => h₁.trans hu) fun stop _ hu => .of_traced ((h₁.trans hu).traced h) stop) ?_
  intro _ s₂ h₂
  rw [spec_bind, spec_modify]
  have h₃ : Untouched s (s₂.setMem fun m => { m with cachedPos := none }) := h₂.trans ⟨rfl, rfl⟩
  refine Spec.bind (Q := fun _ => Untouched s) (Spec.mono (localOnly_readOnly _)
    (fun _ _ hu => h₃.trans hu) fun stop _ hu => .of_traced ((h₃.trans hu).traced h) stop) ?_
  intro _ s₄ h₄
  rw [spec_bind, spec_get]
  have hbucket : s₄.dev.bucket = s.dev.bucket := by rw [h₄.2]
  cases hbody : s₄.dev.bucket.find? s.dev.bucket.maxKey with
  | none => exact h₄.traced h
  | some body =>
      refine Spec.bind (Q := fun _ => Untouched s) (spec_effect (fun _ => ?_) fun stop _ _ => ?_) ?_
      · exact h₄.trans ⟨rfl, rfl⟩
      · refine StopsTraced.of_traced (Untouched.traced (h₄.trans ?_) h) stop
        split
        · exact ⟨rfl, rfl⟩
        · exact ⟨rfl, rfl⟩
      intro _ s₅ h₅
      have hbucket₅ : s₅.dev.bucket = s.dev.bucket := by rw [h₅.2]
      rw [spec_bind, spec_modify, spec_modify]
      refine ⟨?_, hbucket₅⟩
      by_cases hput : (s.dev.bucket.maxKey, body) ∈ s₅.dev.puts
      · refine Or.inl fun body' hbody' => ?_
        have hnewest : s₅.dev.bucket.find? s₅.dev.bucket.maxKey = some body' := hbody'
        rw [hbucket₅, ← show s₄.dev.bucket.find? s.dev.bucket.maxKey
          = s.dev.bucket.find? s.dev.bucket.maxKey by rw [hbucket], hbody] at hnewest
        obtain rfl := Option.some.inj hnewest
        show (s₅.dev.bucket.maxKey, body) ∈ s₅.dev.puts
        rw [hbucket₅]
        exact hput
      · refine Or.inr ?_
        show (if _ ∈ s₅.dev.puts then none else some _) = some s₅.dev.bucket.maxKey
        rw [if_neg hput, hbucket₅]

/-- Foreign data is adopted or, where the bucket was wiped, left behind. -/
theorem accepted_acceptForeign {s : Session} (h : Traced s.mem s.dev) :
    Spec (acceptForeign s.dev.bucket.maxKey) s
      (fun _ s' => Accepted s'.dev ∧ s'.dev.bucket = s.dev.bucket) StopsTraced := by
  have hdiscard : Spec (discardLocal s.dev.bucket.maxKey) s
      (fun _ s' => Accepted s'.dev ∧ s'.dev.bucket = s.dev.bucket) StopsTraced := by
    unfold discardLocal
    rw [spec_bind, spec_get]
    cases hbody : s.dev.bucket.find? s.dev.bucket.maxKey with
    | some body => exact accepted_rebaselineFromRemote h
    | none =>
        refine Spec.bind (Q := fun _ => Untouched s) (Spec.mono (localOnly_clearL0 _)
          (fun _ _ hu => hu) fun stop _ hu => .of_traced (hu.traced h) stop) ?_
        intro _ s₁ h₁
        rw [spec_modify]
        have hbucket : s₁.dev.bucket = s.dev.bucket := by rw [h₁.2]
        refine ⟨Or.inl fun body hb => ?_, hbucket⟩
        rw [show (Session.setMem _ s₁).dev.bucket = s₁.dev.bucket from rfl, hbucket, hbody] at hb
        cases hb
  unfold acceptForeign
  refine hdiscard.bind ?_
  rintro - s₁ ⟨h₁, hb₁⟩
  rw [spec_bind, spec_modify]
  refine Spec.mono (accepted_writeVerifiedPos (s := Session.setMem _ s₁) h₁ _) ?_ fun _ _ hs => hs
  rintro - s₂ ⟨-, h₂, hb₂⟩
  exact ⟨h₂, hb₂.trans hb₁⟩

/-- Own data was own data before. -/
theorem accepted_acceptOwn {s : Session} (h : Owned s.dev s.dev.bucket) :
    Spec (acceptOwn s.dev.bucket.maxKey) s
      (fun _ s' => Accepted s'.dev ∧ s'.dev.bucket = s.dev.bucket) StopsTraced := by
  unfold acceptOwn
  rw [spec_bind, spec_modify, spec_bind, spec_get]
  split
  · exact ⟨Or.inl h, rfl⟩
  · refine Spec.mono (accepted_writeVerifiedPos (s := Session.setMem _ s) (Or.inl h) _) ?_
      fun _ _ hs => hs
    rintro - s' ⟨-, h', hb⟩
    exact ⟨h', hb⟩

/-- The check, passed or repaired, leaves an accepted bucket. -/
theorem traced_ensureLineageChecked {s : Session} (h : Traced s.mem s.dev) :
    Spec ensureLineageChecked s
      (fun _ s' => Traced s'.mem s'.dev ∧ s'.mem.lineageChecked = true) StopsTraced := by
  unfold ensureLineageChecked
  rw [spec_bind, spec_get]
  -- checked before
  split
  · rename_i hchecked
    exact ⟨h, hchecked⟩
  rename_i hchecked
  refine Spec.bind (Q := fun _ => Untouched s) (Spec.mono (localOnly_readOnly _) (fun _ _ hu => hu)
    fun stop _ hu => .of_traced (hu.traced h) stop) ?_
  intro _ s₁ hu₁
  have h₁ := hu₁.traced h
  unfold listBucketMax
  rw [spec_bind, spec_bind]
  refine spec_readOnly (fun fates => ?_) fun stop fates =>
    StopsTraced.of_traced (s := { s₁ with fates }) h₁ stop
  rw [spec_bind, spec_get, spec_pure, spec_bind]
  -- what is listed is adopted, or it is the writer's own
  have hsettle : Spec (settleLineage s₁.dev.bucket.maxKey) { s₁ with fates }
      (fun _ s' => Accepted s'.dev ∧ s'.dev.bucket = s₁.dev.bucket) StopsTraced := by
    unfold settleLineage
    rw [spec_bind, spec_get]
    split
    · -- foreign: the baseline is replaced
      exact accepted_acceptForeign (s := { s₁ with fates }) h₁
    · -- not foreign: the bucket is the writer's own
      rename_i hf
      refine accepted_acceptOwn (s := { s₁ with fates }) (h₁.owned ?_ (Bool.eq_false_iff.mpr hf))
      rw [hu₁.1]
      exact Bool.eq_false_iff.mpr hchecked
  refine hsettle.mono ?_ fun _ _ hs => hs
  rintro - s₂ ⟨h₂, hb₂⟩
  rw [spec_modify]
  refine ⟨h₂.traced rfl rfl fun r hr => ?_, rfl⟩
  obtain rfl := Option.some.inj hr
  show s₁.dev.bucket.maxKey = s₂.dev.bucket.maxKey
  rw [hb₂]

/-! ## Uploads -/

/-- Forgetting the bucket keeps what is traced. -/
theorem Traced.forgetRemote {s : Session} (h : Traced s.mem s.dev) :
    Traced (forgetRemote s).mem (forgetRemote s).dev := by
  refine ⟨h.newest, h.adopted, h.exact, fun r hr => ?_⟩
  cases hr

/-- Behind a PUT of the next transaction the newest file is an own one. -/
theorem owned_put (s : Session) (body : Bytes) :
    Owned (s.put (s.dev.bucket.maxKey + 1) body).dev
      (s.put (s.dev.bucket.maxKey + 1) body).dev.bucket ∧
    (s.put (s.dev.bucket.maxKey + 1) body).dev.bucket.maxKey = s.dev.bucket.maxKey + 1 := by
  have hmax : (s.dev.bucket.insert (s.dev.bucket.maxKey + 1) body).maxKey
      = s.dev.bucket.maxKey + 1 := by
    rw [SortedMap.maxKey_insert]
    omega
  refine ⟨fun body' hbody' => ?_, hmax⟩
  simp only [Session.put, hmax, SortedMap.find?_insert, ↓reduceIte, Option.some.injEq] at hbody' ⊢
  rw [hbody']
  exact List.mem_cons_self

/-- Where the upload stands. -/
structure Sending (sent : Nat) (s : Session) : Prop extends Traced s.mem s.dev where
  checked : s.mem.lineageChecked = true
  remote : sent = s.dev.bucket.maxKey

/-- **The upload loop** keeps what is traced. -/
theorem sending_uploadLoop {n cursor : Nat} {s : Session} (h : Sending cursor s) :
    Spec (uploadLoop n cursor) s (fun _ s' => Traced s'.mem s'.dev) StopsTraced := by
  induction n generalizing cursor s with
  | zero => exact h.toTraced
  | succ n ih =>
      unfold uploadLoop
      refine Spec.bind (Q := fun _ s' => s'.mem = s.mem ∧ s'.dev = s.dev)
        (spec_effect (fun _ => ⟨rfl, rfl⟩) fun stop _ fates => ?_) ?_
      · exact .of_traced (Traced.forgetRemote (s := { s with fates }) h.toTraced) stop
      rintro - s₁ ⟨hm₁, hd₁⟩
      have h₁ : Sending cursor s₁ :=
        ⟨hm₁ ▸ hd₁ ▸ h.toTraced, hm₁ ▸ h.checked, hd₁ ▸ h.remote⟩
      rw [spec_bind, spec_get]
      cases hbody : s₁.dev.l0.find? (cursor + 1) with
      | none =>
          rw [spec_bind, spec_modify, spec_throw]
          exact h₁.toTraced.forgetRemote
      | some body =>
          obtain rfl := h₁.remote
          obtain ⟨howned, hmax⟩ := owned_put s₁ body
          have hexact := h₁.toTraced.exact h₁.checked
          dsimp only
          rw [spec_bind]
          refine spec_effect (fun fates => ?_) fun stop part fates => ?_
          · rw [spec_bind, spec_modify, spec_bind]
            -- the verified position follows the cursor
            suffices hadvance : Spec (advanceVerified (s₁.dev.bucket.maxKey + 1))
                ((Session.put (s₁.dev.bucket.maxKey + 1) body { s₁ with fates }).setMem fun m =>
                  { m with remoteTxid := some (s₁.dev.bucket.maxKey + 1) })
                (fun _ s' => Sending (s₁.dev.bucket.maxKey + 1) s') StopsTraced from
              hadvance.mono (fun _ s' h' => ih h') fun _ _ hs => hs
            have hput : Accepted (Session.put (s₁.dev.bucket.maxKey + 1) body
                { s₁ with fates }).dev :=
              Or.inl howned
            have hcursor : ∀ r, some (s₁.dev.bucket.maxKey + 1) = some r →
                r = (s₁.put (s₁.dev.bucket.maxKey + 1) body).dev.bucket.maxKey := by
              intro r hr
              obtain rfl := Option.some.inj hr
              exact hmax.symm
            unfold advanceVerified
            rw [spec_bind, spec_get]
            split
            · rw [spec_bind, spec_modify]
              refine Spec.mono (accepted_writeVerifiedPos (s := Session.setMem _ (Session.setMem _
                (Session.put (s₁.dev.bucket.maxKey + 1) body { s₁ with fates }))) hput _) ?_
                fun _ _ hs => hs
              rintro - s₂ ⟨hm₂, h₂, hb₂⟩
              have hmem : s₂.mem.lineageChecked = true ∧ s₂.mem.verifiedPosProvisional = false ∧
                  s₂.mem.remoteTxid = some (s₁.dev.bucket.maxKey + 1) := by
                rw [hm₂]
                exact ⟨h₁.checked, hexact, rfl⟩
              refine ⟨h₂.traced hmem.1 hmem.2.1 fun r hr => ?_, hmem.1, ?_⟩
              · rw [hb₂]
                exact hcursor r (hmem.2.2 ▸ hr)
              · rw [hb₂]
                exact hmax.symm
            · exact ⟨hput.traced h₁.checked hexact hcursor, h₁.checked, hmax.symm⟩
          · -- a failed PUT may have reached the bucket
            refine StopsTraced.of_traced ?_ stop
            split
            · refine ⟨Or.inl howned, fun ha => ?_, fun _ => hexact, fun r hr => ?_⟩
              · cases ha
              · cases hr
            · exact Traced.forgetRemote (s := { s₁ with fates }) h₁.toTraced

/-- A bucket that moved under the session has to pass the check again, and will not. -/
theorem sending_remoteCursor {s : Session} (h : Traced s.mem s.dev)
    (hchecked : s.mem.lineageChecked = true) :
    Spec remoteCursor s (fun r s' => Sending r s') StopsTraced := by
  unfold remoteCursor
  rw [spec_bind, spec_get]
  cases hr : s.mem.remoteTxid with
  | some t => exact ⟨h, hchecked, h.cursor t hr⟩
  | none =>
      show Spec (listBucketMax >>= _) s _ _
      unfold listBucketMax
      rw [spec_bind, spec_bind]
      refine spec_readOnly (fun fates => ?_) fun stop fates =>
        StopsTraced.of_traced (s := { s with fates }) h stop
      rw [spec_bind, spec_get, spec_pure, spec_bind, spec_get]
      dsimp only
      -- nothing moved since the check
      split
      · rw [spec_bind, spec_modify, spec_pure]
        refine ⟨⟨h.newest, h.adopted, h.exact, fun r hr => ?_⟩, hchecked, rfl⟩
        obtain rfl := Option.some.inj hr
        rfl
      · -- the bucket moved: the session is unchecked, and the next check takes what is there
        rename_i hmoved
        rw [spec_bind, spec_modify, spec_throw]
        have hexact := h.exact hchecked
        have hforeign : foreign { s.mem with lineageChecked := false } s.dev.bucket.maxKey =
            true := by
          rw [foreign, if_neg (by rw [hexact]; decide)]
          exact decide_eq_true hmoved
        refine ⟨?_, fun _ => Or.inr (Or.inr hforeign), fun hc => ?_, h.cursor⟩
        · rcases h.newest with ho | ha | ⟨-, hc, -⟩
          · exact Or.inl ho
          · exact Or.inr (Or.inl ha)
          · rw [hchecked] at hc
            cases hc
        · cases hc

/-- So does the upload as a whole. -/
theorem traced_uploadL0 (c : Codec) {s : Session} (h : Traced s.mem s.dev)
    (hchecked : s.mem.lineageChecked = true) :
    Spec (uploadL0 c) s (fun _ s' => Traced s'.mem s'.dev) StopsTraced := by
  unfold uploadL0
  refine (sending_remoteCursor h hchecked).bind fun r s₁ h₁ => ?_
  refine Spec.bind (Q := fun _ => Untouched s₁) (Spec.mono (localOnly_pos c s₁) (fun _ _ hu => hu)
    fun stop _ hu => .of_traced (hu.traced h₁.toTraced) stop) ?_
  intro p s₂ hu
  refine sending_uploadLoop ⟨hu.traced h₁.toTraced, ?_, ?_⟩
  · rw [hu.1]
    exact h₁.checked
  · rw [hu.2]
    exact h₁.remote

/-- So does the pruning of local files. -/
theorem traced_pruneL0 {s : Session} (h : Traced s.mem s.dev) (before : Nat) :
    Spec (pruneL0 before) s (fun _ s' => Traced s'.mem s'.dev) StopsTraced := by
  obtain ⟨h1, h2, h3, h4⟩ := h
  have hprune : ∀ p fates, Traced (Session.prune p { s with fates }).mem
      (Session.prune p { s with fates }).dev := fun _ _ => ⟨h1, h2, h3, h4⟩
  unfold pruneL0
  rw [spec_bind, spec_get]
  exact spec_bestEffort (fun fates => hprune _ fates) (fun part fates => hprune _ fates)
    fun part fates => (hprune _ fates).closed

/-! ## Operations and runs -/

/-- A push keeps the invariant, wherever it stops. -/
theorem traced_push (c : Codec) {s : Session} (h : Traced s.mem s.dev)
    (sources : List (Option SyncSource)) :
    Spec (push c sources) s (fun _ s' => Traced s'.mem s'.dev) StopsTraced := by
  unfold push
  refine (traced_readOnly h _).bind fun _ s₁ h₁ => ?_
  refine (LocalOnly.traced (localOnly_syncAll c sources s₁) h₁).bind fun _ s₂ h₂ => ?_
  refine (traced_readOnly h₂ _).bind fun _ s₃ h₃ => ?_
  refine (traced_ensureLineageChecked h₃).bind ?_
  rintro - s₄ ⟨h₄, hchecked⟩
  refine (traced_uploadL0 c h₄ hchecked).bind fun r s₅ h₅ => ?_
  refine (traced_pruneL0 h₅ r).bind fun _ s₆ h₆ => ?_
  exact LocalOnly.traced (localOnly_pos c s₆) h₆

/-- Opening a writer reads the baseline, and pins a fresh directory at zero. -/
theorem openWriter_baseline {s : Session} :
    Spec openWriter s
      (fun _ s' => s'.mem = s.dev.baseline ∧ (s'.dev = s.dev ∨
        s.dev.verifiedPos = none ∧ s'.dev = { s.dev with verifiedPos := some 0 } ∧
          s.dev.baseline.verifiedPosProvisional = false))
      (fun _ s' => s'.dev = s.dev ∨
        s.dev.verifiedPos = none ∧ s'.dev = { s.dev with verifiedPos := some 0 } ∧
          s.dev.baseline.verifiedPosProvisional = false) := by
  unfold openWriter
  refine Spec.bind (Q := fun _ s' => s'.dev = s.dev) (spec_readOnly (fun _ => rfl)
    fun _ _ => Or.inl rfl) ?_
  intro _ s₁ hd
  refine Spec.bind (Q := fun _ s' => s'.mem = s.dev.baseline ∧ (s'.dev = s.dev ∨
    s.dev.verifiedPos = none ∧ s'.dev = { s.dev with verifiedPos := some 0 } ∧
      s.dev.baseline.verifiedPosProvisional = false)) ?_ fun _ s₂ h₂ =>
    spec_readOnly (fun _ => h₂) fun _ _ => h₂.2
  unfold readBaseline Device.baseline
  rw [spec_bind, spec_get, hd]
  cases hv : s.dev.verifiedPos with
  -- the position file is there
  | some t => exact ⟨rfl, Or.inl hd⟩
  | none =>
      rw [spec_bind, spec_get, hd]
      dsimp only
      -- no local file either: it is written as 0; otherwise the baseline is provisional
      split
      · exact ⟨rfl, Or.inl hd⟩
      · rw [spec_bind]
        refine spec_effect (fun _ => ⟨rfl, Or.inr ⟨rfl, ?_, rfl⟩⟩) fun _ part _ => ?_
        · show { s₁.dev with verifiedPos := some 0 } = _
          rw [hd]
        · split
          · refine Or.inr ⟨rfl, ?_, rfl⟩
            show { s₁.dev with verifiedPos := some 0 } = _
            rw [hd]
          · exact Or.inl hd

/-- On a device that meets the terms the baseline is traced, also once it is pinned. -/
theorem traced_baseline {d d' : Device} (h : TracedClosed d) (ht : Terms.careful.opens d)
    (hd : d' = d ∨ d.verifiedPos = none ∧ d' = { d with verifiedPos := some 0 } ∧
      d.baseline.verifiedPosProvisional = false) : Traced d.baseline d' := by
  obtain ⟨hnone, hadopted⟩ := ht
  have hunchecked : d.baseline.lineageChecked = false ∧ d.baseline.remoteTxid = none := by
    unfold Device.baseline
    cases d.verifiedPos with
    | some t => exact ⟨rfl, rfl⟩
    | none =>
        dsimp only
        split
        · exact ⟨rfl, rfl⟩
        · exact ⟨rfl, rfl⟩
  -- a bucket that is not at the persisted position is rejected, or an own one
  have hrejected : d.verifiedPos ≠ some d.bucket.maxKey →
      Owned d d.bucket ∨ foreign d.baseline d.bucket.maxKey = true := by
    intro hne
    cases hv : d.verifiedPos with
    | none => exact hnone hv
    | some t =>
        right
        rw [Device.baseline, hv]
        exact decide_eq_true fun heq => hne (by rw [hv, heq])
  have hexact : d.baseline.lineageChecked = true → d.baseline.verifiedPosProvisional = false := by
    intro hc
    rw [hunchecked.1] at hc
    cases hc
  have hcursor : ∀ r, d.baseline.remoteTxid = some r → r = d.bucket.maxKey := by
    intro r hr
    rw [hunchecked.2] at hr
    cases hr
  have hopen : Traced d.baseline d := by
    refine ⟨?_, fun ha => ?_, hexact, hcursor⟩
    · rcases h with ho | ha | hv
      · exact Or.inl ho
      · exact Or.inr (Or.inl ha)
      · rcases hrejected hv with ho | hf
        · exact Or.inl ho
        · exact Or.inr (Or.inr ⟨hv, hunchecked.1, hf⟩)
    · rcases hrejected (hadopted _ ha) with ho | hf
      · exact Or.inl ho
      · exact Or.inr (Or.inr hf)
  rcases hd with rfl | ⟨hv, rfl, hprovisional⟩
  · exact hopen
  · have hzero : d.baseline.verifiedPos = 0 := by
      unfold Device.baseline at hprovisional ⊢
      rw [hv] at hprovisional ⊢
      dsimp only at hprovisional ⊢
      split at hprovisional
      · cases hprovisional
      · rename_i hempty
        rw [if_neg hempty]
    refine ⟨?_, hopen.adopted, hexact, hcursor⟩
    rcases hnone hv with ho | hf
    · exact Or.inl ho
    · refine Or.inr (Or.inr ⟨fun heq => ?_, hunchecked.1, hf⟩)
      -- the bucket is not empty, or it would not be rejected
      rw [foreign, if_neg (by rw [hprovisional]; decide), hzero] at hf
      exact of_decide_eq_true hf (Option.some.inj heq).symm

/-- The invariant of a device, with or without a writer on it. -/
def TracedHost (h : Host) : Prop :=
  match h.mem with
  | some m => Traced m h.dev
  | none => TracedClosed h.dev

/-- An act that keeps what is traced leaves a traced host. -/
theorem tracedHost_run {α : Type} {act : Act α} {m : Memory} {dev : Device} {fates : List Fate}
    {Q : α → Session → Prop} (h : Spec act ⟨m, dev, fates⟩ Q StopsTraced)
    (hQ : ∀ a s, Q a s → Traced s.mem s.dev) : TracedHost (Host.run act m dev fates) := by
  unfold Spec at h
  unfold Host.run
  split at h
  · rename_i heq
    rw [heq]
    exact hQ _ _ h
  · rename_i stop s' heq
    rw [heq]
    cases stop with
    | error e => exact h
    | killed => exact h

/-- The invariant holds along every careful run. -/
theorem tracedHost_sharedRun {h : Host} (hr : Host.SharedRun c .careful h) : TracedHost h := by
  induction hr with
  | start dev hv ha =>
      refine Or.inr (Or.inr fun heq => ?_)
      rw [show dev.verifiedPos = none from hv] at heq
      cases heq
  | @openWriter dev hr ht fates ih =>
      have hspec := openWriter_baseline
        (s := ⟨{ verifiedPos := 0, verifiedPosProvisional := false }, dev, fates⟩)
      unfold Spec at hspec
      unfold Host.openOn
      -- opening takes the baseline of the device
      split at hspec
      · rename_i heq
        rw [heq]
        obtain ⟨hm, hd⟩ := hspec
        show Traced _ _
        rw [hm]
        exact traced_baseline ih ht hd
      · rename_i heq
        rw [heq]
        exact (traced_baseline ih ht hspec).closed
  | push hr sources fates ih =>
      exact tracedHost_run (traced_push c (s := ⟨_, _, fates⟩) ih sources) fun _ _ h => h
  | check hr fates ih =>
      exact tracedHost_run (traced_ensureLineageChecked (s := ⟨_, _, fates⟩) ih) fun _ _ h => h.1
  | kill hr ih => exact Traced.closed ih
  -- the other party only touches the bucket
  | others hr bucket ht ih =>
      rcases ht with ho | hv
      · exact Or.inl ho
      · exact Or.inr (Or.inr hv)

/-- Along every careful run, a passing check says that the newest file of the bucket is one this
lineage uploaded. -/
theorem sharedRun_checkSound {h : Host} (hr : Host.SharedRun c .careful h) : CheckSound h := by
  intro m hm hchecked hexact fates s hok hpass
  have hi := tracedHost_sharedRun hr
  rw [TracedHost, hm] at hi
  have howned : Owned h.dev h.dev.bucket := Traced.owned hi hchecked hpass
  cases hbody : h.dev.bucket.find? h.dev.bucket.maxKey with
  | some body => exact Or.inl ⟨body, rfl, howned body hbody⟩
  | none =>
      right
      refine ⟨SortedMap.find?_eq_none_of_maxKey hbody, ?_⟩
      rw [foreign, if_neg (by rw [hexact]; decide), SortedMap.maxKey_eq_zero hbody] at hpass
      by_contra hne
      exact absurd (decide_eq_true (p := 0 ≠ m.verifiedPos) (Ne.symm hne)) (by rw [hpass]; decide)

/-- The device of a writer that pushed a first transaction and was closed. -/
def onePageDevice : Device :=
  (Host.run (push literalCodec [some onePageSource])
    { verifiedPos := 0, verifiedPosProvisional := false }
    { verifiedPos := some 0 } []).dev

/-- A host that opens its sample device. -/
theorem sharedRun_onePageDevice {T : Terms} (hopens : T.opens {}) :
    Host.SharedRun literalCodec T ⟨none, onePageDevice⟩ :=
  ((Host.SharedRun.start (c := literalCodec) {} rfl rfl).openWriter hopens []).push
    [some onePageSource] [] |>.kill

/-- Reopened on its own bucket, the writer passes the check. -/
theorem sharedRun_checkSound_reopened :
    ∃ m dev, Host.SharedRun literalCodec .careful ⟨some m, dev⟩ ∧ m.verifiedPos = 1 ∧
      dev.bucket.maxKey = 1 ∧ CheckSound ⟨some m, dev⟩ := by
  have hfresh : Terms.careful.opens {} := by
    refine ⟨fun _ => Or.inl fun body hbody => ?_, fun r hr => ?_⟩
    · cases hbody
    · cases hr
  have hreopen : Terms.careful.opens onePageDevice := by
    refine ⟨fun hv => ?_, fun r hr => ?_⟩
    · cases hv
    · cases hr
  have hrun := (sharedRun_onePageDevice hfresh).openWriter hreopen []
  exact ⟨_, _, hrun, rfl, rfl, sharedRun_checkSound hrun⟩

/-- A page of another database. -/
def otherPage : Bytes := List.replicate 512 1

/-- The other writer's header is valid. -/
theorem otherOnePage_valid : (onePageRangeHeader 1 1).validate = .ok () :=
  onePageRangeHeader_valid (by decide) (UInt64.le_refl _)

/-- It commits one page. -/
theorem otherOnePage_commit : (onePageRangeHeader 1 1).commit ≠ 0 := (by decide : (1 : UInt32) ≠ 0)

/-- The first transaction of another database of one page. -/
def otherOnePage : LtxFile where
  hdr := onePageRangeHeader 1 1
  pages := [(1, otherPage)]
  valid := otherOnePage_valid
  pagesOk := by
    have hlock := onePageRangeHeader_lockPgno 1 1
    refine ⟨⟨Nat.one_pos, Nat.le_refl 1, List.length_replicate, by rw [hlock]; decide, ?_⟩, trivial⟩
    rw [SeqOk, hlock]
    split
    · rfl
    · exact Nat.one_pos
  noChecksum := onePageRangeHeader_noChecksum 1 1
  commit_ne_zero := otherOnePage_commit

/-- Another party wipes the bucket and reseeds it up to the verified transaction: the check passes,
and the newest file is not one this lineage uploaded. -/
theorem not_checkSound_of_reseeded :
    ¬ ∀ h, Host.SharedRun literalCodec .anything h → CheckSound h := by
  intro hsound
  have hclosed := sharedRun_onePageDevice (T := .anything) trivial
  have hrun := (hclosed.others (SortedMap.insert .empty 1 (otherOnePage.bytes literalCodec))
    trivial).openWriter trivial []
  rcases hsound _ hrun _ rfl rfl rfl [] _ rfl rfl with ⟨body, hbody, hput⟩ | ⟨hempty, -⟩
  · have hother : otherOnePage.bytes literalCodec = body := Option.some.inj hbody
    have hown : (1, body) = (1, (onePageSource.file 1).bytes literalCodec) :=
      List.mem_singleton.mp hput
    have hsame := hother.trans (Prod.mk.inj hown).2
    -- equal bytes would decode to equal pages
    have hdecode := (otherOnePage.decodeFile_bytes literalCodec_lawful).symm.trans
      ((congrArg (decodeFile literalCodec) hsame).trans
        ((onePageSource.file 1).decodeFile_bytes literalCodec_lawful))
    have hpages : [(1, otherPage)] = [(1, unrepeatedPage)] :=
      congrArg (fun r => r.2.1) (Except.ok.inj hdecode)
    have hpage : otherPage = unrepeatedPage := (Prod.mk.inj (List.cons.inj hpages).1).2
    have hzero : unrepeatedPage.head? = some 0 := by
      rw [unrepeatedPage, List.head?_map, List.head?_range]
      rfl
    rw [← hpage, otherPage, List.replicate_succ, List.head?_cons] at hzero
    exact absurd (Option.some.inj hzero) (by decide)
  · have := hempty 1
    cases this

end Liters
