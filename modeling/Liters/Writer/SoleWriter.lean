import Liters.Writer.Lineage

/-! # A sole writer never forks or tears the chain

With nobody else at the bucket, five things move at different moments: the bucket, the cursor, the
verified position in memory and on disk, and the local level-0 directory. The invariant relates
them: both verified positions are at most the bucket's maximum; whenever the session is checked or
the position in memory is exactly the maximum, the local files continue the bucket without a gap
(`Linked`); a known cursor is the maximum. A lost answer to a PUT leaves the verified position
behind the bucket, so the next check discards the local files before it links them again. -/

namespace Liters

variable {c : Codec}

/-! ## The invariant -/

/-- The bytes of a level-0 file of transaction `t`. -/
def IsL0 (c : Codec) (t : Nat) (body : Bytes) : Prop :=
  ∃ f : LtxFile, body = f.bytes c ∧ f.hdr.maxTxid.toNat = t

/-- The local files continue the bucket. -/
structure Linked (d : Device) : Prop where
  reach : d.bucket.maxKey ≤ d.l0.maxKey
  backlog : ∀ t, d.bucket.maxKey < t → t ≤ d.l0.maxKey → (d.l0.find? t).isSome
  same : ∀ t body, d.l0.find? t = some body → t ≤ d.bucket.maxKey → d.bucket.find? t = some body

/-- What holds of the bucket and the local directory. -/
structure SoleDevice (c : Codec) (d : Device) : Prop where
  gapless : ∀ t, (d.bucket.find? t).isSome ↔ 1 ≤ t ∧ t ≤ d.bucket.maxKey
  remote : ∀ t body, d.bucket.find? t = some body → IsL0 c t body
  locals : ∀ t body, d.l0.find? t = some body → IsL0 c t body
  puts : ∀ t body, (t, body) ∈ d.puts ↔ d.bucket.find? t = some body
  persisted : ∀ t, d.verifiedPos = some t → t ≤ d.bucket.maxKey
  pruned : ∀ t body, (t, body) ∈ d.pruned → d.bucket.find? t = some body

/-- The session is checked, or its baseline is where the bucket ends. -/
def Settled (m : Memory) (d : Device) : Prop :=
  m.lineageChecked ∨ m.verifiedPos = d.bucket.maxKey

/-- What holds of the memory of an open writer. -/
structure SoleMemory (m : Memory) (d : Device) : Prop where
  exact : m.verifiedPosProvisional = false
  verified : m.verifiedPos ≤ d.bucket.maxKey
  persisted : ∃ t, d.verifiedPos = some t ∧ t ≤ m.verifiedPos
  linked : Settled m d → Linked d
  cached : Settled m d → ∀ p, m.cachedPos = some p → d.bucket.maxKey ≤ p ∧ p ≤ d.l0.maxKey
  cursor : ∀ r, m.remoteTxid = some r → r = d.bucket.maxKey ∧ m.verifiedPos = r

/-- The invariant of a running operation. -/
structure Sole (c : Codec) (s : Session) : Prop where
  dev : SoleDevice c s.dev
  mem : SoleMemory s.mem s.dev

/-- The invariant without a writer. A directory without verified-pos file is untouched. -/
structure SoleClosed (c : Codec) (d : Device) : Prop where
  dev : SoleDevice c d
  linked : d.verifiedPos = some d.bucket.maxKey → Linked d
  fresh : d.verifiedPos = none → d.l0.find? d.l0.maxKey = none ∧ d.bucket.maxKey = 0

/-- Losing the memory loses nothing else. -/
theorem Sole.closed {s : Session} (h : Sole c s) : SoleClosed c s.dev where
  dev := h.dev
  linked hv := by
    obtain ⟨t, ht, hle⟩ := h.mem.persisted
    obtain rfl : t = s.dev.bucket.maxKey := Option.some.inj (ht.symm.trans hv)
    exact h.mem.linked (Or.inr (Nat.le_antisymm h.mem.verified hle))
  fresh hv := by
    obtain ⟨t, ht, -⟩ := h.mem.persisted
    rw [hv] at ht
    cases ht

/-- An operation stops with the invariant. -/
abbrev StopsSole (c : Codec) : Stop → Session → Prop := fun _ s => Sole c s

/-! ## The local position and the WAL conversion -/

/-- The newest local file gives the position. -/
theorem metaPos_spec (hc : c.Lawful) {s : Session} (h : Sole c s) :
    Spec (metaPos c) s (fun p s' => s'.mem = s.mem ∧ s'.dev = s.dev ∧ p = s.dev.l0.maxKey)
      (StopsSole c) := by
  unfold metaPos
  refine (spec_readOnly (Q := fun _ s' => s'.mem = s.mem ∧ s'.dev = s.dev) (fun _ => ⟨rfl, rfl⟩)
    fun _ _ => ⟨h.dev, h.mem⟩).bind ?_
  rintro - s' ⟨hm, hd⟩
  have h' : Sole c s' := ⟨hd ▸ h.dev, hm ▸ hd ▸ h.mem⟩
  rw [spec_bind, spec_get]
  cases hf : s'.dev.l0.find? s'.dev.l0.maxKey with
  | none =>
      have hzero := SortedMap.maxKey_eq_zero hf
      simp only [hf, spec_pure]
      exact ⟨hm, hd, by rw [← hd, hzero]⟩
  | some body =>
      obtain ⟨f, hbody, hmax⟩ := h'.dev.locals _ _ hf
      obtain ⟨index, hverify⟩ := f.verifyFile_bytes hc
      simp only [hf, hbody, hverify, spec_pure]
      exact ⟨hm, hd, by rw [hmax, hd]⟩

/-- Caching the position keeps the invariant. -/
theorem pos_spec (hc : c.Lawful) {s : Session} (h : Sole c s) :
    Spec (pos c) s (fun p s' => Sole c s' ∧ s'.dev = s.dev ∧
      s'.mem = { s.mem with cachedPos := some p }) (StopsSole c) := by
  unfold pos
  rw [spec_bind, spec_get]
  cases hp : s.mem.cachedPos with
  | some p =>
      simp only [spec_pure]
      refine ⟨h, trivial, ?_⟩
      rw [← hp]
  | none =>
      simp only
      refine (metaPos_spec hc h).bind ?_
      rintro p s' ⟨hm, hd, rfl⟩
      rw [spec_bind, spec_modify, spec_pure]
      simp only [Session.setMem, hm, hd]
      refine ⟨⟨h.dev, ?_⟩, trivial, trivial⟩
      obtain ⟨h1, h2, h3, h4, h5, h6⟩ := h.mem
      refine ⟨h1, h2, h3, h4, fun hs p hp => ?_, h6⟩
      obtain rfl := Option.some.inj hp
      exact ⟨(h4 hs).reach, Nat.le_refl _⟩

/-- A new local file behind the position continues the chain. -/
theorem Sole.putL0 {s : Session} (h : Sole c s) {p : Nat} {body : Bytes}
    (hp : s.mem.cachedPos = some p) (hbody : IsL0 c (p + 1) body) :
    Sole c (s.putL0 (p + 1) body) ∧ Sole c ((s.putL0 (p + 1) body).setMem fun m =>
      { m with cachedPos := some (p + 1) }) := by
  -- the new file ends the local files
  have hmax : (s.dev.l0.insert (p + 1) body).maxKey = max s.dev.l0.maxKey (p + 1) :=
    SortedMap.maxKey_insert ..
  have hdev : SoleDevice c (s.putL0 (p + 1) body).dev := by
    refine ⟨h.dev.gapless, h.dev.remote, fun t x hx => ?_, h.dev.puts, h.dev.persisted,
      h.dev.pruned⟩
    simp only [Session.putL0, SortedMap.find?_insert] at hx
    split at hx
    · rename_i ht
      exact ht ▸ Option.some.inj hx ▸ hbody
    · exact h.dev.locals t x hx
  have hlinked : Settled s.mem s.dev → Linked (s.putL0 (p + 1) body).dev := by
    intro hs
    obtain ⟨hreach, hbacklog, hsame⟩ := h.mem.linked hs
    obtain ⟨hlo, hhi⟩ := h.mem.cached hs p hp
    refine ⟨?_, fun t h1 h2 => ?_, fun t x hx ht => ?_⟩
    · simp only [Session.putL0, hmax]
      omega
    · simp only [Session.putL0, hmax, SortedMap.find?_insert] at h1 h2 ⊢
      split
      · rfl
      · exact hbacklog t h1 (by omega)
    · -- files up to the bucket's maximum are not touched
      simp only [Session.putL0, SortedMap.find?_insert] at hx ht ⊢
      split at hx
      · omega
      · exact hsame t x hx ht
  obtain ⟨h1, h2, h3, h4, h5, h6⟩ := h.mem
  have hcached : Settled s.mem s.dev → s.dev.bucket.maxKey ≤ p ∧
      p + 1 ≤ (s.putL0 (p + 1) body).dev.l0.maxKey := by
    intro hs
    refine ⟨(h5 hs p hp).1, ?_⟩
    simp only [Session.putL0, hmax]
    omega
  -- with the position cached before the file and after it
  refine ⟨⟨hdev, h1, h2, h3, hlinked, fun hs q hq => ?_, h6⟩,
    hdev, h1, h2, h3, hlinked, fun hs q hq => ?_, h6⟩
  · obtain rfl : p = q := Option.some.inj (hp.symm.trans hq)
    exact ⟨(hcached hs).1, Nat.le_of_succ_le (hcached hs).2⟩
  · obtain rfl := Option.some.inj hq
    exact ⟨Nat.le_succ_of_le (hcached hs).1, (hcached hs).2⟩

/-- The flag of the last conversion does not matter here. -/
theorem Sole.setWalEnd {s : Session} (h : Sole c s) (b : Bool) :
    Sole c (s.setMem fun m => { m with syncedToWalEnd := b }) := by
  obtain ⟨h1, h2, h3, h4, h5, h6⟩ := h.mem
  exact ⟨h.dev, h1, h2, h3, h4, h5, h6⟩

/-- Forgetting the cached position changes nothing else. -/
theorem Sole.forgetPos {s : Session} (h : Sole c s) :
    Sole c (s.setMem fun m => { m with cachedPos := none }) := by
  obtain ⟨h1, h2, h3, h4, -, h6⟩ := h.mem
  refine ⟨h.dev, h1, h2, h3, h4, fun _ p hp => ?_, h6⟩
  cases hp

/-- A WAL conversion keeps the invariant, however it ends. -/
theorem sync_spec (hc : c.Lawful) {s : Session} (h : Sole c s) (source : Option SyncSource) :
    Spec (sync c source) s (fun _ s' => Sole c s') (StopsSole c) := by
  cases source with
  | none =>
      unfold sync
      refine (pos_spec hc h).bind ?_
      rintro p s' ⟨h', -⟩
      exact spec_readOnly (fun _ => ⟨h'.dev, h'.mem⟩) fun _ _ => ⟨h'.dev, h'.mem⟩
  | some source =>
      unfold sync
      refine (pos_spec hc h).bind ?_
      rintro p s' ⟨h', -, hm⟩
      have hp : s'.mem.cachedPos = some p := by rw [hm]
      -- the source has one more transaction to give, up to the last TXID
      split
      · rename_i hlt
        have hbody : IsL0 c (p + 1) ((source.file (p + 1)).bytes c) :=
          ⟨_, rfl, (source.txid (p + 1) (Nat.le_add_left 1 p) hlt).2⟩
        refine spec_effect (fun fates => ?_) fun stop part fates => ?_
        · have hs : Sole c { s' with fates } := ⟨h'.dev, h'.mem⟩
          exact ((hs.putL0 hp hbody).2).setWalEnd source.walEnd
        · -- a failed write may have made the file all the same
          have hs : Sole c { s' with fates } := ⟨h'.dev, h'.mem⟩
          show Sole c _
          split
          · exact (hs.putL0 hp hbody).1
          · split
            · exact hs.forgetPos
            · exact hs
      · exact h'

/-- **Several syncs** keep the writer the sole one. -/
theorem syncAll_spec (hc : c.Lawful) {s : Session} (h : Sole c s)
    (sources : List (Option SyncSource)) :
    Spec (syncAll c sources) s (fun _ s' => Sole c s') (StopsSole c) := by
  induction sources generalizing s with
  | nil => exact h
  | cons source sources ih =>
      unfold syncAll
      exact (sync_spec hc h source).bind fun _ s' h' => ih h'

/-! ## The lineage check -/

/-- A session that is unsettled: the check is still to come and will find foreign data. -/
def Unsettled (s : Session) : Prop :=
  s.mem.lineageChecked = false ∧ s.mem.verifiedPos ≠ s.dev.bucket.maxKey

/-- What is unsettled is not settled. -/
theorem Unsettled.not_settled {s : Session} (h : Unsettled s) : ¬ Settled s.mem s.dev := by
  rintro (hc | hv)
  · rw [h.1] at hc
    cases hc
  · exact h.2 hv

/-- While it is unsettled, a session may change its local files in any way. -/
theorem Sole.setL0 {s : Session} (h : Sole c s) (hu : Unsettled s) {l0 : SortedMap Bytes}
    (hl0 : ∀ t body, l0.find? t = some body → IsL0 c t body) :
    Sole c { s with dev := { s.dev with l0 } } ∧ Unsettled { s with dev := { s.dev with l0 } } := by
  obtain ⟨h1, h2, h3, -, -, h6⟩ := h.mem
  exact ⟨⟨⟨h.dev.gapless, h.dev.remote, hl0, h.dev.puts, h.dev.persisted, h.dev.pruned⟩, h1, h2, h3,
    fun hs => absurd hs hu.not_settled, fun hs => absurd hs hu.not_settled, h6⟩, hu⟩

/-- Removing local files leaves an unsettled sole writer. -/
theorem Sole.removeL0 {s : Session} (h : Sole c s) (hu : Unsettled s) (p : Nat → Bool) :
    Sole c (s.removeL0 p) ∧ Unsettled (s.removeL0 p) := by
  refine h.setL0 hu fun t body ht => ?_
  rw [SortedMap.find?_filterKeys] at ht
  split at ht
  · exact h.dev.locals t body ht
  · cases ht

/-- What the rebaseline leaves: the newest file of the bucket, alone. -/
structure Rebased (s : Session) : Prop where
  l0 : ∀ t, s.dev.l0.find? t = if t = s.dev.bucket.maxKey then s.dev.bucket.find? t else none
  pos : s.mem.cachedPos = none

/-- Adopting the newest file of the bucket. -/
theorem rebaselineFromRemote_spec {s : Session} (h : Sole c s) (hu : Unsettled s) :
    Spec (rebaselineFromRemote s.dev.bucket.maxKey) s
      (fun _ s' => Sole c s' ∧ Unsettled s' ∧ Rebased s' ∧ s'.dev.bucket = s.dev.bucket)
      (StopsSole c) := by
  unfold rebaselineFromRemote
  refine (spec_readOnly (Q := fun _ s' => s'.mem = s.mem ∧ s'.dev = s.dev) (fun _ => ⟨rfl, rfl⟩)
    fun _ _ => ⟨h.dev, h.mem⟩).bind ?_
  rintro - s₁ ⟨hm₁, hd₁⟩
  have h₁ : Sole c s₁ := ⟨hd₁ ▸ h.dev, hm₁ ▸ hd₁ ▸ h.mem⟩
  have hu₁ : Unsettled s₁ := by rw [Unsettled, hm₁, hd₁]; exact hu
  -- the directory is wiped, in any order
  refine (spec_effect (Q := fun _ s' => Sole c s' ∧ Unsettled s' ∧ s'.dev.bucket = s.dev.bucket ∧
    ∀ t, s'.dev.l0.find? t = none) (fun fates => ?_) fun stop part fates => ?_).bind ?_
  · have hf : Sole c { s₁ with fates } := ⟨h₁.dev, h₁.mem⟩
    obtain ⟨h2, h3⟩ := hf.removeL0 hu₁ fun _ => true
    refine ⟨h2, h3, by rw [← hd₁]; rfl, fun t => ?_⟩
    simp [Session.removeL0]
  · have hf : Sole c { s₁ with fates } := ⟨h₁.dev, h₁.mem⟩
    exact (hf.removeL0 hu₁ part).1
  rintro - s₂ ⟨h₂, hu₂, hb₂, hempty⟩
  rw [spec_bind, spec_modify]
  have hforget := h₂.forgetPos
  refine Spec.bind (Q := fun _ s' => Sole c s' ∧ Unsettled s' ∧
    s'.dev.bucket = s.dev.bucket ∧ ∀ t, s'.dev.l0.find? t = none)
    (spec_readOnly (fun _ => ⟨⟨hforget.dev, hforget.mem⟩, hu₂, hb₂, hempty⟩)
      fun _ _ => ⟨hforget.dev, hforget.mem⟩) ?_
  rintro - s₃ ⟨h₃, hu₃, hb₃, hempty₃⟩
  rw [spec_bind, spec_get]
  cases hbody : s₃.dev.bucket.find? s.dev.bucket.maxKey with
  | none => exact h₃
  | some body =>
      have hl0 : IsL0 c s.dev.bucket.maxKey body := h₃.dev.remote _ _ hbody
      have hinsert : ∀ t x, (s₃.dev.l0.insert s.dev.bucket.maxKey body).find? t = some x →
          IsL0 c t x := by
        intro t x hx
        rw [SortedMap.find?_insert] at hx
        split at hx
        · rename_i ht
          exact ht ▸ Option.some.inj hx ▸ hl0
        · rw [hempty₃] at hx
          cases hx
      refine (spec_effect (Q := fun _ s' => Sole c s' ∧ Unsettled s' ∧
        s'.dev.bucket = s.dev.bucket ∧ ∀ t, s'.dev.l0.find? t
          = if t = s.dev.bucket.maxKey then s.dev.bucket.find? t else none)
        (fun fates => ?_) fun stop part fates => ?_).bind ?_
      · have hf : Sole c { s₃ with fates } := ⟨h₃.dev, h₃.mem⟩
        obtain ⟨h4, h5⟩ := hf.setL0 hu₃ hinsert
        refine ⟨h4, h5, hb₃, fun t => ?_⟩
        simp only [Session.putL0, SortedMap.find?_insert, hempty₃]
        by_cases ht : t = s.dev.bucket.maxKey
        · rw [if_pos ht, if_pos ht, ht, ← hb₃, hb₃, ← hbody, hb₃]
        · rw [if_neg ht, if_neg ht]
      · have hf : Sole c { s₃ with fates } := ⟨h₃.dev, h₃.mem⟩
        show Sole c _
        split
        · exact (hf.setL0 hu₃ hinsert).1
        · exact hf
      rintro - s₄ ⟨h₄, hu₄, hb₄, hl0₄⟩
      rw [spec_bind, spec_modify, spec_modify]
      have h₅ := h₄.forgetPos.setWalEnd false
      refine ⟨⟨⟨h₄.dev.gapless, h₄.dev.remote, h₄.dev.locals, h₄.dev.puts, h₄.dev.persisted,
        h₄.dev.pruned⟩, ?_⟩, hu₄, ⟨fun t => ?_, rfl⟩, hb₄⟩
      · obtain ⟨h1, h2, h3, h4, h5, h6⟩ := h₅.mem
        exact ⟨h1, h2, h3, fun hs => absurd hs hu₄.not_settled,
          fun hs => absurd hs hu₄.not_settled, h6⟩
      · show s₄.dev.l0.find? t = if t = s₄.dev.bucket.maxKey then s₄.dev.bucket.find? t else none
        rw [hl0₄, hb₄]

/-- The newest file of the bucket, alone, continues the bucket. -/
theorem Rebased.linked {s : Session} (h : Sole c s) (hr : Rebased s)
    (hpos : 1 ≤ s.dev.bucket.maxKey) :
    Linked s.dev := by
  have hsome : (s.dev.bucket.find? s.dev.bucket.maxKey).isSome :=
    (h.dev.gapless _).mpr ⟨hpos, Nat.le_refl _⟩
  have hmax : s.dev.l0.maxKey = s.dev.bucket.maxKey := by
    refine SortedMap.maxKey_eq (by rw [hr.l0, if_pos rfl]; exact hsome) fun t ht => ?_
    rw [hr.l0] at ht
    split at ht
    · rename_i heq
      exact heq.le
    · cases ht
  refine ⟨hmax.ge, fun t h1 h2 => by omega, fun t body hbody _ => ?_⟩
  rw [hr.l0] at hbody
  split at hbody
  · exact hbody
  · cases hbody

/-- The verified-pos file may take the position in memory, or miss it. -/
theorem writeVerifiedPos_spec {s : Session} (h : Sole c s) :
    Spec (writeVerifiedPos s.mem.verifiedPos) s
      (fun _ s' => Sole c s' ∧ s'.mem = s.mem ∧ s'.dev.bucket = s.dev.bucket ∧
        s'.dev.l0 = s.dev.l0) (StopsSole c) := by
  have hpersist : ∀ fates, Sole c (Session.persist s.mem.verifiedPos { s with fates }) := by
    intro fates
    obtain ⟨h1, h2, h3, h4, h5, h6⟩ := h.mem
    refine ⟨⟨h.dev.gapless, h.dev.remote, h.dev.locals, h.dev.puts, fun t ht => ?_, h.dev.pruned⟩,
      h1, h2, ⟨_, rfl, Nat.le_refl _⟩, fun hs => ?_, h5, h6⟩
    · obtain rfl := Option.some.inj ht
      exact h2
    · obtain ⟨hreach, hbacklog, hsame⟩ := h4 hs
      exact ⟨hreach, hbacklog, hsame⟩
  have hkeep : ∀ fates, Sole c { s with fates } := fun _ => ⟨h.dev, h.mem⟩
  refine spec_bestEffort (fun fates => ⟨hpersist fates, rfl, rfl, rfl⟩) (fun part fates => ?_)
    fun part fates => ?_
  · split
    · exact ⟨hpersist fates, rfl, rfl, rfl⟩
    · exact ⟨hkeep fates, rfl, rfl, rfl⟩
  · show Sole c _
    split
    · exact hpersist fates
    · exact hkeep fates

/-- What a passed or repaired check establishes. -/
structure Aligned (c : Codec) (s : Session) : Prop extends Sole c s where
  aligned : s.mem.verifiedPos = s.dev.bucket.maxKey

/-- Foreign data in a sole writer's bucket is an own upload whose answer was lost. -/
theorem acceptForeign_spec {s : Session} (h : Sole c s) (hu : Unsettled s) :
    Spec (acceptForeign s.dev.bucket.maxKey) s
      (fun _ s' => Aligned c s' ∧ s'.dev.bucket = s.dev.bucket) (StopsSole c) := by
  have hlt : s.mem.verifiedPos < s.dev.bucket.maxKey := by
    have := h.mem.verified
    have := hu.2
    omega
  -- the bucket is ahead of the verified position, so it has a newest file
  have hsome : (s.dev.bucket.find? s.dev.bucket.maxKey).isSome :=
    (h.dev.gapless _).mpr ⟨by omega, Nat.le_refl _⟩
  obtain ⟨body, hbody⟩ := Option.isSome_iff_exists.mp hsome
  unfold acceptForeign discardLocal
  rw [spec_bind, spec_bind, spec_get]
  simp only [hbody]
  refine (rebaselineFromRemote_spec h hu).mono ?_ fun _ _ hs => hs
  rintro - s₁ ⟨h₁, hu₁, hr₁, hb₁⟩
  rw [spec_bind, spec_modify]
  -- the local files are that file alone now
  have hlink : Linked s₁.dev := hr₁.linked h₁ (by rw [hb₁]; omega)
  have h₂ : Sole c (s₁.setMem fun m => { m with verifiedPos := s.dev.bucket.maxKey }) := by
    obtain ⟨h1, h2, ⟨t, ht, hle⟩, h4, h5, h6⟩ := h₁.mem
    refine ⟨h₁.dev, h1, hb₁ ▸ Nat.le_refl _, ⟨t, ht, ?_⟩, fun _ => hlink, fun _ p hp => ?_,
      fun r hr => ?_⟩
    · exact hb₁ ▸ h₁.dev.persisted t ht
    · rw [show (s₁.setMem _).mem.cachedPos = s₁.mem.cachedPos from rfl, hr₁.pos] at hp
      cases hp
    · -- an unsettled session knows no cursor
      obtain ⟨hr1, hr2⟩ := h6 r hr
      exact absurd (hr2.trans hr1) hu₁.2
  refine (writeVerifiedPos_spec h₂).mono ?_ fun _ _ hs => hs
  rintro - s₃ ⟨h₃, hm₃, hb₃, -⟩
  have hbucket : s₃.dev.bucket = s.dev.bucket := hb₃.trans hb₁
  exact ⟨⟨h₃, by rw [hm₃, hbucket]; rfl⟩, hbucket⟩

/-- Own data. -/
theorem acceptOwn_spec {s : Session} (h : Sole c s)
    (hv : s.mem.verifiedPos = s.dev.bucket.maxKey) :
    Spec (acceptOwn s.dev.bucket.maxKey) s
      (fun _ s' => Aligned c s' ∧ s'.dev.bucket = s.dev.bucket) (StopsSole c) := by
  unfold acceptOwn
  have hmem : s.setMem (fun m => { m with verifiedPos := s.dev.bucket.maxKey }) = s := by
    rw [Session.setMem, ← hv]
  rw [spec_bind, spec_modify, hmem, spec_bind, spec_get]
  split
  · exact ⟨⟨h, hv⟩, rfl⟩
  · rw [← hv]
    refine (writeVerifiedPos_spec h).mono ?_ fun _ _ hs => hs
    rintro - s' ⟨h', hm, hb, -⟩
    exact ⟨⟨h', by rw [hm, hb, hv]⟩, hb⟩

/-- After the check the session is settled and its cursor is where the bucket ends. -/
theorem ensureLineageChecked_spec {s : Session} (h : Sole c s) :
    Spec ensureLineageChecked s
      (fun _ s' => Sole c s' ∧ s'.mem.lineageChecked ∧ s'.dev.bucket = s.dev.bucket)
      (StopsSole c) := by
  unfold ensureLineageChecked
  rw [spec_bind, spec_get]
  split
  · rename_i hchecked
    exact ⟨h, hchecked, rfl⟩
  rename_i hchecked
  refine Spec.bind (Q := fun _ s' => s'.mem = s.mem ∧ s'.dev = s.dev)
    (spec_readOnly (fun _ => ⟨rfl, rfl⟩) fun _ _ => ⟨h.dev, h.mem⟩) ?_
  rintro - s₁ ⟨hm₁, hd₁⟩
  have h₁ : Sole c s₁ := ⟨hd₁ ▸ h.dev, hm₁ ▸ hd₁ ▸ h.mem⟩
  unfold listBucketMax
  rw [spec_bind, spec_bind]
  refine spec_readOnly (fun fates => ?_) fun _ _ => ⟨h₁.dev, h₁.mem⟩
  rw [spec_bind, spec_get, spec_pure, spec_bind]
  have h₂ : Sole c { s₁ with fates } := ⟨h₁.dev, h₁.mem⟩
  -- either way the baseline is where the bucket ends
  have hsettle : Spec (settleLineage s₁.dev.bucket.maxKey) { s₁ with fates }
      (fun _ s' => Aligned c s' ∧ s'.dev.bucket = s₁.dev.bucket) (StopsSole c) := by
    unfold settleLineage
    rw [spec_bind, spec_get]
    have hforeign : foreign s₁.mem s₁.dev.bucket.maxKey
        = decide (s₁.dev.bucket.maxKey ≠ s₁.mem.verifiedPos) := by
      rw [foreign, h₁.mem.exact]
      rfl
    split
    · rename_i hf
      rw [hforeign, decide_eq_true_eq] at hf
      refine acceptForeign_spec h₂ ⟨?_, fun he => hf he.symm⟩
      show s₁.mem.lineageChecked = false
      rw [hm₁]
      exact Bool.eq_false_iff.mpr hchecked
    · rename_i hf
      rw [hforeign, decide_eq_true_eq, not_not] at hf
      exact acceptOwn_spec h₂ hf.symm
  refine hsettle.mono ?_ fun _ _ hs => hs
  rintro - s₃ ⟨⟨h₃, hv₃⟩, hb₃⟩
  rw [spec_modify]
  obtain ⟨h1, h2, h3, h4, h5, h6⟩ := h₃.mem
  have hset : Settled s₃.mem s₃.dev := Or.inr hv₃
  refine ⟨⟨h₃.dev, rfl, h2, h3, fun _ => h4 hset, fun _ => h5 hset, fun r hr => ?_⟩, rfl, ?_⟩
  · obtain rfl := Option.some.inj hr
    have hb : s₁.dev.bucket.maxKey = s₃.dev.bucket.maxKey := by rw [hb₃]
    exact ⟨hb, hv₃.trans hb.symm⟩
  · show s₃.dev.bucket = s.dev.bucket
    rw [hb₃, hd₁]

/-! ## Uploads -/

/-- Forgetting the bucket keeps the writer the sole one. -/
theorem Sole.forgetRemote {s : Session} (h : Sole c s) : Sole c (forgetRemote s) := by
  obtain ⟨h1, h2, h3, h4, h5, -⟩ := h.mem
  refine ⟨h.dev, h1, h2, h3, h4, h5, fun r hr => ?_⟩
  cases hr

/-- The next file in the bucket: its key is new, and the local files still continue the bucket. -/
theorem Sole.put {s : Session} (h : Sole c s) (hchecked : s.mem.lineageChecked) {body : Bytes}
    (hbody : s.dev.l0.find? (s.dev.bucket.maxKey + 1) = some body) :
    SoleDevice c (s.put (s.dev.bucket.maxKey + 1) body).dev ∧
      Linked (s.put (s.dev.bucket.maxKey + 1) body).dev ∧
      (s.put (s.dev.bucket.maxKey + 1) body).dev.bucket.maxKey = s.dev.bucket.maxKey + 1 := by
  set b := s.dev.bucket.maxKey with hb
  -- the PUT lands right behind the bucket's end
  have hmax : (s.dev.bucket.insert (b + 1) body).maxKey = b + 1 := by
    rw [SortedMap.maxKey_insert]
    omega
  have hfind : ∀ t, (s.dev.bucket.insert (b + 1) body).find? t
      = if t = b + 1 then some body else s.dev.bucket.find? t := SortedMap.find?_insert _ _ _
  have hnew : s.dev.bucket.find? (b + 1) = none := by
    cases hx : s.dev.bucket.find? (b + 1) with
    | none => rfl
    | some x =>
        have := ((h.dev.gapless (b + 1)).mp (by rw [hx]; rfl)).2
        omega
  have hold : ∀ t x, s.dev.bucket.find? t = some x → t ≠ b + 1 := by
    intro t x hx ht
    rw [ht, hnew] at hx
    cases hx
  obtain ⟨hreach, hbacklog, hsame⟩ := h.mem.linked (Or.inl hchecked)
  have hlocal : b + 1 ≤ s.dev.l0.maxKey := SortedMap.le_maxKey (by rw [hbody]; rfl)
  refine ⟨⟨fun t => ?_, fun t x hx => ?_, h.dev.locals, fun t x => ?_, fun t ht => ?_,
    fun t x hx => ?_⟩, ⟨?_, fun t h1 h2 => ?_, fun t x hx ht => ?_⟩, hmax⟩
  · -- the bucket stays without gaps
    have hgap := h.dev.gapless t
    simp only [Session.put, hfind, hmax]
    split
    · simp only [Option.isSome_some, true_iff]
      omega
    · rw [hgap]
      omega
  · -- every body in it is an L0 file
    simp only [Session.put, hfind] at hx
    split at hx
    · rename_i ht
      exact ht ▸ Option.some.inj hx ▸ h.dev.locals _ _ hbody
    · exact h.dev.remote t x hx
  · -- the PUTs are the files of the bucket
    have hputs := h.dev.puts t x
    simp only [Session.put, hfind, List.mem_cons, Prod.mk.injEq, hputs]
    constructor
    · rintro (⟨ht, hx⟩ | hx)
      · rw [if_pos ht, hx]
      · rw [if_neg (hold t x hx), hx]
    · intro hx
      split at hx
      · rename_i ht
        exact Or.inl ⟨ht, (Option.some.inj hx).symm⟩
      · exact Or.inr hx
  · have := h.dev.persisted t ht
    show t ≤ (s.dev.bucket.insert (b + 1) body).maxKey
    omega
  · -- what was pruned locally is in the bucket
    have hx' := h.dev.pruned t x hx
    simp only [Session.put, hfind]
    rw [if_neg (hold t x hx'), hx']
  · show (s.dev.bucket.insert (b + 1) body).maxKey ≤ s.dev.l0.maxKey
    omega
  · -- the backlog is one file shorter
    simp only [Session.put, hmax] at h1 h2 ⊢
    exact hbacklog t (by omega) h2
  · -- up to the new end, local and remote bodies agree
    simp only [Session.put, hfind, hmax] at hx ht ⊢
    split
    · rename_i heq
      rw [heq, hbody] at hx
      exact hx
    · exact hsame t x hx (by omega)

/-- Where the upload stands: checked, with a known cursor and position. -/
structure Uploading (c : Codec) (cursor p : Nat) (s : Session) : Prop extends Sole c s where
  checked : s.mem.lineageChecked
  remote : s.mem.remoteTxid = some cursor
  cachedPos : s.mem.cachedPos = some p

/-- One file further, with its answer. -/
theorem advance_spec {s : Session} {cursor p : Nat} {body : Bytes} (h : Uploading c cursor p s)
    (hbody : s.dev.l0.find? (cursor + 1) = some body) (hp : cursor + 1 ≤ p) :
    Spec (advanceVerified (cursor + 1))
      ((s.put (cursor + 1) body).setMem fun m => { m with remoteTxid := some (cursor + 1) })
      (fun _ s' => Uploading c (cursor + 1) p s') (StopsSole c) := by
  obtain ⟨hcur, hver⟩ := h.mem.cursor cursor h.remote
  subst hcur
  obtain ⟨hdev, hlink, hmax⟩ := h.toSole.put h.checked hbody
  obtain ⟨h1, h2, ⟨t, ht, hle⟩, h4, h5, h6⟩ := h.mem
  unfold advanceVerified
  rw [spec_bind, spec_get]
  -- the verified position was the old cursor, so it moves
  have hmoves : ((s.put (s.dev.bucket.maxKey + 1) body).setMem fun m =>
      { m with remoteTxid := some (s.dev.bucket.maxKey + 1) }).mem.verifiedPos
      < s.dev.bucket.maxKey + 1 := by
    show s.mem.verifiedPos < s.dev.bucket.maxKey + 1
    omega
  rw [if_pos hmoves, spec_bind, spec_modify]
  have hnew : Sole c (((s.put (s.dev.bucket.maxKey + 1) body).setMem fun m =>
      { m with remoteTxid := some (s.dev.bucket.maxKey + 1) }).setMem fun m =>
      { m with verifiedPos := s.dev.bucket.maxKey + 1 }) := by
    refine ⟨hdev, h1, hmax.ge, ⟨t, ht, ?_⟩, fun _ => hlink, fun _ q hq => ?_, fun r hr => ?_⟩
    · show t ≤ s.dev.bucket.maxKey + 1
      omega
    · obtain rfl : p = q := Option.some.inj (h.cachedPos.symm.trans hq)
      exact ⟨hmax.trans_le hp, (h5 (Or.inl h.checked) p h.cachedPos).2⟩
    · obtain rfl := Option.some.inj hr
      exact ⟨hmax.symm, rfl⟩
  refine (writeVerifiedPos_spec hnew).mono ?_ fun _ _ hs => hs
  rintro - s' ⟨h', hm', -, -⟩
  exact ⟨h', by rw [hm']; exact h.checked, by rw [hm']; rfl, by rw [hm']; exact h.cachedPos⟩

/-- **The upload loop** goes on up to the writer's position. -/
theorem uploadLoop_spec {n cursor p : Nat} {s : Session} (h : Uploading c cursor p s)
    (hn : n + cursor = p) :
    Spec (uploadLoop n cursor) s (fun r s' => Uploading c r p s') (StopsSole c) := by
  induction n generalizing cursor s with
  | zero => exact h
  | succ n ih =>
      unfold uploadLoop
      -- the cancellation check in front of each PUT
      refine Spec.bind (Q := fun _ s' => s'.mem = s.mem ∧ s'.dev = s.dev)
        (spec_effect (fun _ => ⟨rfl, rfl⟩) fun _ _ fates => ?_) ?_
      · have hf : Sole c { s with fates } := ⟨h.dev, h.mem⟩
        exact hf.forgetRemote
      rintro - s₁ ⟨hm₁, hd₁⟩
      have h₁ : Uploading c cursor p s₁ :=
        ⟨⟨hd₁ ▸ h.dev, hm₁ ▸ hd₁ ▸ h.mem⟩, hm₁ ▸ h.checked, hm₁ ▸ h.remote, hm₁ ▸ h.cachedPos⟩
      rw [spec_bind, spec_get]
      cases hbody : s₁.dev.l0.find? (cursor + 1) with
      -- no such local file: what was known of the bucket is forgotten
      | none =>
          rw [spec_bind, spec_modify, spec_throw]
          exact h₁.toSole.forgetRemote
      | some body =>
          have hcur := (h₁.mem.cursor cursor h₁.remote).1
          rw [spec_bind]
          refine spec_effect (fun fates => ?_) fun stop part fates => ?_
          · rw [spec_bind, spec_modify, spec_bind]
            have hf : Uploading c cursor p { s₁ with fates } :=
              ⟨⟨h₁.dev, h₁.mem⟩, h₁.checked, h₁.remote, h₁.cachedPos⟩
            exact (advance_spec hf hbody (by omega)).mono (fun _ s' h' => ih h' (by omega))
              fun _ _ hs => hs
          · -- a failed PUT may have reached the bucket
            have hf : Sole c { s₁ with fates } := ⟨h₁.dev, h₁.mem⟩
            show Sole c _
            split
            · subst hcur
              obtain ⟨hdev, hlink, hmax⟩ := hf.put h₁.checked hbody
              obtain ⟨h1, h2, h3, h4, h5, h6⟩ := h₁.mem
              refine ⟨hdev, h1, ?_, h3, fun _ => hlink, fun _ q hq => ?_, fun r hr => ?_⟩
              · exact h2.trans (hmax.ge.trans' (Nat.le_succ _))
              · obtain rfl : p = q := Option.some.inj (h₁.cachedPos.symm.trans hq)
                have hle : s₁.dev.bucket.maxKey + 1 ≤ p := by omega
                exact ⟨hmax.trans_le hle, (h5 (Or.inl h₁.checked) p h₁.cachedPos).2⟩
              · cases hr
            · exact hf.forgetRemote

/-- Where the upload starts: where the bucket ends. -/
theorem remoteCursor_spec {s : Session} (h : Sole c s) (hchecked : s.mem.lineageChecked) :
    Spec remoteCursor s
      (fun r s' => Sole c s' ∧ s'.mem.lineageChecked ∧ s'.mem.remoteTxid = some r)
      (StopsSole c) := by
  unfold remoteCursor
  rw [spec_bind, spec_get]
  cases hr : s.mem.remoteTxid with
  -- the end of the bucket is known from this session
  | some t => exact ⟨h, hchecked, hr⟩
  | none =>
      show Spec (listBucketMax >>= _) s _ _
      unfold listBucketMax
      rw [spec_bind, spec_bind]
      -- it is listed
      refine spec_readOnly (fun fates => ?_) fun _ _ => ⟨h.dev, h.mem⟩
      rw [spec_bind, spec_get, spec_pure, spec_bind, spec_get]
      obtain ⟨h1, h2, h3, h4, h5, h6⟩ := h.mem
      dsimp only
      split
      · rename_i heq
        rw [spec_bind, spec_modify, spec_pure]
        refine ⟨⟨h.dev, h1, h2, h3, h4, h5, fun r hr => ?_⟩, hchecked, rfl⟩
        obtain rfl := Option.some.inj hr
        exact ⟨rfl, heq.symm⟩
      · -- the answer to an own PUT was lost: the session is unchecked from here on
        rw [spec_bind, spec_modify, spec_throw]
        have hset : ∀ m : Memory, Settled { m with lineageChecked := false } s.dev →
            Settled m s.dev := by
          rintro m (hc | hv)
          · cases hc
          · exact Or.inr hv
        exact ⟨h.dev, h1, h2, h3, fun hs => h4 (hset _ hs), fun hs => h5 (hset _ hs), h6⟩

/-- After an upload the cursor is where the bucket ends. -/
theorem uploadL0_spec (hc : c.Lawful) {s : Session} (h : Sole c s)
    (hchecked : s.mem.lineageChecked) :
    Spec (uploadL0 c) s (fun r s' => ∃ p, Uploading c r p s') (StopsSole c) := by
  unfold uploadL0
  refine (remoteCursor_spec h hchecked).bind ?_
  rintro r s₁ ⟨h₁, hchecked₁, hr₁⟩
  refine (pos_spec hc h₁).bind ?_
  rintro p s₂ ⟨h₂, hd₂, hm₂⟩
  have hup : Uploading c r p s₂ :=
    ⟨h₂, by rw [hm₂]; exact hchecked₁, by rw [hm₂]; exact hr₁, by rw [hm₂]⟩
  -- the position is not behind the bucket
  have hle : r ≤ p := by
    rw [(hup.mem.cursor r hup.remote).1]
    exact (hup.mem.cached (Or.inl hup.checked) p hup.cachedPos).1
  exact (uploadLoop_spec hup (by omega)).mono (fun _ _ h' => ⟨p, h'⟩) fun _ _ hs => hs

/-- Pruning below the end of the bucket, the newest file excepted, removes uploaded files only. -/
theorem Sole.prune {s : Session} (h : Sole c s) (hchecked : s.mem.lineageChecked) {p : Nat → Bool}
    (hp : ∀ t, p t → t < s.dev.bucket.maxKey ∧ t ≠ s.dev.l0.maxKey) : Sole c (s.prune p) := by
  obtain ⟨hreach, hbacklog, hsame⟩ := h.mem.linked (Or.inl hchecked)
  -- the newest local file is not pruned, so the local end stays
  have hmax : (s.dev.l0.filterKeys fun t => !p t).maxKey = s.dev.l0.maxKey := by
    refine SortedMap.maxKey_filterKeys ?_
    cases hk : p s.dev.l0.maxKey with
    | false => rfl
    | true => exact absurd rfl (hp _ hk).2
  have hfind : ∀ t x, (s.dev.l0.filterKeys fun t => !p t).find? t = some x →
      s.dev.l0.find? t = some x := by
    intro t x hx
    rw [SortedMap.find?_filterKeys] at hx
    split at hx
    · exact hx
    · cases hx
  -- what is pruned is in the bucket already
  have hlink : Linked (s.prune p).dev := by
    refine ⟨?_, fun t h1 h2 => ?_, fun t x hx ht => hsame t x (hfind t x hx) ht⟩
    · show s.dev.bucket.maxKey ≤ (s.dev.l0.filterKeys fun t => !p t).maxKey
      rw [hmax]
      exact hreach
    · simp only [Session.prune, hmax, SortedMap.find?_filterKeys] at h1 h2 ⊢
      rw [if_pos]
      · exact hbacklog t h1 h2
      · cases hk : p t with
        | false => rfl
        | true => exact absurd (hp t hk).1 (by omega)
  obtain ⟨h1, h2, h3, h4, h5, h6⟩ := h.mem
  refine ⟨⟨h.dev.gapless, h.dev.remote, fun t x hx => h.dev.locals t x (hfind t x hx), h.dev.puts,
    h.dev.persisted, fun t x hx => ?_⟩, h1, h2, h3, fun _ => hlink, fun hs q hq => ?_, h6⟩
  · -- both hold the pruned file, with one body
    rcases List.mem_append.mp hx with hx | hx
    · obtain ⟨hmem, hpt⟩ := List.mem_filter.mp hx
      exact hsame t x (SortedMap.mem_entries_iff.mp hmem) (hp t hpt).1.le
    · exact h.dev.pruned t x hx
  · show _ ∧ q ≤ (s.dev.l0.filterKeys fun t => !p t).maxKey
    rw [hmax]
    exact h5 hs q hq

/-- The pruning of local files keeps the writer the sole one. -/
theorem pruneL0_spec {s : Session} {r p : Nat} (h : Uploading c r p s) :
    Spec (pruneL0 r) s (fun _ s' => Sole c s') (StopsSole c) := by
  have hcur : r = s.dev.bucket.maxKey := (h.mem.cursor r h.remote).1
  unfold pruneL0
  rw [spec_bind, spec_get]
  have hprune : ∀ (q : Nat → Bool) fates,
      (∀ t, q t → (decide (t < r) && t != s.dev.l0.maxKey)) →
        Sole c (Session.prune q { s with fates }) := by
    intro q fates hq
    have hf : Sole c { s with fates } := ⟨h.dev, h.mem⟩
    refine hf.prune h.checked fun t ht => ?_
    have := hq t ht
    simp only [Bool.and_eq_true, decide_eq_true_eq, bne_iff_ne] at this
    exact ⟨hcur ▸ this.1, this.2⟩
  have hpart : ∀ (part : Nat → Bool) fates, Sole c (Session.prune
      (fun t => (decide (t < r) && t != s.dev.l0.maxKey) && part t) { s with fates }) :=
    fun part fates => hprune _ fates fun t ht => (Bool.and_eq_true_iff.mp ht).1
  exact spec_bestEffort (fun fates => hprune _ fates fun _ ht => ht) hpart hpart

/-! ## Operations and runs -/

/-- A push keeps the invariant, wherever it stops. -/
theorem push_spec (hc : c.Lawful) {s : Session} (h : Sole c s)
    (sources : List (Option SyncSource)) :
    Spec (push c sources) s (fun _ s' => Sole c s') (StopsSole c) := by
  have hread : ∀ {s : Session} (e : WriterError), Sole c s →
      Spec (readOnly e) s (fun _ s' => Sole c s') (StopsSole c) := fun _ h =>
    spec_readOnly (fun _ => ⟨h.dev, h.mem⟩) fun _ _ => ⟨h.dev, h.mem⟩
  unfold push
  refine (hread _ h).bind fun _ s₁ h₁ => ?_
  refine (syncAll_spec hc h₁ sources).bind fun _ s₂ h₂ => ?_
  refine (hread _ h₂).bind fun _ s₃ h₃ => ?_
  refine (ensureLineageChecked_spec h₃).bind ?_
  rintro - s₄ ⟨h₄, hchecked, -⟩
  refine (uploadL0_spec hc h₄ hchecked).bind ?_
  rintro r s₅ ⟨p, h₅⟩
  refine (pruneL0_spec h₅).bind fun _ s₆ h₆ => ?_
  exact (pos_spec hc h₆).mono (fun _ _ h' => h'.1) fun _ _ hs => hs

/-- Opening a writer takes the baseline that the last one left. -/
theorem openWriter_spec {s : Session} (h : SoleClosed c s.dev) :
    Spec openWriter s (fun _ s' => Sole c s') (fun _ s' => SoleClosed c s'.dev) := by
  unfold openWriter
  refine Spec.bind (Q := fun _ s' => s'.dev = s.dev) (spec_readOnly (fun _ => rfl) fun _ _ => h) ?_
  intro _ s₁ hd₁
  have h₁ : SoleClosed c s₁.dev := hd₁ ▸ h
  refine Spec.bind (Q := fun _ s' => Sole c s') ?_ fun _ s₂ h₂ =>
    spec_readOnly (fun _ => ⟨h₂.dev, h₂.mem⟩) fun _ _ => h₂.closed
  unfold readBaseline
  rw [spec_bind, spec_get]
  cases hv : s₁.dev.verifiedPos with
  | some t =>
      show Spec (modify _) s₁ _ _
      rw [spec_modify]
      refine ⟨h₁.dev, rfl, h₁.dev.persisted t hv, ⟨t, hv, Nat.le_refl t⟩, ?_, fun _ p hp => ?_,
        fun r hr => ?_⟩
      · rintro (hchecked | ht)
        · cases hchecked
        · exact h₁.linked (hv.trans (congrArg some ht))
      · cases hp
      · cases hr
  | none =>
      obtain ⟨hl0, hb⟩ := h₁.fresh hv
      show Spec (get >>= _) s₁ _ _
      rw [spec_bind, spec_get]
      dsimp only
      rw [hl0, if_neg (by decide), spec_bind]
      -- a fresh directory and an empty bucket
      have hlink : Linked s₁.dev := by
        have hempty := SortedMap.find?_eq_none_of_maxKey hl0
        refine ⟨by omega, fun t ht1 ht2 => ?_, fun t x hx => ?_⟩
        · rw [SortedMap.maxKey_eq_zero hl0] at ht2
          omega
        · rw [hempty] at hx
          cases hx
      have hdev : SoleDevice c { s₁.dev with verifiedPos := some 0 } := by
        refine ⟨h₁.dev.gapless, h₁.dev.remote, h₁.dev.locals, h₁.dev.puts, fun t ht => ?_,
          h₁.dev.pruned⟩
        obtain rfl := Option.some.inj ht
        exact Nat.zero_le _
      have hlinked : Linked { s₁.dev with verifiedPos := some 0 } := by
        obtain ⟨a, b, d⟩ := hlink
        exact ⟨a, b, d⟩
      refine spec_effect (fun fates => ?_) fun _ part fates => ?_
      · rw [spec_modify]
        refine ⟨hdev, rfl, Nat.zero_le _, ⟨0, rfl, Nat.le_refl 0⟩, fun _ => hlinked,
          fun _ p hp => ?_, fun r hr => ?_⟩
        · cases hp
        · cases hr
      · show SoleClosed c _
        split
        · refine ⟨hdev, fun _ => hlinked, fun hv => ?_⟩
          cases hv
        · exact h₁

/-- The invariant of a device, with or without a writer on it. -/
def SoleHost (c : Codec) (h : Host) : Prop :=
  match h.mem with
  | some m => SoleDevice c h.dev ∧ SoleMemory m h.dev
  | none => SoleClosed c h.dev

/-- One step keeps the invariant. -/
theorem soleHost_step (hc : c.Lawful) {h h' : Host} (hi : SoleHost c h) (hs : Host.Step c h h') :
    SoleHost c h' := by
  cases hs with
  -- a fresh session on the device as it is
  | openWriter dev fates =>
      have hspec := openWriter_spec
        (s := ⟨{ verifiedPos := 0, verifiedPosProvisional := false }, dev, fates⟩) hi
      unfold Spec at hspec
      unfold Host.openOn
      split at hspec
      · rename_i heq
        rw [heq]
        exact ⟨hspec.dev, hspec.mem⟩
      · rename_i heq
        rw [heq]
        exact hspec
  -- a push on the open session
  | push m dev sources fates =>
      have hstart : Sole c ⟨m, dev, fates⟩ := ⟨hi.1, hi.2⟩
      have hspec := push_spec hc hstart sources
      unfold Spec at hspec
      unfold Host.run
      split at hspec
      · rename_i heq
        rw [heq]
        exact ⟨hspec.dev, hspec.mem⟩
      · rename_i stop s' heq
        rw [heq]
        cases stop with
        | error e => exact ⟨hspec.dev, hspec.mem⟩
        | killed => exact hspec.closed
  -- a kill leaves the device
  | kill m dev =>
      have hstart : Sole c ⟨m, dev, []⟩ := ⟨hi.1, hi.2⟩
      exact hstart.closed

/-- The invariant holds along every run. -/
theorem soleHost_run (hc : c.Lawful) {h : Host} (hr : Host.SoleRun c h) : SoleHost c h := by
  induction hr with
  | start =>
      refine ⟨⟨fun t => ?_, fun t x hx => ?_, fun t x hx => ?_, fun t x => ?_, fun t ht => ?_,
        fun t x hx => ?_⟩, fun hv => ?_, fun _ => ⟨rfl, rfl⟩⟩
      · simp
        omega
      · cases hx
      · cases hx
      · simp
      · cases ht
      · cases hx
      · cases hv
  | step _ hs ih => exact soleHost_step hc ih hs

/-- What a sole writer keeps. -/
structure ChainIntact (c : Codec) (h : Host) : Prop where
  /-- The bucket holds a gapless range from 1 on. -/
  gapless : ∀ t, (h.dev.bucket.find? t).isSome ↔ 1 ≤ t ∧ t ≤ h.dev.bucket.maxKey
  /-- Every PUT that ever took effect wrote the bytes the bucket still holds. -/
  unreplaced : ∀ t body, (t, body) ∈ h.dev.puts ↔ h.dev.bucket.find? t = some body
  persisted : ∀ t, h.dev.verifiedPos = some t → t ≤ h.dev.bucket.maxKey
  verified : ∀ m, h.mem = some m → m.verifiedPos ≤ h.dev.bucket.maxKey
  /-- What the bucket is missing is there locally. -/
  backlog : ∀ m, h.mem = some m → m.lineageChecked → ∀ fates p s,
    pos c ⟨m, h.dev, fates⟩ = .ok p s →
    ∀ t, h.dev.bucket.maxKey < t → t ≤ p → (h.dev.l0.find? t).isSome
  /-- What was pruned is in the bucket. -/
  pruned : ∀ t body, (t, body) ∈ h.dev.pruned → h.dev.bucket.find? t = some body

/-- However its pushes fail and whenever it is killed, a writer that is alone at its bucket never
forks or tears the chain. -/
theorem soleRun_chainIntact (hc : c.Lawful) {h : Host} (hr : Host.SoleRun c h) :
    ChainIntact c h := by
  have hi := soleHost_run hc hr
  obtain ⟨mem, dev⟩ := h
  cases mem with
  | none =>
      have hd : SoleDevice c dev := SoleClosed.dev hi
      refine ⟨hd.gapless, hd.puts, hd.persisted, fun m hm => ?_, fun m hm => ?_, hd.pruned⟩
      · cases hm
      · cases hm
  | some m =>
      obtain ⟨hd, hm⟩ : SoleDevice c dev ∧ SoleMemory m dev := hi
      refine ⟨hd.gapless, hd.puts, hd.persisted, fun m' hm' => ?_,
        fun m' hm' hchecked fates p s hp t hlo hhi => ?_, hd.pruned⟩
      · obtain rfl := Option.some.inj hm'
        exact hm.verified
      · obtain rfl := Option.some.inj hm'
        have hset : Settled m dev := Or.inl hchecked
        -- the position is at most the newest local file
        have hspec := pos_spec hc (s := ⟨m, dev, fates⟩) ⟨hd, hm⟩
        simp only [Spec, hp] at hspec
        obtain ⟨hs, hdev, hmem⟩ := hspec
        have hset' : Settled s.mem s.dev := by
          rw [hmem, hdev]
          exact hset
        have hle : p ≤ dev.l0.maxKey := by
          have := (hs.mem.cached hset' p (by rw [hmem])).2
          rw [hdev] at this
          exact this
        exact (hm.linked hset).backlog t hlo (hhi.trans hle)

/-- The first upload lands, its answer is lost, and the session goes on. -/
theorem soleRun_chainIntact_lostAnswer :
    ∃ m dev, Host.SoleRun literalCodec ⟨some m, dev⟩ ∧ dev.bucket.maxKey = 1 ∧ m.verifiedPos = 0 ∧
      ChainIntact literalCodec ⟨some m, dev⟩ := by
  have hopen := Host.SoleRun.start.step (Host.Step.openWriter (c := literalCodec) {} [])
  have hpush := hopen.step (.push _ _ [some onePageSource]
    (List.replicate 7 .done ++ [.failed fun _ => true]))
  exact ⟨_, _, hpush, rfl, rfl, soleRun_chainIntact literalCodec_lawful hpush⟩

end Liters
