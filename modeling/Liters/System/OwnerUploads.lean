import Liters.Foundation.SideBySide
import Liters.Http.Fence
import Liters.System.Owner
import Liters.Writer.SoleWriter

/-! # The upload protocol does not see maintenance

The upload protocol lists the newest level-0 file, and opens no other one. Two sessions that differ
in their buckets only, and agree on the newest file there, therefore do the same. So a writer whose
bucket is compacted and pruned uploads like one whose bucket keeps everything, and each of its PUTs
goes right behind the newest file. -/

namespace Liters

variable {c : Codec}

/-! ## Sessions that agree on the newest file -/

/-- PUTs, newest first, right behind `start`. -/
def Upwards (start : Nat) : List (Nat × Bytes) → Prop
  | [] => True
  | e :: rest => e.1 = start + rest.length + 1 ∧ Upwards start rest

/-- A map after insertions, the newest first. -/
def insertPuts (view : SortedMap Bytes) (puts : List (Nat × Bytes)) : SortedMap Bytes :=
  puts.foldr (fun e m => m.insert e.1 e.2) view

/-- Insertions right behind the highest key raise it one by one. -/
theorem maxKey_insertPuts {view : SortedMap Bytes} {puts : List (Nat × Bytes)}
    (h : Upwards view.maxKey puts) :
    (insertPuts view puts).maxKey = view.maxKey + puts.length := by
  induction puts with
  | nil => rfl
  | cons e rest ih =>
      obtain ⟨hkey, hrest⟩ := h
      show ((insertPuts view rest).insert e.1 e.2).maxKey = _
      rw [SortedMap.maxKey_insert, ih hrest, hkey, List.length_cons]
      omega

/-- Two sessions that differ in their buckets only. The first one began with `view` and has put its
files right behind it; both have the same newest file. -/
structure Alike (view : SortedMap Bytes) (s t : Session) : Prop where
  mem : s.mem = t.mem
  fates : s.fates = t.fates
  l0 : s.dev.l0 = t.dev.l0
  verifiedPos : s.dev.verifiedPos = t.dev.verifiedPos
  bucket : s.dev.bucket = insertPuts view s.dev.puts
  upwards : Upwards view.maxKey s.dev.puts
  top : s.dev.bucket.maxKey = t.dev.bucket.maxKey
  newest : s.dev.bucket.find? s.dev.bucket.maxKey = t.dev.bucket.find? t.dev.bucket.maxKey

/-- An operation that keeps two sessions alike, wherever it stops. -/
def Lockstep {α : Type} (view : SortedMap Bytes) (act : Act α) : Prop :=
  ∀ s t, Alike view s t → Both act act s t (fun _ s' t' => Alike view s' t') fun _ s' t' =>
    Alike view s' t'

section
variable {view : SortedMap Bytes} {s t : Session}

/-- A change of memory keeps sessions alike. -/
theorem Alike.setMem (h : Alike view s t) (f : Memory → Memory) :
    Alike view (s.setMem f) (t.setMem f) := by
  obtain ⟨h1, h2, h3, h4, h5, h6, h7, h8⟩ := h
  exact ⟨congrArg f h1, h2, h3, h4, h5, h6, h7, h8⟩

/-- So does a change of fates. -/
theorem Alike.withFates (h : Alike view s t) (fates : List Fate) :
    Alike view { s with fates } { t with fates } := by
  obtain ⟨h1, h2, h3, h4, h5, h6, h7, h8⟩ := h
  exact ⟨h1, rfl, h3, h4, h5, h6, h7, h8⟩

/-- So does a local file. -/
theorem Alike.putL0 (h : Alike view s t) (txid : Nat) (body : Bytes) :
    Alike view (s.putL0 txid body) (t.putL0 txid body) := by
  obtain ⟨h1, h2, h3, h4, h5, h6, h7, h8⟩ := h
  exact ⟨h1, h2, congrArg (fun m => m.insert txid body) h3, h4, h5, h6, h7, h8⟩

/-- So does the removal of local files. -/
theorem Alike.removeL0 (h : Alike view s t) (p : Nat → Bool) :
    Alike view (s.removeL0 p) (t.removeL0 p) := by
  obtain ⟨h1, h2, h3, h4, h5, h6, h7, h8⟩ := h
  exact ⟨h1, h2, congrArg (fun m => m.filterKeys fun txid => !p txid) h3, h4, h5, h6, h7, h8⟩

/-- So does the pruning of the bucket. -/
theorem Alike.prune (h : Alike view s t) (p : Nat → Bool) : Alike view (s.prune p) (t.prune p) := by
  obtain ⟨h1, h2, h3, h4, h5, h6, h7, h8⟩ := h
  exact ⟨h1, h2, congrArg (fun m => m.filterKeys fun txid => !p txid) h3, h4, h5, h6, h7, h8⟩

/-- So does the verified position. -/
theorem Alike.persist (h : Alike view s t) (txid : Nat) :
    Alike view (s.persist txid) (t.persist txid) := by
  obtain ⟨h1, h2, h3, h4, h5, h6, h7, h8⟩ := h
  exact ⟨h1, h2, h3, rfl, h5, h6, h7, h8⟩

/-- So does the mark of an adopted file. -/
theorem Alike.markAdopted (h : Alike view s t) (txid : Nat) (body : Bytes) :
    Alike view (s.markAdopted txid body) (t.markAdopted txid body) := by
  obtain ⟨h1, h2, h3, h4, h5, h6, h7, h8⟩ := h
  exact ⟨h1, h2, h3, h4, h5, h6, h7, h8⟩

/-- So does the reset of what is known of the bucket. -/
theorem Alike.forgetRemote (h : Alike view s t) : Alike view (forgetRemote s) (forgetRemote t) :=
  h.setMem _

/-- A PUT right behind the newest file. -/
theorem Alike.put (h : Alike view s t) {cursor : Nat} (hcursor : cursor = s.dev.bucket.maxKey)
    (body : Bytes) :
    Alike view (s.put (cursor + 1) body) (t.put (cursor + 1) body) ∧
      (s.put (cursor + 1) body).dev.bucket.maxKey = cursor + 1 := by
  have hmax : ∀ m : SortedMap Bytes, m.maxKey = cursor →
      (m.insert (cursor + 1) body).maxKey = cursor + 1 := by
    intro m hm
    rw [SortedMap.maxKey_insert]
    omega
  have hs := hmax s.dev.bucket hcursor.symm
  have ht := hmax t.dev.bucket (h.top.symm.trans hcursor.symm)
  have hlength := maxKey_insertPuts h.upwards
  rw [← h.bucket] at hlength
  refine ⟨⟨h.mem, h.fates, h.l0, h.verifiedPos, ?_, ⟨?_, h.upwards⟩, hs.trans ht.symm, ?_⟩, hs⟩
  · exact congrArg (fun m => m.insert (cursor + 1) body) h.bucket
  · omega
  · show (s.dev.bucket.insert (cursor + 1) body).find?
      (s.dev.bucket.insert (cursor + 1) body).maxKey
      = (t.dev.bucket.insert (cursor + 1) body).find? (t.dev.bucket.insert (cursor + 1) body).maxKey
    rw [hs, ht, SortedMap.find?_insert, SortedMap.find?_insert, if_pos rfl, if_pos rfl]

/-! ## Effects -/

section
variable {full : Session → Session} {partly : (Nat → Bool) → Session → Session} {e : WriterError}

/-- Without fates a step is done. -/
theorem nextFate_of_nil (h : s.fates = []) : nextFate s = .ok .done s := by
  unfold nextFate
  rw [h]

/-- The first fate is that of the next step. -/
theorem nextFate_of_cons {fate : Fate} {fates : List Fate} (h : s.fates = fate :: fates) :
    nextFate s = .ok fate { s with fates } := by
  unfold nextFate
  rw [h]

/-- Without fates an effect takes place. -/
theorem effect_of_nil (h : s.fates = []) : effect full partly e s = .ok () (full s) := by
  show EStateM.bind nextFate _ s = _
  unfold EStateM.bind
  rw [nextFate_of_nil h]
  rfl

/-- The first fate decides on an effect. -/
theorem effect_of_cons {fate : Fate} {fates : List Fate} (h : s.fates = fate :: fates) :
    effect full partly e s = match fate with
      | .done => .ok () (full { s with fates })
      | .failed part => .error (.error e) (partly part { s with fates })
      | .killed part => .error .killed (partly part { s with fates }) := by
  show EStateM.bind nextFate _ s = _
  unfold EStateM.bind
  rw [nextFate_of_cons h]
  cases fate <;> rfl

/-- Without fates an attempt succeeds. -/
theorem bestEffort_of_nil (h : s.fates = []) : bestEffort full partly s = .ok () (full s) := by
  show EStateM.bind nextFate _ s = _
  unfold EStateM.bind
  rw [nextFate_of_nil h]
  rfl

/-- The first fate decides on an attempt. -/
theorem bestEffort_of_cons {fate : Fate} {fates : List Fate} (h : s.fates = fate :: fates) :
    bestEffort full partly s = match fate with
      | .done => .ok () (full { s with fates })
      | .failed part => .ok () (partly part { s with fates })
      | .killed part => .error .killed (partly part { s with fates }) := by
  show EStateM.bind nextFate _ s = _
  unfold EStateM.bind
  rw [nextFate_of_cons h]
  cases fate <;> rfl

/-- An effect meets the same fate in both sessions. -/
theorem both_effect {Q : Unit → Session → Session → Prop} {E : Stop → Session → Session → Prop}
    (h : Alike view s t)
    (hdone : ∀ s' t', Alike view s' t' → s'.dev = s.dev → s'.mem = s.mem → Q () (full s') (full t'))
    (hpart : ∀ stop part s' t', Alike view s' t' → s'.dev = s.dev →
      E stop (partly part s') (partly part t')) :
    Both (effect full partly e) (effect full partly e) s t Q E := by
  cases hf : s.fates with
  | nil => exact both_of_ok (effect_of_nil hf) (effect_of_nil (h.fates ▸ hf)) (hdone s t h rfl rfl)
  | cons fate fates =>
      have hx : effect full partly e s = _ := effect_of_cons hf
      have hy : effect full partly e t = _ := effect_of_cons (h.fates ▸ hf)
      have h' := h.withFates fates
      cases fate with
      | done => exact both_of_ok hx hy (hdone _ _ h' rfl rfl)
      | failed part => exact both_of_error hx hy (hpart _ part _ _ h' rfl)
      | killed part => exact both_of_error hx hy (hpart _ part _ _ h' rfl)

/-- An effect that keeps sessions alike runs in lockstep. -/
theorem lockstep_effect (hfull : ∀ s t, Alike view s t → Alike view (full s) (full t))
    (hpartly : ∀ part s t, Alike view s t → Alike view (partly part s) (partly part t)) :
    Lockstep view (effect full partly e) := fun _ _ h =>
  both_effect h (fun s' t' h' _ _ => hfull s' t' h') fun _ part s' t' h' _ => hpartly part s' t' h'

/-- So does an attempt. -/
theorem lockstep_bestEffort (hfull : ∀ s t, Alike view s t → Alike view (full s) (full t))
    (hpartly : ∀ part s t, Alike view s t → Alike view (partly part s) (partly part t)) :
    Lockstep view (bestEffort full partly) := by
  intro s t h
  cases hf : s.fates with
  | nil => exact both_of_ok (bestEffort_of_nil hf) (bestEffort_of_nil (h.fates ▸ hf)) (hfull s t h)
  | cons fate fates =>
      have hx : bestEffort full partly s = _ := bestEffort_of_cons hf
      have hy : bestEffort full partly t = _ := bestEffort_of_cons (h.fates ▸ hf)
      have h' := h.withFates fates
      cases fate with
      | done => exact both_of_ok hx hy (hfull _ _ h')
      | failed part => exact both_of_ok hx hy (hpartly part _ _ h')
      | killed part => exact both_of_error hx hy (hpartly part _ _ h')

end

/-- So does a step that reads only. -/
theorem lockstep_readOnly (e : WriterError) : Lockstep view (readOnly e) :=
  lockstep_effect (fun _ _ h => h) fun _ _ _ h => h

/-- So does a value. -/
theorem lockstep_pure {α : Type} (a : α) : Lockstep view (pure a : Act α) :=
  fun _ _ h => both_pure h

/-- So does an error. -/
theorem lockstep_throw {α : Type} (stop : Stop) : Lockstep view (throw stop : Act α) :=
  fun _ _ h => both_throw h

/-- So does a change of memory. -/
theorem lockstep_setMem (f : Memory → Memory) : Lockstep view (modify (Session.setMem f)) :=
  fun _ _ h =>
  both_modify (h.setMem f)

/-- So do two acts, one after the other. -/
theorem Lockstep.bind {α β : Type} {x : Act α} {f : α → Act β} (hx : Lockstep view x)
    (hf : ∀ a, Lockstep view (f a)) : Lockstep view (x >>= f) := fun s t h =>
  (hx s t h).bind fun a s' t' h' => hf a s' t' h'

/-- What is read of a session is the same in both. -/
theorem lockstep_get {α : Type} {f : Session → Act α} (hsame : ∀ s t, Alike view s t → f s = f t)
    (hf : ∀ s, Lockstep view (f s)) : Lockstep view (get >>= f) := by
  intro s t h
  refine both_get_bind ?_
  rw [hsame s t h]
  exact hf t s t h

/-- Operations in lockstep, and what is known of the second one. -/
theorem Lockstep.and_spec {α : Type} {act : Act α} {Q : α → Session → Prop}
    {E : Stop → Session → Prop} (hact : Lockstep view act) (h : Alike view s t)
    (hspec : Spec act t Q E) :
    Both act act s t (fun a s' t' => Alike view s' t' ∧ Q a t') fun _ s' t' => Alike view s' t' :=
  ((hact s t h).and_spec hspec).mono (fun _ _ _ h' => h') fun _ _ _ h' => h'.1

/-! ## The protocol in lockstep -/

/-- So does the position from the local files. -/
theorem lockstep_metaPos : Lockstep view (metaPos c) := by
  unfold metaPos
  refine (lockstep_readOnly _).bind fun _ => lockstep_get (fun s t h => ?_) fun s => ?_
  · rw [h.l0]
  · dsimp only
    split
    · exact lockstep_pure 0
    · split
      · exact lockstep_pure _
      · exact lockstep_throw _

/-- So does the cached one. -/
theorem lockstep_pos : Lockstep view (pos c) := by
  unfold pos
  refine lockstep_get (fun s t h => ?_) fun s => ?_
  · rw [h.mem]
  · split
    · exact lockstep_pure _
    · exact lockstep_metaPos.bind fun p => (lockstep_setMem _).bind fun _ => lockstep_pure p

/-- **A local sync** runs in lockstep. -/
theorem lockstep_sync (source : Option SyncSource) : Lockstep view (sync c source) := by
  unfold sync
  cases source with
  | none => exact lockstep_pos.bind fun _ => lockstep_readOnly _
  | some source =>
      refine lockstep_pos.bind fun p => ?_
      split
      · refine lockstep_effect (fun s t h => (h.putL0 _ _).setMem _) fun part s t h => ?_
        split
        · exact h.putL0 _ _
        · split
          · exact h.setMem _
          · exact h
      · exact lockstep_throw _

/-- So do several. -/
theorem lockstep_syncAll (sources : List (Option SyncSource)) :
    Lockstep view (syncAll c sources) := by
  induction sources with
  | nil => exact lockstep_pure ()
  | cons source sources ih => exact (lockstep_sync source).bind fun _ => ih

/-- So does the removal of all local files. -/
theorem lockstep_clearL0 : Lockstep view clearL0 :=
  lockstep_effect (fun _ _ h => h.removeL0 _) fun part _ _ h => h.removeL0 part

/-- So does the write of the verified position. -/
theorem lockstep_writeVerifiedPos (txid : Nat) : Lockstep view (writeVerifiedPos txid) := by
  refine lockstep_bestEffort (fun _ _ h => h.persist txid) fun part s t h => ?_
  split
  · exact h.persist txid
  · exact h

/-- So does the listing of the bucket's newest TXID. -/
theorem lockstep_listBucketMax : Lockstep view listBucketMax := by
  refine (lockstep_readOnly _).bind fun _ => lockstep_get (fun s t h => ?_) fun s => lockstep_pure _
  rw [h.top]

/-- What is listed is where the bucket ends. -/
theorem both_listBucketMax (h : Alike view s t) :
    Both listBucketMax listBucketMax s t
      (fun r s' t' => Alike view s' t' ∧ r = s'.dev.bucket.maxKey)
      fun _ s' t' => Alike view s' t' := by
  unfold listBucketMax
  refine (lockstep_readOnly _ s t h).bind fun _ s' t' h' => both_get_bind ?_
  rw [← h'.top]
  exact both_pure ⟨h', rfl⟩

/-- The rebaseline opens the newest file only. -/
theorem both_rebaselineFromRemote (h : Alike view s t) {top : Nat}
    (htop : top = s.dev.bucket.maxKey) :
    Both (rebaselineFromRemote top) (rebaselineFromRemote top) s t (fun _ s' t' => Alike view s' t')
      fun _ s' t' => Alike view s' t' := by
  subst htop
  -- up to the read nothing touches the bucket
  have hread : Both (readOnly .cancelled) (readOnly .cancelled) s t
      (fun _ s' t' => Alike view s' t' ∧ s'.dev.bucket = s.dev.bucket) fun _ s' t' =>
          Alike view s' t' :=
    both_effect h (fun s' t' h' hdev _ => ⟨h', congrArg Device.bucket hdev⟩) fun _ _ _ _ h' _ => h'
  unfold rebaselineFromRemote
  refine hread.bind ?_
  rintro - s₁ t₁ ⟨h₁, hb₁⟩
  have hclear : Both clearL0 clearL0 s₁ t₁
      (fun _ s' t' => Alike view s' t' ∧ s'.dev.bucket = s₁.dev.bucket)
      fun _ s' t' => Alike view s' t' :=
    both_effect h₁ (fun s' t' h' hdev _ =>
      ⟨h'.removeL0 _, show s'.dev.bucket = _ from congrArg Device.bucket hdev⟩)
      fun _ part _ _ h' _ => h'.removeL0 part
  refine hclear.bind ?_
  rintro - s₂ t₂ ⟨h₂, hb₂⟩
  refine (both_modify (Q := fun _ s' t' => Alike view s' t' ∧ s'.dev.bucket = s₂.dev.bucket)
    ⟨h₂.setMem _, rfl⟩).bind ?_
  rintro - s₃ t₃ ⟨h₃, hb₃⟩
  have hagain : Both (readOnly .storage) (readOnly .storage) s₃ t₃
      (fun _ s' t' => Alike view s' t' ∧ s'.dev.bucket = s₃.dev.bucket) fun _ s' t' =>
          Alike view s' t' :=
    both_effect h₃ (fun s' t' h' hdev _ => ⟨h', congrArg Device.bucket hdev⟩) fun _ _ _ _ h' _ => h'
  refine hagain.bind ?_
  rintro - s₄ t₄ ⟨h₄, hb₄⟩
  refine both_get_bind ?_
  have hbucket : s₄.dev.bucket = s.dev.bucket := hb₄.trans (hb₃.trans (hb₂.trans hb₁))
  have hfind : t₄.dev.bucket.find? s.dev.bucket.maxKey =
      s₄.dev.bucket.find? s.dev.bucket.maxKey := by
    have hnewest := h₄.newest
    rw [← h₄.top, hbucket] at hnewest
    rw [hbucket, hnewest]
  rw [hfind]
  cases s₄.dev.bucket.find? s.dev.bucket.maxKey with
  | none => exact both_throw h₄
  | some body =>
      refine Lockstep.bind (lockstep_effect (fun _ _ h' => h'.putL0 _ _) fun part s' t' h' => ?_)
        (fun _ => (lockstep_setMem _).bind fun _ s' t' h' => both_modify (h'.markAdopted _ _))
          s₄ t₄ h₄
      split
      · exact h'.putL0 _ _
      · exact h'

/-- Discarding local files behind the bucket's end keeps sessions alike. -/
theorem both_discardLocal (h : Alike view s t) {top : Nat} (htop : top = s.dev.bucket.maxKey) :
    Both (discardLocal top) (discardLocal top) s t (fun _ s' t' => Alike view s' t')
      fun _ s' t' => Alike view s' t' := by
  unfold discardLocal
  refine both_get_bind ?_
  have hfind : t.dev.bucket.find? top = s.dev.bucket.find? top := by
    rw [htop, h.newest, h.top]
  rw [hfind]
  cases s.dev.bucket.find? top with
  | none => exact (lockstep_clearL0.bind fun _ => lockstep_setMem _) s t h
  | some body => exact both_rebaselineFromRemote h htop

/-- The lineage check reads where the bucket ends, and its newest file. -/
theorem lockstep_ensureLineageChecked : Lockstep view ensureLineageChecked := by
  unfold ensureLineageChecked
  refine lockstep_get (fun s t h => ?_) fun s => ?_
  · rw [h.mem]
  split
  · exact lockstep_pure ()
  refine (lockstep_readOnly _).bind fun _ s t h => ?_
  refine (both_listBucketMax h).bind ?_
  rintro top s₁ t₁ ⟨h₁, htop⟩
  refine Both.bind (Q := fun _ s' t' => Alike view s' t') ?_ fun _ s₂ t₂ h₂ =>
    both_modify (h₂.setMem _)
  unfold settleLineage
  refine both_get_bind ?_
  rw [← h₁.mem]
  split
  · exact (both_discardLocal h₁ htop).bind fun _ =>
      ((lockstep_setMem _).bind fun _ => lockstep_writeVerifiedPos top)
  · refine (lockstep_setMem _).bind (fun _ => lockstep_get (fun s t h => ?_) fun s => ?_) s₁ t₁ h₁
    · rw [h.verifiedPos]
    · split
      · exact lockstep_pure ()
      · exact lockstep_writeVerifiedPos top

/-- **Opening a writer** runs in lockstep. -/
theorem lockstep_openWriter : Lockstep view openWriter := by
  refine (lockstep_readOnly _).bind fun _ => Lockstep.bind ?_ fun _ => lockstep_readOnly _
  unfold readBaseline
  refine lockstep_get (fun s t h => ?_) fun s => ?_
  · rw [h.verifiedPos]
  split
  · exact lockstep_setMem _
  refine lockstep_get (fun s t h => ?_) fun s => ?_
  · rw [h.l0]
  dsimp only
  split
  · exact lockstep_setMem _
  · refine (lockstep_effect (fun _ _ h => h.persist 0) fun part s t h => ?_).bind fun _ =>
      lockstep_setMem _
    split
    · exact h.persist 0
    · exact h

/-- So does the pruning of local files. -/
theorem lockstep_pruneL0 (before : Nat) : Lockstep view (pruneL0 before) := by
  refine lockstep_get (fun s t h => ?_) fun s => ?_
  · rw [h.l0]
  · exact lockstep_bestEffort (fun _ _ h => h.prune _) fun part _ _ h => h.prune _

/-! ## Uploads in lockstep -/

/-- So does the look-up of the upload cursor. -/
theorem lockstep_remoteCursor : Lockstep view remoteCursor := by
  unfold remoteCursor
  refine lockstep_get (fun s t h => ?_) fun s => ?_
  · rw [h.mem]
  split
  · exact lockstep_pure _
  · refine lockstep_listBucketMax.bind fun top => lockstep_get (fun s t h => ?_) fun s => ?_
    · rw [h.mem]
    · dsimp only
      split
      · exact (lockstep_setMem _).bind fun _ => lockstep_pure _
      · exact (lockstep_setMem _).bind fun _ => lockstep_throw _

/-- So does the advance of the verified position. -/
theorem lockstep_advanceVerified (cursor : Nat) : Lockstep view (advanceVerified cursor) := by
  unfold advanceVerified
  refine lockstep_get (fun s t h => ?_) fun s => ?_
  · rw [h.mem]
  · split
    · exact (lockstep_setMem _).bind fun _ => lockstep_writeVerifiedPos cursor
    · exact lockstep_pure ()

/-- It leaves the bucket and the position alone. -/
theorem advanceVerified_frame (cursor : Nat) (t : Session) :
    Spec (advanceVerified cursor) t
      (fun _ t' => t'.dev.bucket = t.dev.bucket ∧ t'.mem.cachedPos = t.mem.cachedPos) fun _ _ =>
        True := by
  unfold advanceVerified
  rw [spec_bind, spec_get]
  split
  · rw [spec_bind, spec_modify]
    refine spec_bestEffort (fun _ => ⟨rfl, rfl⟩) (fun part _ => ?_) fun _ _ => trivial
    split
    · exact ⟨rfl, rfl⟩
    · exact ⟨rfl, rfl⟩
  · exact ⟨rfl, rfl⟩

/-- From where the bucket ends, every PUT goes right behind it. -/
theorem both_uploadLoop {n cursor : Nat} (h : Alike view s t)
    (hcursor : cursor = s.dev.bucket.maxKey) :
    Both (uploadLoop n cursor) (uploadLoop n cursor) s t
      (fun _ s' t' => Alike view s' t' ∧ s'.dev.bucket.maxKey = cursor + n ∧
        s'.mem.cachedPos = s.mem.cachedPos)
      fun _ s' t' => Alike view s' t' := by
  induction n generalizing cursor s t with
  | zero => exact both_pure ⟨h, hcursor.symm, rfl⟩
  | succ n ih =>
      unfold uploadLoop
      refine (both_effect (Q := fun _ s' t' => Alike view s' t' ∧ s'.dev = s.dev ∧ s'.mem = s.mem) h
        (fun _ _ h' hdev hmem => ⟨h', hdev, hmem⟩) fun _ _ _ _ h' _ => h'.forgetRemote).bind ?_
      rintro - s₁ t₁ ⟨h₁, hd₁, hm₁⟩
      have hcursor₁ : cursor = s₁.dev.bucket.maxKey := by rw [hd₁]; exact hcursor
      refine both_get_bind ?_
      -- both writers hold the same L0 files, so both stop or both upload
      rw [← h₁.l0]
      cases s₁.dev.l0.find? (cursor + 1) with
      | none => exact (both_modify h₁.forgetRemote).bind fun _ s' t' h' => both_throw h'
      | some body =>
          refine (both_effect (Q := fun _ s' t' =>
            Alike view s' t' ∧ s'.dev.bucket.maxKey = cursor + 1 ∧
            s'.mem = s₁.mem) h₁ (fun s' t' h' hdev hmem => ?_) fun _ part s' t' h' hdev => ?_).bind
              ?_
          · -- the PUT lands right behind the bucket's end
            obtain ⟨hput, hmax⟩ := h'.put (hdev ▸ hcursor₁) body
            exact ⟨hput, hmax, hmem⟩
          · -- a failed PUT may have reached the bucket
            split
            · exact (h'.put (hdev ▸ hcursor₁) body).1.forgetRemote
            · exact h'.forgetRemote
          rintro - s₂ t₂ ⟨h₂, hmax₂, hm₂⟩
          refine (both_modify (Q := fun _ s' t' =>
            Alike view s' t' ∧ s'.dev.bucket.maxKey = cursor + 1 ∧
            s'.mem.cachedPos = s₂.mem.cachedPos) ⟨h₂.setMem _, hmax₂, rfl⟩).bind ?_
          -- the verified position is advanced on both sides, or on neither
          rintro - s₃ t₃ ⟨h₃, hmax₃, hp₃⟩
          refine ((lockstep_advanceVerified (cursor + 1)).and_spec h₃
            (advanceVerified_frame (cursor + 1) t₃)).bind ?_
          rintro - s₄ t₄ ⟨h₄, hb₄, hp₄⟩
          have hmax₄ : s₄.dev.bucket.maxKey = cursor + 1 := by rw [h₄.top, hb₄, ← h₃.top, hmax₃]
          have hpos₄ : s₄.mem.cachedPos = s.mem.cachedPos := by
            rw [h₄.mem, hp₄, ← h₃.mem, hp₃, hm₂, hm₁]
          refine (ih h₄ hmax₄.symm).mono (fun _ s' t' h' => ?_) fun _ _ _ h' => h'
          obtain ⟨halike, hmax', hpos'⟩ := h'
          exact ⟨halike, by omega, hpos'.trans hpos₄⟩

/-- After an upload the bucket reaches the local position. -/
theorem both_uploadL0 (hc : c.Lawful) (h : Alike view s t) (ht : Sole c t)
    (hchecked : t.mem.lineageChecked) :
    Both (uploadL0 c) (uploadL0 c) s t
      (fun _ s' t' => Alike view s' t' ∧ ∃ p, s'.mem.cachedPos = some p ∧ p ≤ s'.dev.bucket.maxKey)
      fun _ s' t' => Alike view s' t' := by
  unfold uploadL0
  refine (lockstep_remoteCursor.and_spec h (remoteCursor_spec ht hchecked)).bind ?_
  rintro r s₁ t₁ ⟨h₁, hsole₁, -, hr₁⟩
  refine (lockstep_pos.and_spec h₁ (pos_spec hc hsole₁)).bind ?_
  rintro p s₂ t₂ ⟨h₂, -, hd₂, hm₂⟩
  have hr : r = s₂.dev.bucket.maxKey := by
    rw [h₂.top, hd₂]
    exact (hsole₁.mem.cursor r hr₁).1
  have hp : s₂.mem.cachedPos = some p := by rw [h₂.mem, hm₂]
  refine (both_uploadLoop h₂ hr).mono (fun _ s' t' h' => ?_) fun _ _ _ h' => h'
  obtain ⟨halike, hmax, hpos⟩ := h'
  exact ⟨halike, p, hpos.trans hp, by omega⟩

/-- A push does the same whether its bucket is pruned or not. -/
theorem both_push (hc : c.Lawful) (h : Alike view s t) (ht : Sole c t)
    (sources : List (Option SyncSource)) :
    Both (push c sources) (push c sources) s t (fun _ s' t' => Alike view s' t') fun _ s' t' =>
      Alike view s' t' := by
  have hread : ∀ {t : Session} (e : WriterError), Sole c t →
      Spec (readOnly e) t (fun _ t' => Sole c t') (StopsSole c) := fun _ h =>
    spec_readOnly (fun _ => ⟨h.dev, h.mem⟩) fun _ _ => ⟨h.dev, h.mem⟩
  unfold push
  refine ((lockstep_readOnly _).and_spec h (hread _ ht)).bind ?_
  rintro - s₁ t₁ ⟨h₁, ht₁⟩
  refine ((lockstep_syncAll sources).and_spec h₁ (syncAll_spec hc ht₁ sources)).bind ?_
  rintro - s₂ t₂ ⟨h₂, ht₂⟩
  refine ((lockstep_readOnly _).and_spec h₂ (hread _ ht₂)).bind ?_
  rintro - s₃ t₃ ⟨h₃, ht₃⟩
  refine (lockstep_ensureLineageChecked.and_spec h₃ (ensureLineageChecked_spec ht₃)).bind ?_
  rintro - s₄ t₄ ⟨h₄, ht₄, hchecked, -⟩
  refine (both_uploadL0 hc h₄ ht₄ hchecked).bind ?_
  rintro r s₅ t₅ ⟨h₅, -⟩
  exact ((lockstep_pruneL0 r).bind fun _ => lockstep_pos) s₅ t₅ h₅

end

end Liters
