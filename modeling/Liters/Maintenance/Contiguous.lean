import Liters.Maintenance.Images
import Liters.Maintenance.Restorable
import Liters.Maintenance.Tiled

/-! # Contiguous levels

Each level 1 to 8 should hold ranges without gaps. `Call.Merged` says of a maintenance run, before
it starts, that what its retention will delete is merged by the next level: by the options, the
clock and the listings. Runs whose calls are all of that kind keep every level gapless. -/

namespace Liters

variable {c : Codec} {U : Uploads} {checked : Bool} {w : World}

/-- Levels 1 to 8 hold ranges in order, without overlaps and without gaps. -/
def LevelsContiguous (w : World) : Prop :=
  ∀ level, 1 ≤ level → level ≤ 8 →
    (w.bucket level).Pairwise (fun s t => s.maxTxid < t.minTxid) ∧
      (w.bucket level).IsChain Stored.Next

/-! ## Before a maintenance run -/

namespace MaintenanceOptions

variable (opts : MaintenanceOptions) (w : World) (now : Int)

/-- A run compacts into a level: an interval is configured for it, and it is due. -/
def Compacts (level : Nat) : Prop :=
  0 < level ∧ (opts.levelIntervals[level - 1]?).any (levelDue w.bucket level · now)

instance (level : Nat) : Decidable (opts.Compacts w now level) :=
  inferInstanceAs (Decidable (_ ∧ _))

/-- Where a level ends once a run has compacted: where the level below does, or where it is. -/
def reach : Nat → Nat
  | 0 => endTxid (w.bucket 0)
  | level + 1 =>
      if opts.Compacts w now (level + 1) then reach level else endTxid (w.bucket (level + 1))

/-- A run expires a snapshot: it and the older ones are too old, and a newer one exists or is
due. -/
def Expires (pending : List (Option Int)) (x : Stored) : Prop :=
  (∀ y ∈ w.bucket snapshotLevel, y.maxTxid ≤ x.maxTxid →
      y.createdAt.any (· < cutoff now opts.snapshotRetention)) ∧
    ((∃ y ∈ w.bucket snapshotLevel, x.maxTxid < y.maxTxid) ∨
      levelDue w.bucket snapshotLevel opts.snapshotInterval now ∧
        x.maxTxid < w.uploaded + pending.length)

instance (pending : List (Option Int)) (x : Stored) : Decidable (opts.Expires w now pending x) :=
  inferInstanceAs (Decidable (_ ∧ _))

/-- What a run retires below a snapshot that it expires, the last file of each level excepted, the
next level has merged, or the run merges it first. A next level that is empty does not count. -/
def Merged (pending : List (Option Int)) : Prop :=
  ∀ x ∈ w.bucket snapshotLevel, opts.Expires w now pending x → ∀ level ∈ List.range' 1 7,
    w.bucket (level + 1) ≠ [] → ∀ f ∈ w.bucket level, f.maxTxid < x.maxTxid →
      f.maxTxid < opts.reach w now level → f.maxTxid ≤ opts.reach w now (level + 1)

instance (pending : List (Option Int)) : Decidable (opts.Merged w now pending) :=
  inferInstanceAs (Decidable (∀ x ∈ w.bucket snapshotLevel, _))

end MaintenanceOptions

/-- A call that retires merged files only. -/
def Call.Merged (w : World) : Call → Prop
  | .maintain _ opts now _ pending _ => opts.retentionEnabled → opts.Merged w now pending
  | _ => True

/-- The worlds that ordinary calls of this kind reach, each cut after any number of requests. -/
inductive MergedRun (c : Codec) (checked : Bool) (U : Uploads) : World → Prop where
  | start : MergedRun c checked U ⟨Bucket.empty, 0⟩
  | step {w : World} (h : MergedRun c checked U w) (call : Call) (hcall : call.Ordinary)
      (hmerged : call.Merged w)
      (k : Nat) : MergedRun c checked U (call.cut c checked U k w)

/-! ## Gapless buckets -/

/-- What holds of the bucket between requests. -/
structure Gapless (c : Codec) (U : Uploads) (w : World) : Prop where
  inv : Inv c U w
  tiled : Tiled w

/-- A request that keeps this. -/
structure Proper (c : Codec) (U : Uploads) (w : World) (m : Mutation) : Prop where
  allowed : Allowed c U w m
  detailed : Detailed w m
  consumed : Consumed w m

/-- A proper request keeps a gapless bucket gapless. -/
theorem gapless_step (w : World) (m : Mutation) (h : Gapless c U w) (hm : Proper c U w m) :
    Gapless c U (w.act m) :=
  ⟨h.inv.act hm.allowed, h.tiled.step h.inv hm.allowed hm.detailed hm.consumed⟩

/-- Requests that are proper for three reasons. -/
theorem allowedAll_proper {ms : List Mutation} (ha : Script.AllowedAll World.act (Allowed c U) w ms)
    (hd : Script.AllowedAll World.act Detailed w ms)
    (hc : Script.AllowedAll World.act Consumed w ms) :
    Script.AllowedAll World.act (Proper c U) w ms :=
  ((ha.and hd).and hc).imp_of_keeps (P := fun _ => True) (fun _ _ _ _ => trivial) trivial
    fun _ _ _ hm => ⟨hm.1.1, hm.1.2, hm.2⟩

namespace Gapless

variable (h : Gapless c U w)
include h

/-- Levels 0 to 8 are gapless. -/
theorem chain {level : Nat} (hhigh : level ≤ 8) : (w.bucket level).IsChain Stored.Next := by
  cases level with
  | zero => exact h.inv.l0
  | succ level => exact h.tiled.chain _ (Nat.succ_le_succ (Nat.zero_le _)) hhigh

/-- A level ends no later than the one below. -/
theorem ends_le {level : Nat} (hhigh : level < 8) :
    endTxid (w.bucket (level + 1)) ≤ endTxid (w.bucket level) := by
  cases level with
  | zero =>
      rw [h.inv.l0_end]
      rcases List.eq_nil_or_concat' (w.bucket 1) with hnil | ⟨init, last, heq⟩
      · rw [hnil]
        exact Nat.zero_le _
      · rw [heq, endTxid_append_singleton]
        exact (h.inv.files 1 last (by simp [heq])).1
  | succ level => exact h.tiled.reach _ (by omega) (by omega)

/-- A file of a level that starts within the next one ends there. -/
theorem aligned {level : Nat} (hhigh : level < 8) {s : Stored} (hs : s ∈ w.bucket level)
    (hmin : s.minTxid ≤ endTxid (w.bucket (level + 1))) :
    s.maxTxid ≤ endTxid (w.bucket (level + 1)) := by
  cases level with
  | zero =>
      rw [← h.inv.l0_single s hs]
      exact hmin
  | succ level => exact h.tiled.aligned _ (by omega) (by omega) s hs hmin

/-- The files of a level end where the level does. -/
theorem maxTxid_le {level : Nat} (hhigh : level ≤ 8) {s : Stored} (hs : s ∈ w.bucket level) :
    s.maxTxid ≤ endTxid (w.bucket level) :=
  maxTxid_le_endTxid_of_isChain (h.chain hhigh) (h.inv.files level) hs

/-- All but the last end before. -/
theorem maxTxid_lt {level : Nat} (hhigh : level ≤ 8) {s : Stored} (hs : s ∈ w.bucket level)
    (hne : (w.bucket level).getLast? ≠ some s) : s.maxTxid < endTxid (w.bucket level) := by
  rcases List.eq_nil_or_concat' (w.bucket level) with hnil | ⟨init, last, heq⟩
  · rw [hnil] at hs
    cases hs
  · have hchain := h.chain hhigh
    have hvalid : ∀ x ∈ w.bucket level, x.minTxid ≤ x.maxTxid := fun x hx =>
      (h.inv.files level x hx).range.2.1
    rw [heq] at hs hne hchain hvalid ⊢
    rw [endTxid_append_singleton]
    rcases List.mem_append.mp hs with hs | hs
    · -- the last file starts after it
      obtain ⟨pre, post, rfl⟩ := List.append_of_mem hs
      rw [List.append_assoc, List.cons_append] at hchain
      have htail : (s :: (post ++ [last])).IsChain Stored.Next :=
        List.IsChain.right_of_append hchain
      have hlt := maxTxid_lt_minTxid htail (fun x hx => hvalid x (by
        rcases List.mem_append.mp hx with hx | hx
        · simp [hx]
        · exact List.mem_append_right _ hx)) last (by simp)
      have hle := hvalid last (by simp)
      omega
    · obtain rfl := List.mem_singleton.mp hs
      simp at hne

/-- Nothing is left to merge once a level ends where the one below does. -/
theorem ends_eq_of_nil {level : Nat} (hhigh : level < 8)
    (hnil : (w.bucket level).filter (fun y => seekTxid w.bucket (level + 1) ≤ y.minTxid) = []) :
    endTxid (w.bucket (level + 1)) = endTxid (w.bucket level) := by
  refine Nat.le_antisymm (h.ends_le hhigh) ?_
  rcases List.eq_nil_or_concat' (w.bucket level) with hempty | ⟨init, last, heq⟩
  · rw [hempty]
    exact Nat.zero_le _
  · have hlast : last ∈ w.bucket level := by simp [heq]
    have hlt : last.minTxid < seekTxid w.bucket (level + 1) := by
      have hfilter := List.filter_eq_nil_iff.mp hnil last hlast
      simpa using hfilter
    have hchain : (w.bucket (level + 1)).IsChain Stored.Next := h.chain hhigh
    obtain ⟨hsome, -⟩ := h.inv.filed.maxLtxFileInfo hchain
    have hmin : last.minTxid ≤ endTxid (w.bucket (level + 1)) := by
      rw [seekTxid] at hlt
      cases hnewest : w.bucket.maxLtxFileInfo (level + 1) with
      | none =>
          rw [hnewest] at hlt
          cases hlt
      | some f =>
          rw [hnewest] at hlt
          have hf := hsome f hnewest
          have hlt' : last.minTxid < f.maxTxid + 1 := hlt
          omega
    rw [heq, endTxid_append_singleton]
    exact h.aligned hhigh hlast hmin

end Gapless

/-! ## Compaction -/

/-- A world in which one level has been compacted. -/
structure Lifted (w : World) (level : Nat) (w' : World) : Prop where
  uploaded : w'.uploaded = w.uploaded
  other : ∀ l ≠ level, w'.bucket l = w.bucket l
  ends : endTxid (w'.bucket level) = endTxid (w.bucket (level - 1))
  files : ∀ f ∈ w'.bucket level, f ∈ w.bucket level ∨ f.maxTxid = endTxid (w.bucket (level - 1))

/-- A level holds a file that ends where it does. -/
theorem exists_mem_endTxid {files : List Stored} (h : files ≠ []) :
    ∃ s ∈ files, s.maxTxid = endTxid files := by
  rcases List.eq_nil_or_concat' files with hnil | ⟨init, last, rfl⟩
  · exact absurd hnil h
  · exact ⟨last, by simp, (endTxid_append_singleton _ _).symm⟩

/-- **Compaction** of a gapless bucket: the level ends where the one below does. -/
theorem compactLevel_yields (hc : c.Lawful) (h : Gapless c U w) {level : Nat} (hhigh : level < 8)
    (createdAt : Option Int) :
    Script.Yields World.act w (compactLevel c (level + 1) createdAt) (Proper c U)
      fun _ w' => Gapless c U w' ∧ Lifted w (level + 1) w' := by
  have hallowed := compactLevel_safe (U := U) hc (Nat.le_add_left 1 level)
    (show level + 1 < snapshotLevel by rw [snapshotLevel]; omega) createdAt w h.inv
  have hdetailed := compactLevel_tidy (c := c) (level + 1) createdAt w h.inv.sorted
  obtain ⟨e, hrun⟩ | ⟨hrun, hnil⟩ | ⟨s, x, rest, hrun, hfilter, -, hmax⟩ :=
    compactLevel_cases c (level + 1) createdAt w
  · -- the listing fails: nothing is written
    rw [Script.Yields, hrun]
    exact ⟨trivial, fun _ ha => by cases ha⟩
  · -- no source file is left: the level above has merged all of this one
    rw [Script.Yields, hrun]
    exact ⟨trivial, fun _ _ =>
      ⟨h, rfl, fun _ _ => rfl, h.ends_eq_of_nil hhigh hnil, fun f hf => .inl hf⟩⟩
  · -- one file is written, up to the end of the level below
    rw [hrun] at hallowed hdetailed
    rw [Script.Yields, hrun]
    have hproper := allowedAll_proper hallowed hdetailed ⟨trivial, trivial⟩
    refine ⟨hproper, fun _ _ => ?_⟩
    have hgapless := gapless_step w _ h hproper.1
    have hsmax : s.maxTxid = endTxid (w.bucket level) :=
      hmax.trans (foldl_max_sources h.inv.filed (h.chain (by omega)) hfilter)
    have hmem : ∀ f ∈ (w.act (.put (level + 1) s)).bucket (level + 1), f ∈ w.bucket (level + 1) ∨
        f = s := by
      intro f hf
      rw [World.act_put_same] at hf
      exact (Bucket.mem_insertFile.1 hf).symm
    have hs : s ∈ (w.act (.put (level + 1) s)).bucket (level + 1) := by
      rw [World.act_put_same]
      exact (Bucket.mem_insertFile_iff (h.inv.sorted _)).mpr (.inl rfl)
    refine ⟨hgapless, ?_, fun l hl => World.act_put_of_ne w s hl, ?_, fun f hf => ?_⟩
    · rfl
    · -- the new file ends last
      obtain ⟨f, hf, hend⟩ := exists_mem_endTxid (List.ne_nil_of_mem hs)
      have hle := hgapless.maxTxid_le (show level + 1 ≤ 8 from hhigh) hs
      rcases hmem f hf with hf | rfl
      · have hold := h.maxTxid_le (show level + 1 ≤ 8 from hhigh) hf
        have hlevel := h.ends_le hhigh
        rw [Nat.add_sub_cancel]
        show endTxid ((w.act (.put (level + 1) s)).bucket (level + 1)) = _
        omega
      · exact hend.symm.trans hsmax
    · rcases hmem f hf with hf | rfl
      · exact .inl hf
      · exact .inr hsmax

/-! ## Before retention -/

/-- Deletes of one level change nothing else. -/
theorem applyAll_deletes {level : Nat} {infos : List FileInfo} (h : ∀ f ∈ infos, f.level = level)
    (w : World) :
    (Script.applyAll World.act w (Bucket.deleteLtxFiles infos)).uploaded = w.uploaded ∧
      ∀ l ≠ level, (Script.applyAll World.act w (Bucket.deleteLtxFiles infos)).bucket l =
        w.bucket l := by
  induction infos generalizing w with
  | nil => exact ⟨rfl, fun _ _ => rfl⟩
  | cons f infos ih =>
      obtain ⟨huploaded, hother⟩ := ih (fun x hx => h x (List.mem_cons_of_mem _ hx))
        (w.act (.delete f.level f.minTxid f.maxTxid))
      refine ⟨huploaded, fun l hl => (hother l hl).trans ?_⟩
      exact World.act_delete_of_ne w _ _ (by rw [h f (List.mem_cons_self ..)]; exact hl)

/-- Deletes of level 0 or 9 are consumed. -/
theorem consumed_deletes_outside {infos : List FileInfo}
    (h : ∀ f ∈ infos, f.level = 0 ∨ 8 < f.level) :
    Script.AllowedAll World.act Consumed w (Bucket.deleteLtxFiles infos) := by
  induction infos generalizing w with
  | nil => exact trivial
  | cons f infos ih =>
      refine ⟨fun hlow hhigh => ?_, ih fun x hx => h x (List.mem_cons_of_mem _ hx)⟩
      rcases h f (List.mem_cons_self ..) with hl | hl
      · omega
      · omega

/-- Retention of level 0 is proper and touches that level only. -/
theorem enforceL0Retention_yields (h : Gapless c U w) (grace : Nat) (now : Int) :
    Script.Yields World.act w (enforceL0Retention grace now) (Proper c U) fun _ w' =>
      Gapless c U w' ∧ w'.uploaded = w.uploaded ∧ ∀ l ≠ 0, w'.bucket l = w.bucket l := by
  obtain ⟨infos, hinfos, hlevel⟩ := enforceL0Retention_deletes grace now w
  have hallowed := enforceL0Retention_safe (c := c) (U := U) grace now w h.inv
  have hdetailed := enforceL0Retention_tidy grace now w h.inv.sorted
  rw [hinfos] at hallowed hdetailed
  rw [Script.Yields, hinfos]
  have hproper := allowedAll_proper hallowed hdetailed
    (consumed_deletes_outside fun f hf => .inl (hlevel f hf))
  exact ⟨hproper, fun _ _ => ⟨hproper.keeps gapless_step h, applyAll_deletes hlevel w⟩⟩

section
variable {opts : MaintenanceOptions} {now : Int} {w₀ : World}

/-- A world in which a maintenance run has been over the levels below one. -/
structure Compacted (opts : MaintenanceOptions) (now : Int) (w₀ : World) (level : Nat) (w : World) :
    Prop where
  uploaded : w.uploaded = w₀.uploaded
  higher : ∀ l, level ≤ l → w.bucket l = w₀.bucket l
  ends : ∀ l < level, endTxid (w.bucket l) = opts.reach w₀ now l
  files : ∀ l < level, 1 ≤ l → ∀ f ∈ w.bucket l, f ∈ w₀.bucket l ∨ f.maxTxid = opts.reach w₀ now l
  fresh : ∀ l < level, 1 ≤ l → w.bucket l ≠ [] →
    w₀.bucket l ≠ [] ∨ opts.reach w₀ now l = opts.reach w₀ now (l - 1)

/-- Before the first level nothing has been compacted. -/
theorem compacted_start : Compacted opts now w₀ 1 w₀ where
  uploaded := rfl
  higher _ _ := rfl
  ends l hl := by
    obtain rfl : l = 0 := by omega
    rfl
  files l hl hlow := by omega
  fresh l hl hlow := by omega

/-- A level that is not compacted. -/
theorem Compacted.skip {level : Nat} (h : Compacted opts now w₀ (level + 1) w)
    (hnot : ¬ opts.Compacts w₀ now (level + 1)) : Compacted opts now w₀ (level + 2) w := by
  have hreach : opts.reach w₀ now (level + 1) = endTxid (w₀.bucket (level + 1)) := if_neg hnot
  have hbucket := h.higher (level + 1) (Nat.le_refl _)
  refine ⟨h.uploaded, fun l hl => h.higher l (by omega), fun l hl => ?_, fun l hl hlow f hf => ?_,
    fun l hl hlow hne => ?_⟩
  all_goals rcases Nat.lt_succ_iff_lt_or_eq.mp hl with hl | rfl
  · exact h.ends l hl
  · rw [hreach, hbucket]
  · exact h.files l hl hlow f hf
  · exact .inl (hbucket ▸ hf)
  · exact h.fresh l hl hlow hne
  · exact .inl (hbucket ▸ hne)

/-- A level that is compacted. -/
theorem Compacted.lift {level : Nat} {w' : World} (h : Compacted opts now w₀ (level + 1) w)
    (hdue : opts.Compacts w₀ now (level + 1)) (hlift : Lifted w (level + 1) w') :
    Compacted opts now w₀ (level + 2) w' := by
  have hreach : opts.reach w₀ now (level + 1) = opts.reach w₀ now level := if_pos hdue
  have hbelow : endTxid (w.bucket (level + 1 - 1)) = opts.reach w₀ now (level + 1) := by
    rw [hreach, Nat.add_sub_cancel]
    exact h.ends level (Nat.lt_succ_self _)
  have hbucket := h.higher (level + 1) (Nat.le_refl _)
  refine ⟨hlift.uploaded.trans h.uploaded, fun l hl => ?_, fun l hl => ?_, fun l hl hlow f hf => ?_,
    fun l hl hlow hne => ?_⟩
  · rw [hlift.other l (by omega)]
    exact h.higher l (by omega)
  all_goals rcases Nat.lt_succ_iff_lt_or_eq.mp hl with hl | rfl
  · rw [hlift.other l (by omega)]
    exact h.ends l hl
  · exact hlift.ends.trans hbelow
  · rw [hlift.other l (by omega)] at hf
    exact h.files l hl hlow f hf
  · rcases hlift.files f hf with hf | hf
    · exact .inl (hbucket ▸ hf)
    · exact .inr (hf.trans hbelow)
  · rw [hlift.other l (by omega)] at hne
    exact h.fresh l hl hlow hne
  · exact .inr hreach

/-- Level-0 retention does not matter: the newest level-0 file stays. -/
theorem Compacted.retireL0 {level : Nat} {w' : World} (h : Compacted opts now w₀ (level + 1) w)
    (hw : Gapless c U w) (hw' : Gapless c U w') (huploaded : w'.uploaded = w.uploaded)
    (hother : ∀ l ≠ 0, w'.bucket l = w.bucket l) :
    Compacted opts now w₀ (level + 1) w' := by
  refine ⟨huploaded.trans h.uploaded, fun l hl => ?_, fun l hl => ?_, fun l hl hlow => ?_,
    fun l hl hlow => ?_⟩
  · rw [hother l (by omega)]
    exact h.higher l hl
  · by_cases hzero : l = 0
    · subst hzero
      rw [hw'.inv.l0_end, huploaded, ← hw.inv.l0_end]
      exact h.ends 0 hl
    · rw [hother l hzero]
      exact h.ends l hl
  · rw [hother l (by omega)]
    exact h.files l hl hlow
  · rw [hother l (by omega)]
    exact h.fresh l hl hlow

/-- Without intervals for the levels that are left, they are not compacted. -/
theorem Compacted.finish {level n : Nat} (h : Compacted opts now w₀ (level + 1) w)
    (hlast : opts.levelIntervals.length ≤ level) (hn : level + 1 ≤ n) :
    Compacted opts now w₀ n w := by
  induction n, hn using Nat.le_induction with
  | base => exact h
  | succ n hn ih =>
      obtain ⟨m, rfl⟩ : ∃ m, n = m + 1 := ⟨n - 1, by omega⟩
      refine ih.skip fun hdue => ?_
      have hnone : opts.levelIntervals[m]? = none := List.getElem?_eq_none (by omega)
      have hany := hdue.2
      rw [Nat.add_sub_cancel, hnone] at hany
      cases hany

/-- Whether a level is due shows on that level. -/
theorem levelDue_congr {w w' : World} {level : Nat} (h : w'.bucket level = w.bucket level)
    (interval : Nat) (now : Int) :
    levelDue w'.bucket level interval now = levelDue w.bucket level interval now := by
  have hfiles : w'.bucket.ltxFiles level 0 = w.bucket.ltxFiles level 0 := by
    rw [Bucket.ltxFiles, Bucket.ltxFiles, h]
  rw [levelDue, levelDue, Bucket.maxLtxFileInfo, Bucket.maxLtxFileInfo, hfiles]

/-- **The compactions of a maintenance run** are proper, and take each level where `reach` says. -/
theorem compactDue_yields (hc : c.Lawful) (createdAt : Nat → Option Int) {intervals : List Nat}
    {level : Nat} (hintervals : opts.levelIntervals.drop level = intervals)
    (hhigh : level + intervals.length ≤ 8)
    (h : Gapless c U w) (hdone : Compacted opts now w₀ (level + 1) w) :
    Script.Yields World.act w (compactDue c opts now createdAt (level + 1) intervals) (Proper c U)
      fun _ w' => Gapless c U w' ∧ Compacted opts now w₀ 9 w' := by
  -- over the intervals that are left, from the level they begin at
  induction intervals generalizing level w with
  | nil =>
      have hlast := List.drop_eq_nil_iff.mp hintervals
      rw [List.length_nil] at hhigh
      exact Script.yields_done ⟨h, hdone.finish hlast (by omega)⟩
  -- a level is compacted if it is due, then level 0 is pruned behind level 1
  | cons interval intervals ih =>
      rw [List.length_cons] at hhigh
      have hinterval : opts.levelIntervals[level]? = some interval := by
        rw [← Nat.add_zero level, ← List.getElem?_drop, hintervals]
        rfl
      have hrest : opts.levelIntervals.drop (level + 1) = intervals := by
        rw [← List.drop_drop, hintervals]
        rfl
      have hsame : levelDue w.bucket (level + 1) interval now =
          levelDue w₀.bucket (level + 1) interval now :=
        levelDue_congr (hdone.higher _ (Nat.le_refl _)) interval now
      have hcompacts : opts.Compacts w₀ now (level + 1) ↔
          levelDue w.bucket (level + 1) interval now := by
        rw [MaintenanceOptions.Compacts, Nat.add_sub_cancel, hinterval, hsame]
        simp
      refine Script.Yields.andThen
        (Q := fun _ w' => Gapless c U w' ∧ Compacted opts now w₀ (level + 2) w') ?_ ?_
      · -- the decision is the one of the listings before the call: this level is untouched so far
        by_cases hdue : levelDue w.bucket (level + 1) interval now
        · have hlift := compactLevel_yields hc h (show level < 8 by omega) (createdAt (level + 1))
          have hnext := hlift.mono fun _ w' hw' =>
            And.intro hw'.1 (hdone.lift (hcompacts.mpr hdue) hw'.2)
          unfold Script.Yields at hnext ⊢
          simp only [if_pos hdue]
          exact hnext
        · unfold Script.Yields
          simp only [if_neg hdue]
          exact ⟨trivial, fun _ _ => ⟨h, hdone.skip fun hcs => hdue (hcompacts.mp hcs)⟩⟩
      · rintro compacted w' ⟨hw', hdone'⟩
        refine Script.Yields.andThen
          (Q := fun _ w'' => Gapless c U w'' ∧ Compacted opts now w₀ (level + 2) w'') ?_ ?_
        · -- compact_level prunes level 0 only behind level 1
          split
          · exact (enforceL0Retention_yields hw' _ now).mono fun _ w'' hw'' =>
              ⟨hw''.1, hdone'.retireL0 hw' hw''.1 hw''.2.1 hw''.2.2⟩
          · exact Script.yields_done ⟨hw', hdone'⟩
        · rintro _ w'' ⟨hw'', hdone''⟩
          exact (ih hrest (by omega) hw'' hdone'').andThen fun _ _ h => Script.yields_done h

/-! ## Snapshots -/

/-- The uploads of a call are proper and touch level 0 only. -/
theorem uploadPending_yields (h : Gapless c U w) (pending : List (Option Int)) :
    Script.Yields World.act w (uploadPending c U pending) (Proper c U) fun _ w' =>
      Gapless c U w' ∧ w'.uploaded ≤ w.uploaded + pending.length ∧
      ∀ l ≠ 0, w'.bucket l = w.bucket l := by
  induction pending generalizing w with
  | nil => exact Script.yields_done ⟨h, Nat.le_refl _, fun _ _ => rfl⟩
  | cons createdAt rest ih =>
      have hallowed := upload_safe (c := c) (U := U) createdAt w h.inv
      have hdetailed := upload_tidy (c := c) (U := U) createdAt w h.inv.sorted
      -- one upload touches level 0 only, and counts at most one transaction
      have hfirst : Script.Yields World.act w (upload c U createdAt) (Proper c U) fun _ w' =>
          Gapless c U w' ∧ w'.uploaded ≤ w.uploaded + 1 ∧ ∀ l ≠ 0, w'.bucket l = w.bucket l := by
        unfold Script.Yields
        rw [upload] at hallowed hdetailed ⊢
        split
        · rename_i hn
          rw [if_pos hn] at hallowed hdetailed
          have hproper := allowedAll_proper hallowed hdetailed ⟨trivial, trivial⟩
          refine ⟨hproper, fun _ _ => ⟨hproper.keeps gapless_step h, ?_, fun l hl => ?_⟩⟩
          · exact Nat.max_le.mpr ⟨Nat.le_succ _, Nat.le_refl _⟩
          · exact World.act_put_of_ne w _ hl
        · exact ⟨trivial, fun _ _ => ⟨h, Nat.le_succ _, fun _ _ => rfl⟩⟩
      refine hfirst.andThen fun _ w' hw' => (ih hw'.1).mono fun _ w'' hw'' =>
        ⟨hw''.1, ?_, fun l hl => ?_⟩
      · have h1 := hw'.2.1
        have h2 := hw''.2.1
        rw [List.length_cons]
        omega
      · rw [hw''.2.2 l hl, hw'.2.2 l hl]

/-- A world with a snapshot of what was pending. -/
structure Snapped (pending : List (Option Int)) (w w' : World) : Prop where
  uploaded : w'.uploaded ≤ w.uploaded + pending.length
  levels : ∀ l, 1 ≤ l → l ≤ 8 → w'.bucket l = w.bucket l
  snapshots : w'.bucket snapshotLevel = w.bucket snapshotLevel ∨
    ∃ s : Stored, s.maxTxid = w'.uploaded ∧
      w'.bucket snapshotLevel = Bucket.insertFile s (w.bucket snapshotLevel)

/-- A snapshot is proper, and moves level 9 and level 0 only. -/
theorem snapshotOf_yields {image : ImageSource} (hexact : image.Exact c U) (h : Gapless c U w)
    (pending : List (Option Int)) (createdAt : Option Int) :
    Script.Yields World.act w (snapshotOf c U image pending createdAt) (Proper c U) fun _ w' =>
      Gapless c U w' ∧ Snapped pending w w' := by
  refine (uploadPending_yields h pending).andThen fun _ w' hw' => ?_
  obtain ⟨hgapless, hle, hother⟩ := hw'
  have hsame : Snapped pending w w' :=
    ⟨hle, fun l hl _ => hother l (by omega), .inl (hother _ (by decide))⟩
  unfold Script.Yields
  by_cases hzero : w'.uploaded = 0
  · simp only [if_pos hzero]
    exact ⟨trivial, fun _ _ => ⟨hgapless, hsame⟩⟩
  · simp only [if_neg hzero]
    cases hbody : image w'.uploaded with
    | none => exact ⟨trivial, fun _ ha => by cases ha⟩
    | some body =>
        have hok := hexact _ _ hbody (by omega) hgapless.inv.bound createdAt
        have hproper : Proper c U w' (.put snapshotLevel ⟨1, w'.uploaded, createdAt, body⟩) :=
          ⟨.snapshot _ rfl hok, detailed_of_outside (.inr (by decide)) (.inl ⟨_, rfl⟩), trivial⟩
        refine ⟨⟨hproper, trivial⟩,
          fun _ _ => ⟨gapless_step w' _ hgapless hproper, hle, fun l hl hl8 => ?_,
          .inr ⟨⟨1, w'.uploaded, createdAt, body⟩, rfl, ?_⟩⟩⟩
        · exact (World.act_put_of_ne w' _ (by rw [snapshotLevel]; omega)).trans
            (hother l (by omega))
        · exact (World.act_put_same w' _ _).trans (congrArg _ (hother _ (by decide)))

/-- The floor is where a snapshot ends that expires with all older ones. -/
theorem expiredSnapshots_floor (cutoff : Int) (newest prevMax : Nat) {infos : List FileInfo}
    (hsorted : infos.Pairwise (·.maxTxid < ·.maxTxid)) :
    (expiredSnapshots cutoff newest prevMax infos).2 = 0 ∨
      (expiredSnapshots cutoff newest prevMax infos).2 = prevMax ∨
      ∃ f ∈ infos, f.maxTxid = (expiredSnapshots cutoff newest prevMax infos).2 ∧
        f.maxTxid ≠ newest ∧
        ∀ g ∈ infos, g.maxTxid ≤ f.maxTxid → g.createdAt.any (· < cutoff) := by
  induction infos generalizing prevMax with
  | nil => exact .inl rfl
  | cons info infos ih =>
      obtain ⟨hfirst, hrest⟩ := List.pairwise_cons.mp hsorted
      rw [expiredSnapshots]
      split
      · rename_i hexpired
        obtain h0 | hprev | ⟨f, hf, hend, hne, hall⟩ := ih info.maxTxid hrest
        · exact .inl h0
        · refine .inr (.inr ⟨info, List.mem_cons_self .., hprev.symm, hexpired.2,
            fun g hg hle => ?_⟩)
          rcases List.mem_cons.mp hg with rfl | hg
          · exact hexpired.1
          · have hlt := hfirst g hg
            omega
        · refine .inr (.inr ⟨f, List.mem_cons_of_mem _ hf, hend, hne, fun g hg hle => ?_⟩)
          rcases List.mem_cons.mp hg with rfl | hg
          · exact hexpired.1
          · exact hall g hg hle
      · exact .inr (.inl rfl)

/-- **The floor** of a gapless bucket: it is where a snapshot ends that expires with all older ones,
and is not the newest. -/
theorem retireSnapshots_floor (h : Gapless c U w) {retention deleted floor : Nat}
    (hrun : (retireSnapshots retention now w).2 = .ok (some (deleted, floor)))
    (hfloor : floor ≠ 0) :
    ∃ x ∈ w.bucket snapshotLevel, x.maxTxid = floor ∧
      (∃ y ∈ w.bucket snapshotLevel, x.maxTxid < y.maxTxid) ∧
      ∀ y ∈ w.bucket snapshotLevel, y.maxTxid ≤ x.maxTxid →
        y.createdAt.any (· < cutoff now retention) := by
  rw [retireSnapshots] at hrun
  simp only [Bucket.ltxFiles_zero] at hrun
  split at hrun
  · cases hrun
  rename_i newest hnewest
  -- all snapshots start at transaction 1, so they are listed by where they end
  have hsorted : ((w.bucket snapshotLevel).map (Stored.info snapshotLevel)).Pairwise
      (·.maxTxid < ·.maxTxid) := by
    refine List.pairwise_map.mpr
      ((h.inv.sorted snapshotLevel).imp_of_mem fun {s t} hs ht hbefore => ?_)
    have hs1 := h.inv.snapshots s hs
    have ht1 := h.inv.snapshots t ht
    show s.maxTxid < t.maxTxid
    unfold Stored.Before at hbefore
    omega
  have hends := (Prod.mk.inj (Option.some.inj (Except.ok.inj hrun))).2
  obtain h0 | h0 | ⟨f, hf, hend, hne, hall⟩ :=
    expiredSnapshots_floor (cutoff now retention) newest 0 hsorted
  · exact absurd (hends.symm.trans h0) hfloor
  · exact absurd (hends.symm.trans h0) hfloor
  · obtain ⟨x, hx, rfl⟩ := List.mem_map.mp hf
    obtain ⟨hmem, hmax⟩ := List.max?_eq_some_iff.mp hnewest
    obtain ⟨g, hg, hgmax⟩ := List.mem_map.mp hmem
    obtain ⟨y, hy, rfl⟩ := List.mem_map.mp hg
    refine ⟨x, hx, hend.trans hends, ⟨y, hy, ?_⟩,
      fun z hz hle => hall _ (List.mem_map_of_mem hz) hle⟩
    have hle := hmax _ (List.mem_map_of_mem hf)
    have hymax : y.maxTxid = newest := hgmax
    have hxle : x.maxTxid ≤ newest := hle
    have hxne : x.maxTxid ≠ newest := hne
    omega

/-- It was a snapshot before the run, and the run was to expire it. -/
theorem expires_of_floor {w₁ w₂ : World} (hw₂ : Gapless c U w₂) (hw₀ : Gapless c U w₀)
    (hdone : Compacted opts now w₀ 9 w₁) {pending : List (Option Int)}
    (hsnap : Snapped pending w₁ w₂) (hdue : w₂.bucket snapshotLevel = w₁.bucket snapshotLevel ∨
      levelDue w₁.bucket snapshotLevel opts.snapshotInterval now) {deleted floor : Nat}
    (hrun : (retireSnapshots opts.snapshotRetention now w₂).2 = .ok (some (deleted, floor)))
    (hfloor : floor ≠ 0) :
    ∃ x ∈ w₀.bucket snapshotLevel, opts.Expires w₀ now pending x ∧ x.maxTxid = floor := by
  obtain ⟨x, hx, hend, ⟨y, hy, hlt⟩, hall⟩ := retireSnapshots_floor hw₂ hrun hfloor
  have hnine : w₁.bucket snapshotLevel = w₀.bucket snapshotLevel := hdone.higher _ (Nat.le_refl _)
  have hsame : w₂.bucket snapshotLevel = w₁.bucket snapshotLevel → ∃ x ∈ w₀.bucket snapshotLevel,
      opts.Expires w₀ now pending x ∧ x.maxTxid = floor := by
    intro heq
    rw [heq, hnine] at hx hy hall
    exact ⟨x, hx, ⟨hall, .inl ⟨y, hy, hlt⟩⟩, hend⟩
  rcases hsnap.snapshots with heq | ⟨s, hs, heq⟩
  · exact hsame heq
  rcases hdue with hdue | hdue
  · exact hsame hdue
  rw [hnine] at heq
  -- the new snapshot ends last, so what expires was there before
  have hylast := (hw₂.inv.files _ y hy).1
  have hkeep : ∀ z ∈ w₀.bucket snapshotLevel, z.maxTxid ≤ x.maxTxid →
      z ∈ w₂.bucket snapshotLevel := by
    intro z hz hle
    rw [heq]
    refine (Bucket.mem_insertFile_iff (hw₀.inv.sorted _)).mpr (.inr ⟨hz, fun hkey => ?_⟩)
    have hmax : z.maxTxid = s.maxTxid := (Prod.mk.inj hkey).2
    omega
  have hold : x ∈ w₀.bucket snapshotLevel := by
    rw [heq] at hx
    rcases Bucket.mem_insertFile.1 hx with rfl | hx
    · omega
    · exact hx
  refine ⟨x, hold, ⟨fun z hz hle => hall z (hkeep z hz hle) hle, .inr ⟨?_, ?_⟩⟩, hend⟩
  · rw [← levelDue_congr hnine]
    exact hdue
  · have hle := hsnap.uploaded
    rw [hdone.uploaded] at hle
    omega

end

/-! ## Retention -/

/-- What ends below a floor, the last file of each level excepted, is merged by the next level. -/
def Released (floor : Nat) (w : World) : Prop :=
  ∀ level, 1 ≤ level → level ≤ 7 → w.bucket (level + 1) ≠ [] → ∀ f ∈ w.bucket level,
    f.maxTxid < floor → f.maxTxid < endTxid (w.bucket level) →
      f.maxTxid ≤ endTxid (w.bucket (level + 1))

/-- A DELETE that takes nothing of levels 1 to 8 from the floor on. -/
def Below (floor : Nat) : Mutation → Prop
  | .put _ _ => False
  | .delete level _ maxTxid => 1 ≤ level → level ≤ 8 → maxTxid < floor

/-- A DELETE of a file that is not the last of its level. -/
theorem endTxid_delete {level minTxid maxTxid : Nat} {last : Stored}
    (hlast : (w.bucket level).getLast? = some last) (hne : last.key ≠ (minTxid, maxTxid)) :
    endTxid ((w.act (.delete level minTxid maxTxid)).bucket level) = endTxid (w.bucket level) := by
  rw [World.act_delete_same, endTxid, endTxid, hlast, getLast?_filter hlast (decide_eq_true hne)]

/-- An allowed DELETE leaves the last file of its level. -/
theorem last_of_allowed (h : Gapless c U w) {level minTxid maxTxid : Nat} (hlow : 1 ≤ level)
    (hm : Allowed c U w (.delete level minTxid maxTxid)) :
    ∃ last, (w.bucket level).getLast? = some last ∧ last.key ≠ (minTxid, maxTxid) := by
  cases hm with
  | retireL0 s rest heq hne => cases hlow
  | retireL1 s rest heq hne =>
      obtain ⟨init, last, rfl⟩ := (List.eq_nil_or_concat' rest).resolve_left hne
      have hlast : last ∈ w.bucket 1 := by simp [heq]
      have hgetLast : (w.bucket 1).getLast? = some last := by
        rw [heq, ← List.cons_append]
        exact List.getLast?_concat
      refine ⟨last, hgetLast, fun hkey => ?_⟩
      have hlt := maxTxid_lt_minTxid (heq ▸ h.inv.l1)
        (fun x hx => (h.inv.files 1 x (by rw [heq]; simp [hx])).range.2.1)
        last (by simp)
      have hvalid := (h.inv.files 1 last hlast).range.2.1
      have hmax : last.maxTxid = s.maxTxid := (Prod.mk.inj hkey).2
      omega
  | retire _ _ _ last _ hlast hne => exact ⟨last, hlast, hne⟩

/-- **One DELETE below the floor** is proper, and leaves what is below the floor released. -/
theorem proper_of_below {floor : Nat} (m : Mutation) (h : Gapless c U w) (hr : Released floor w)
    (ha : Allowed c U w m) (hd : Detailed w m) (hb : Below floor m) :
    Proper c U w m ∧ Released floor (w.act m) := by
  cases m with
  | put level s => exact hb.elim
  | delete level minTxid maxTxid =>
      -- a deleted file is not the last of its level, so it ends below it, and the level above has
      -- merged past it or is empty
      refine ⟨⟨ha, hd, fun hlow hhigh => ?_⟩, fun l hlow hhigh hne f hf hfloor hlt => ?_⟩
      · obtain ⟨last, hlast, hlne⟩ := last_of_allowed h hlow ha
        obtain ⟨s, hs, hkey, -⟩ := hd hlow (by omega)
        obtain ⟨rfl, rfl⟩ := Prod.mk.inj hkey
        by_cases hnil : w.bucket (level + 1) = []
        · exact .inl hnil
        · refine .inr (hr level hlow hhigh hnil s hs (hb hlow (by omega))
            (h.maxTxid_lt (by omega) hs ?_))
          rw [hlast]
          exact fun heq => hlne (congrArg Stored.key (Option.some.inj heq))
      · -- levels end where they did, and hold no more than before
        have hends : ∀ l, 1 ≤ l →
            endTxid ((w.act (.delete level minTxid maxTxid)).bucket l) = endTxid (w.bucket l) := by
          intro l hl
          by_cases hlevel : l = level
          · subst hlevel
            obtain ⟨last, hlast, hlne⟩ := last_of_allowed h hl ha
            exact endTxid_delete hlast hlne
          · rw [World.act_delete_of_ne w _ _ hlevel]
        have hsub : ∀ l, (w.act (.delete level minTxid maxTxid)).bucket l ⊆ w.bucket l := by
          intro l
          by_cases hlevel : l = level
          · subst hlevel
            rw [World.act_delete_same]
            exact List.filter_subset_self _
          · rw [World.act_delete_of_ne w _ _ hlevel]
            exact List.Subset.refl _
        rw [hends l hlow] at hlt
        rw [hends (l + 1) (by omega)]
        exact hr l hlow hhigh (fun hnil => hne (List.subset_nil.mp (hnil ▸ hsub (l + 1)))) f
          (hsub l hf) hfloor hlt

/-- Deletes below a floor. -/
theorem below_deletes {floor : Nat} {infos : List FileInfo}
    (h : ∀ f ∈ infos, 1 ≤ f.level → f.level ≤ 8 → f.maxTxid < floor) :
    Script.AllowedAll World.act (fun _ m => Below floor m) w (Bucket.deleteLtxFiles infos) := by
  induction infos generalizing w with
  | nil => exact trivial
  | cons f infos ih =>
      exact ⟨h f (List.mem_cons_self ..), ih fun x hx => h x (List.mem_cons_of_mem _ hx)⟩

/-- The cascade deletes files below its floor only. -/
theorem retireLevels_below (floor : Nat) (levels : List Nat) :
    Script.Safe World.act (fun _ => True) (fun _ m => Below floor m)
      (retireLevels floor levels) := by
  have hstep : ∀ (w : World) (m : Mutation), True → Below floor m → True := fun _ _ _ _ => trivial
  induction levels with
  | nil => exact Script.safe_done 0
  | cons level levels ih =>
      refine Script.Safe.andThen hstep (fun w _ => ?_) fun _ => ih.andThen hstep fun _ =>
        Script.safe_done _
      obtain ⟨infos, hinfos, hlevel⟩ := retireLevel_deletes floor level w
      rw [hinfos]
      exact below_deletes fun f hf _ _ => (hlevel f hf).2

/-- Retention of level 0 deletes nothing above level 0. -/
theorem enforceL0Retention_below (floor grace : Nat) (now : Int) :
    Script.Safe World.act (fun _ => True) (fun _ m => Below floor m)
      (enforceL0Retention grace now) := by
  intro w _
  obtain ⟨infos, hinfos, hlevel⟩ := enforceL0Retention_deletes grace now w
  rw [hinfos]
  refine below_deletes fun f hf hlow _ => ?_
  have hzero := hlevel f hf
  omega

/-- Retention deletes below the floor that it finds. -/
theorem enforceRetention_below {opts : MaintenanceOptions} {now : Int} {floor : Nat}
    (hfloor : ∀ deleted n, (retireSnapshots opts.snapshotRetention now w).2 =
      .ok (some (deleted, n)) → n = floor) :
    Script.AllowedAll World.act (fun _ m => Below floor m) w (enforceRetention opts now w).1 := by
  have hstep : ∀ (w : World) (m : Mutation), True → Below floor m → True := fun _ _ _ _ => trivial
  have hsnapshots : Script.Yields World.act w (retireSnapshots opts.snapshotRetention now)
      (fun _ m => Below floor m)
      fun r _ => ∀ deleted n, r = some (deleted, n) → n = floor := by
    refine ⟨?_, fun r hr deleted n heq => hfloor deleted n (heq ▸ hr)⟩
    obtain ⟨infos, hinfos, hlevel⟩ := retireSnapshots_deletes opts.snapshotRetention now w
    rw [hinfos]
    refine below_deletes fun f hf _ hhigh => ?_
    have hnine := hlevel f hf
    rw [snapshotLevel] at hnine
    omega
  refine (hsnapshots.andThen (R := fun _ _ => True) fun r w' hr => ?_).1
  cases r with
  | none => exact Script.yields_done trivial
  | some r =>
      obtain ⟨deleted, n⟩ := r
      obtain rfl := hr deleted n rfl
      refine Script.Safe.yields (Script.Safe.andThen hstep ?_ fun _ =>
        (enforceL0Retention_below n _ now).andThen hstep fun _ => Script.safe_done _) hstep trivial
      split
      · exact Script.safe_done 0
      · exact retireLevels_below n _

/-- **Retention** is proper if what lies below its floor is released. -/
theorem enforceRetention_proper (h : Gapless c U w) {opts : MaintenanceOptions} {now : Int}
    (hreleased : ∀ deleted floor,
      (retireSnapshots opts.snapshotRetention now w).2 = .ok (some (deleted, floor)) →
      floor ≠ 0 → Released floor w) :
    Script.AllowedAll World.act (Proper c U) w (enforceRetention opts now w).1 := by
  -- the floor that the snapshots give, or 0 where they give none
  obtain ⟨floor, hfloor, hr⟩ : ∃ floor, (∀ deleted n,
      (retireSnapshots opts.snapshotRetention now w).2 = .ok (some (deleted, n)) → n = floor) ∧
        Released floor w := by
    have hzero : Released 0 w := fun _ _ _ _ f _ hlt => absurd hlt (Nat.not_lt_zero _)
    cases hrun : (retireSnapshots opts.snapshotRetention now w).2 with
    | error e => exact ⟨0, fun _ _ heq => (by cases heq), hzero⟩
    | ok r =>
        cases r with
        | none => exact ⟨0, fun _ _ heq => (by cases heq), hzero⟩
        | some r =>
            obtain ⟨deleted, floor⟩ := r
            refine ⟨floor, fun _ n heq => ?_, ?_⟩
            · exact (Prod.mk.inj (Option.some.inj (Except.ok.inj heq))).2.symm
            · by_cases h0 : floor = 0
              · exact h0 ▸ hzero
              · exact hreleased deleted floor hrun h0
  have hallowed := enforceRetention_safe (c := c) (U := U) opts now w h.inv
  have hdetailed := enforceRetention_tidy opts now w h.inv.sorted
  have hbelow := enforceRetention_below hfloor
  have hall := (hallowed.and hdetailed).and hbelow
  -- every DELETE below the floor leaves the levels merged past it
  refine hall.imp_of_keeps (P := fun w => Gapless c U w ∧ Released floor w) ?_ ⟨h, hr⟩ ?_
  · rintro w m ⟨hw, hr⟩ ⟨⟨ha, hd⟩, hb⟩
    obtain ⟨hproper, hr'⟩ := proper_of_below m hw hr ha hd hb
    exact ⟨gapless_step w m hw hproper, hr'⟩
  · rintro w m ⟨hw, hr⟩ ⟨⟨ha, hd⟩, hb⟩
    exact (proper_of_below m hw hr ha hd hb).1

/-! ## Maintenance runs -/

/-- **What a merged run retires is released** when its retention starts. -/
theorem released_of_merged {opts : MaintenanceOptions} {now : Int} {pending : List (Option Int)}
    {w₀ w₁ w₂ : World} (hmerged : opts.Merged w₀ now pending) (hw₀ : Gapless c U w₀)
    (hw₂ : Gapless c U w₂)
    (hdone : Compacted opts now w₀ 9 w₁) (hsnap : Snapped pending w₁ w₂)
    (hdue : w₂.bucket snapshotLevel = w₁.bucket snapshotLevel ∨
      levelDue w₁.bucket snapshotLevel opts.snapshotInterval now) {deleted floor : Nat}
    (hrun : (retireSnapshots opts.snapshotRetention now w₂).2 = .ok (some (deleted, floor)))
    (hfloor : floor ≠ 0) :
    Released floor w₂ := by
  obtain ⟨x, hx, hexpires, rfl⟩ := expires_of_floor hw₂ hw₀ hdone hsnap hdue hrun hfloor
  intro level hlow hhigh hne f hf hlt hlast
  rw [hsnap.levels level hlow (by omega)] at hf hlast
  rw [hsnap.levels (level + 1) (by omega) (by omega)] at hne ⊢
  rw [hdone.ends level (by omega)] at hlast
  rw [hdone.ends (level + 1) (by omega)]
  rcases hdone.fresh (level + 1) (by omega) (by omega) hne with hold | hreach
  · rcases hdone.files level (by omega) hlow f hf with hf | hf
    · exact hmerged x hx hexpires level (List.mem_range'_1.mpr (by omega)) hold f hf hlt hlast
    · omega
  · -- the next level has just been compacted
    rw [hreach, Nat.add_sub_cancel]
    exact hlast.le

/-- **A merged run** is proper. -/
theorem maintainOf_proper (hc : c.Lawful) {image : ImageSource} (hexact : image.Exact c U)
    {opts : MaintenanceOptions} (hlevels : opts.levelIntervals.length ≤ 8) {now : Int}
    {createdAt : Nat → Option Int} {pending : List (Option Int)} (h : Gapless c U w)
    (hmerged : opts.retentionEnabled → opts.Merged w now pending) :
    Script.AllowedAll World.act (Proper c U) w
      (maintainOf c U image opts now createdAt pending w).1 := by
  have hcompact : Script.Yields World.act w
      (compactDue c opts now createdAt (0 + 1) (opts.levelIntervals.drop 0)) (Proper c U)
      fun _ w' => Gapless c U w' ∧ Compacted opts now w 9 w' :=
    compactDue_yields hc createdAt rfl (by simpa using hlevels) h compacted_start
  -- the due compactions
  refine (hcompact.andThen (R := fun _ _ => True) fun _ w₁ hw₁ => ?_).1
  obtain ⟨hw₁, hdone⟩ := hw₁
  refine Script.Yields.andThen (Q := fun _ w₂ => Gapless c U w₂ ∧ Snapped pending w₁ w₂ ∧
    (w₂.bucket snapshotLevel = w₁.bucket snapshotLevel ∨
      levelDue w₁.bucket snapshotLevel opts.snapshotInterval now)) ?_ ?_
  · -- the snapshot, if it is due
    by_cases hdue : levelDue w₁.bucket snapshotLevel opts.snapshotInterval now
    · have hsnapshot := (snapshotOf_yields hexact hw₁ pending (createdAt snapshotLevel)).mono
        fun _ w₂ hw₂ => And.intro hw₂.1 (And.intro hw₂.2
          (Or.inr (a := w₂.bucket snapshotLevel = w₁.bucket snapshotLevel) hdue))
      unfold Script.Yields at hsnapshot ⊢
      simp only [if_pos hdue]
      exact hsnapshot
    · unfold Script.Yields
      simp only [if_neg hdue]
      exact ⟨trivial, fun _ _ =>
        ⟨hw₁, ⟨Nat.le_add_right _ _, fun _ _ _ => rfl, .inl rfl⟩, .inl rfl⟩⟩
  · rintro _ w₂ ⟨hw₂, hsnap, hdue⟩
    refine Script.Yields.andThen (Q := fun _ _ => True) ?_ fun _ _ _ => Script.yields_done trivial
    refine ⟨?_, fun _ _ => trivial⟩
    -- retention, over the floor of the snapshots there are then
    split
    · rename_i hretention
      exact enforceRetention_proper hw₂ fun deleted floor hrun hfloor =>
        released_of_merged (hmerged hretention) h hw₂ hdone hsnap hdue hrun hfloor
    · exact trivial

/-- **Every ordinary call** that retires merged files only is proper. -/
theorem Call.Merged.proper (hc : c.Lawful) {call : Call} (hcall : call.Ordinary)
    (hexact : call.Exact c U) (hmerged : call.Merged w) (h : Gapless c U w) :
    Script.AllowedAll World.act (Proper c U) w (call.requests c U w) := by
  cases call with
  | push pending => exact (uploadPending_yields h pending).1
  | compactLevel level createdAt =>
      obtain ⟨hlow, hhigh⟩ := hcall
      obtain ⟨l, hl⟩ : ∃ l, level.toNat = l + 1 := ⟨level.toNat - 1, by omega⟩
      rw [Call.requests, hl]
      exact (compactLevel_yields hc h (show l < 8 by omega) createdAt).1
  | snapshot image pending createdAt => exact (snapshotOf_yields hexact h pending createdAt).1
  | maintain image opts now createdAt pending snapshotAt =>
      exact maintainOf_proper hc hexact hcall h hmerged

/-! ## Runs -/

/-- Where a level ends does not depend on bodies. -/
theorem endTxid_mapBodies (f : Nat → Stored → Bytes) (w : World) (level : Nat) :
    endTxid ((w.mapBodies f).bucket level) = endTxid (w.bucket level) := by
  show endTxid ((w.bucket level).map (Stored.mapBody (f level))) = _
  rw [endTxid, endTxid, List.getLast?_map, Option.map_map]
  rfl

/-- Neither does how far a maintenance run compacts a level. -/
theorem reach_mapBodies (f : Nat → Stored → Bytes) (opts : MaintenanceOptions) (w : World)
    (now : Int) (level : Nat) :
    opts.reach (w.mapBodies f) now level = opts.reach w now level := by
  induction level with
  | zero => exact endTxid_mapBodies f w 0
  | succ level ih =>
      have hcompacts : opts.Compacts (w.mapBodies f) now (level + 1) =
          opts.Compacts w now (level + 1) := by
        rw [MaintenanceOptions.Compacts, MaintenanceOptions.Compacts, levelDue_mapBodies]
      simp only [MaintenanceOptions.reach, hcompacts, ih, endTxid_mapBodies]

/-- Whether a call is merged shows on listings. -/
theorem merged_mapBodies (f : Nat → Stored → Bytes) (opts : MaintenanceOptions) (w : World)
    (now : Int) (pending : List (Option Int)) :
    opts.Merged (w.mapBodies f) now pending ↔ opts.Merged w now pending := by
  have hmap : ∀ level, (w.mapBodies f).bucket level =
      (w.bucket level).map (Stored.mapBody (f level)) :=
    fun _ => rfl
  have huploaded : (w.mapBodies f).uploaded = w.uploaded := rfl
  have hmax : ∀ level (s : Stored), (s.mapBody (f level)).maxTxid = s.maxTxid := fun _ _ => rfl
  have hcreated : ∀ level (s : Stored), (s.mapBody (f level)).createdAt = s.createdAt :=
    fun _ _ => rfl
  simp only [MaintenanceOptions.Merged, MaintenanceOptions.Expires, reach_mapBodies,
    levelDue_mapBodies, huploaded, hmap, List.forall_mem_map, ne_eq, List.map_eq_nil_iff, hmax,
    hcreated]
  simp only [List.mem_map, exists_exists_and_eq_and, hmax]

/-- **Runs of merged calls** keep the levels gapless, whatever their snapshots hold. -/
theorem MergedRun.gapless (hc : c.Lawful) {img : Nat → Bytes}
    (himg : ImageSource.Exact c U fun t => some (img t)) (h : MergedRun c checked U w) :
    Gapless c U (w.imaged img) := by
  induction h with
  | start =>
      have hempty : World.imaged img ⟨Bucket.empty, 0⟩ = ⟨Bucket.empty, 0⟩ := rfl
      rw [hempty]
      exact ⟨Reachable.start.inv hc, fun _ _ _ => .nil, fun _ _ _ => Nat.le_refl 0,
        fun _ _ _ s hs => (by cases hs), fun _ _ _ hne => absurd rfl hne⟩
  | @step w _ call hcall hmerged k ih =>
      have hmerged' : (call.imaged img).Merged (w.imaged img) := by
        cases call with
        | push pending => exact trivial
        | compactLevel level createdAt => exact trivial
        | snapshot image pending createdAt => exact trivial
        | maintain image opts now createdAt pending snapshotAt =>
            exact fun hretention => (merged_mapBodies _ opts w now pending).mpr (hmerged hretention)
      have hproper := Call.Merged.proper hc (U := U) hcall.imaged_ordinary
        (Call.imaged_exact himg call) hmerged' ih
      rw [Call.cut, (hcall.run_eq checked w).1, Script.abs_applyAll World.imaged_act, List.map_take,
        ← hcall.imaged]
      exact hproper.keeps_take gapless_step ih k

/-- A gapless run of valid files has no overlaps. -/
theorem pairwise_of_isChain {files : List Stored} (h : files.IsChain Stored.Next)
    (hvalid : ∀ x ∈ files, x.minTxid ≤ x.maxTxid) :
    files.Pairwise fun s t => s.maxTxid < t.minTxid := by
  induction files with
  | nil => exact .nil
  | cons s files ih =>
      have hrest : ∀ x ∈ files, x.minTxid ≤ x.maxTxid := fun x hx =>
        hvalid x (List.mem_cons_of_mem _ hx)
      exact List.pairwise_cons.mpr ⟨maxTxid_lt_minTxid h hrest, ih h.tail hrest⟩

/-- **Contiguous levels.** In every run of pushes, snapshots, compactions into levels 1 to 8 and
maintenance runs with at most eight level intervals, each cut after any number of requests, whose
maintenance runs are `Merged` at their starts: levels 1 to 8 hold ranges in order, without overlaps
and without gaps. -/
theorem mergedRun_levelsContiguous (hc : c.Lawful) (h : MergedRun c checked U w) :
    LevelsContiguous w := by
  intro level hlow hhigh
  obtain ⟨img, himg⟩ := U.exists_image c
  obtain ⟨hinv, ht⟩ := h.gapless hc himg
  have hchain := ht.chain level hlow hhigh
  have hfiles := hinv.files level
  rw [World.imaged_bucket (by rw [snapshotLevel]; omega)] at hchain hfiles
  exact ⟨pairwise_of_isChain hchain fun x hx => (hfiles x hx).range.2.1, hchain⟩

/-! ## Runs on ranges -/

instance : ∀ (w : World) (call : Call), Decidable (call.Merged w)
  | _, .push _ => isTrue trivial
  | _, .compactLevel _ _ => isTrue trivial
  | _, .snapshot _ _ _ => isTrue trivial
  | w, .maintain _ opts now _ pending _ =>
      inferInstanceAs (Decidable (opts.retentionEnabled → opts.Merged w now pending))

/-- Calls, run to their ends one after the other on ranges, are all merged. -/
def MergedOnRanges (checked : Bool) : World → List Call → Prop
  | _, [] => True
  | w, call :: calls => call.Merged w ∧ MergedOnRanges checked (call.afterRanges checked w) calls

/-- Whether a run is a merged one is decided over ranges alone. -/
instance decidableMergedOnRanges :
    ∀ (w : World) (calls : List Call), Decidable (MergedOnRanges checked w calls)
  | _, [] => isTrue trivial
  | w, call :: calls =>
      have := decidableMergedOnRanges (call.afterRanges checked w) calls
      inferInstanceAs (Decidable
        (call.Merged w ∧ MergedOnRanges checked (call.afterRanges checked w) calls))

/-- A run of merged calls that was checked on ranges. -/
theorem MergedRun.of_ranges (hc : c.Lawful) (h : MergedRun c checked U w) (hfiled : Filed c U w)
    (calls : List Call) (hcalls : ∀ x ∈ calls, x.Ordinary ∧ x.Exact c U)
    (hmerged : MergedOnRanges checked w.hollow calls) :
    ∃ w', MergedRun c checked U w' ∧
      w'.hollow = calls.foldl (Call.afterRanges checked) w.hollow := by
  induction calls generalizing w with
  | nil => exact ⟨w, h, rfl⟩
  | cons call calls ih =>
      obtain ⟨hordinary, hexact⟩ := hcalls call (List.mem_cons_self ..)
      have hsim : OnRanges c U (call.run c checked U) (call.ranges checked) :=
        Call.onRanges hc hexact
      obtain ⟨hfirst, hrest⟩ := hmerged
      -- the condition is one of the ranges, so it may be checked without the bodies
      have hcall : call.Merged w := by
        cases call with
        | push pending => exact trivial
        | compactLevel level createdAt => exact trivial
        | snapshot image pending createdAt => exact trivial
        | maintain image opts now createdAt pending snapshotAt =>
            exact fun hretention => (merged_mapBodies _ opts w now pending).mp (hfirst hretention)
      have hstep := h.step call hordinary hcall (call.run c checked U w).1.length
      rw [Call.cut, List.take_length] at hstep
      -- the call on ranges makes the same mutations, without their bodies
      have hhollow : (Script.applyAll World.act w (call.run c checked U w).1).hollow
          = call.afterRanges checked w.hollow := by
        rw [Script.abs_applyAll World.hollow_act, ← hsim.mutations w hfiled]
        rfl
      have hkeep : Filed c U (Script.applyAll World.act w (call.run c checked U w).1) :=
        Script.AllowedAll.keeps (fun w m (_ : Filed c U w) (hm : Filed c U (w.act m)) => hm)
          (hsim.keeps w hfiled) hfiled
      obtain ⟨w', hw', heq⟩ := ih hstep hkeep (fun x hx => hcalls x (List.mem_cons_of_mem _ hx))
        (hhollow ▸ hrest)
      exact ⟨w', hw', by rw [heq, hhollow]; rfl⟩

/-- The full images of the one-page database. -/
def onePageImages : ImageSource := fun t => some ((onePageSnapshots.file t).bytes literalCodec)

/-- The sample images are what the sample database was. -/
theorem onePageImages_exact : onePageImages.Exact literalCodec onePageUploads := by
  intro t body hbody ht hn createdAt
  obtain rfl := Option.some.inj hbody
  exact (onePageSnapshots.full t ht hn).storedOk ht hn literalCodec createdAt

/-- A push, and maintenance of two levels with a snapshot every time. -/
def pushAndMaintain (second : Nat) (retention : Bool) : List Call :=
  [.push [some 0], .maintain onePageImages ⟨[0, second], 0, 0, 0, retention⟩ 1 (fun _ => some 0) []
    (some 0)]

/-- Three pushes with retention, where level 2 is compacted every time. -/
theorem mergedRun_levelsContiguous_everyLevel : ∃ w, MergedRun literalCodec true onePageUploads w ∧
    (w.hollow.bucket 1).map Stored.key = [(2, 2), (3, 3)] ∧
    (w.hollow.bucket 2).map Stored.key = [(2, 2), (3, 3)] ∧ LevelsContiguous w := by
  have hstart : Filed literalCodec onePageUploads ⟨Bucket.empty, 0⟩ :=
    (Reachable.start.inv literalCodec_lawful).filed
  have hrun : MergedRun literalCodec true onePageUploads ⟨Bucket.empty, 0⟩ := .start
  obtain ⟨w, hran, hw⟩ := hrun.of_ranges literalCodec_lawful hstart
    (pushAndMaintain 0 true ++ pushAndMaintain 0 true ++ pushAndMaintain 0 true)
    (by simp [pushAndMaintain, Call.Ordinary, Call.Exact, onePageImages_exact]) (by decide +kernel)
  refine ⟨w, hran, ?_, ?_, mergedRun_levelsContiguous literalCodec_lawful hran⟩
  · rw [hw]
    decide +kernel
  · rw [hw]
    decide +kernel

/-! ## A level that is compacted less often -/

/-- Pushes and maintenance runs with at most eight level intervals. -/
def Call.Periodic : Call → Prop
  | .push _ => True
  | .maintain _ opts _ _ _ _ => opts.levelIntervals.length ≤ 8
  | _ => False

/-- Level 2 is compacted at the first and at the last maintenance run; retention runs in between. -/
def unmergedRun : List Call :=
  pushAndMaintain 0 false ++ pushAndMaintain 100 false ++ pushAndMaintain 100 false ++
    pushAndMaintain 100 true ++ pushAndMaintain 0 false

/-- Level 2 misses transaction 2. -/
theorem unmergedRun_keys :
    ((unmergedRun.foldl (Call.afterRanges false) ⟨Bucket.empty, 0⟩).bucket 2).map Stored.key
      = [(1, 1), (3, 5)] := by
  decide +kernel

/-- Retention deletes a file of level 1 that level 2 has not merged, and level 2 resumes behind
it. -/
theorem not_ran_levelsContiguous : ¬ ∀ w,
    Ran literalCodec false onePageUploads Call.Periodic w → LevelsContiguous w := by
  intro h
  obtain ⟨w, hran, -, hw⟩ :=
    Ran.of_ranges (U := onePageUploads) false literalCodec_lawful (P := Call.Periodic)
    unmergedRun (by simp [unmergedRun, pushAndMaintain, Call.Periodic])
    (by simp [unmergedRun, pushAndMaintain, Call.Exact, onePageImages_exact])
  have hkeys := unmergedRun_keys
  rw [← hw] at hkeys
  have hmap : (w.bucket 2).map Stored.key = [(1, 1), (3, 5)] := by
    rw [← hkeys]
    show _ = ((w.bucket 2).map Stored.hollow).map Stored.key
    rw [List.map_map]
    rfl
  obtain ⟨s, rest, hfiles, hs, hrest⟩ := List.map_eq_cons_iff.mp hmap
  obtain ⟨t, rest, rfl, ht, -⟩ := List.map_eq_cons_iff.mp hrest
  have hchain := (h w hran 2 (by decide) (by decide)).2
  rw [hfiles, List.isChain_cons_cons] at hchain
  have hnext : t.minTxid = s.maxTxid + 1 := hchain.1
  have hsmax : s.maxTxid = 1 := (Prod.mk.inj hs).2
  have htmin : t.minTxid = 3 := (Prod.mk.inj ht).1
  omega

end Liters
