import Liters.Http.InOrder
import Liters.Maintenance.Contiguous
import Liters.System.OwnerUploads
import Mathlib.Data.List.Find

/-! # A writer is never fenced out by its own server

The one writer of a bucket sends its requests in order, in every sequence of pushes, compactions,
snapshots and maintenance runs, whichever requests are lost before or behind the bucket and whenever
the process is killed. Beside the bucket there is the one in which nothing was ever pruned (`Twin`):
the upload protocol does the same at both, and there its invariant holds. -/

namespace Liters

variable {c : Codec}

/-! ## Level 0 by transaction -/

/-- The last file of a level wins over those of its TXID before. -/
theorem byMaxTxid_concat (files : List Stored) (s : Stored) :
    byMaxTxid (files ++ [s]) = (byMaxTxid files).insert s.maxTxid s.body := by
  rw [byMaxTxid, List.foldl_append]
  rfl

/-- The newest TXID of a level with one more file. -/
theorem maxOf_concat (files : List Stored) (s : Stored) :
    maxOf (files ++ [s]) = max (maxOf files) s.maxTxid := by
  apply Nat.le_antisymm
  · refine maxOf_le fun f hf => ?_
    rcases List.mem_append.mp hf with hf | hf
    · exact (le_maxOf hf).trans (Nat.le_max_left _ _)
    · rw [List.mem_singleton.mp hf]
      exact Nat.le_max_right _ _
  · refine Nat.max_le.mpr ⟨maxOf_le fun f hf => ?_, le_maxOf (by simp)⟩
    exact le_maxOf (List.mem_append_left _ hf)

/-- The newest TXID is the largest key. -/
theorem maxKey_byMaxTxid (files : List Stored) : (byMaxTxid files).maxKey = maxOf files := by
  induction files using List.reverseRecOn with
  | nil => rfl
  | append_singleton files s ih => rw [byMaxTxid_concat, SortedMap.maxKey_insert, ih, maxOf_concat]

/-- Under a TXID is the last file that ends there. -/
theorem find?_byMaxTxid (files : List Stored) (t : Nat) :
    (byMaxTxid files).find? t = (files.reverse.find? fun s => s.maxTxid = t).map Stored.body := by
  induction files using List.reverseRecOn with
  | nil => rfl
  | append_singleton files s ih =>
      rw [byMaxTxid_concat, SortedMap.find?_insert, List.reverse_append, List.reverse_singleton,
        List.singleton_append]
      by_cases hs : t = s.maxTxid
      · rw [if_pos hs, List.find?_cons_of_pos (by simpa using hs.symm), Option.map_some]
      · rw [if_neg hs, List.find?_cons_of_neg (by simpa using Ne.symm hs), ih]

/-- The newest TXID of level 0 is the writer's view of it. -/
theorem maxKey_levelZero (b : Bucket) : (levelZero b).maxKey = maxOf (b 0) := maxKey_byMaxTxid (b 0)

/-- Removing files that are not the newest ones. -/
theorem maxOf_filter {files : List Stored} {p : Stored → Bool}
    (h : ∀ f ∈ files, f.maxTxid = maxOf files → p f) :
    maxOf (files.filter p) = maxOf files := by
  apply Nat.le_antisymm
  · exact maxOf_le fun f hf => le_maxOf (List.mem_filter.mp hf).1
  · by_cases hne : files = []
    · rw [hne]
      exact Nat.le_refl _
    · obtain ⟨f, hf, hmax⟩ := exists_maxTxid_eq_maxOf hne
      rw [← hmax]
      exact le_maxOf (List.mem_filter.mpr ⟨hf, h f hf hmax⟩)

/-- Removing older files keeps the newest one. -/
theorem newest_filter {files : List Stored} {p : Stored → Bool}
    (h : ∀ f ∈ files, f.maxTxid = maxOf files → p f) :
    (byMaxTxid (files.filter p)).find? (maxOf files) = (byMaxTxid files).find? (maxOf files) := by
  rw [find?_byMaxTxid, find?_byMaxTxid, ← List.filter_reverse, List.find?_filter]
  refine congrArg (Option.map Stored.body) (List.find?_congr fun f hf => ?_)
  by_cases hmax : f.maxTxid = maxOf files
  · simp [h f (List.mem_reverse.mp hf) hmax]
  · simp [hmax]

/-! ## The bucket in which nothing is pruned -/

/-- Requests, newest first, that lead from the empty bucket to `b`, each with the bucket that its
predecessors made. -/
def Recounted : Bucket → List (Bucket × Mutation) → Prop
  | b, [] => b = Bucket.empty
  | b, e :: rest => b = e.1.act e.2 ∧ Recounted e.1 rest

/-- Holdings whose requests were in order, beside a device that differs in the bucket only and has
the same newest level-0 file there. -/
structure Twin (held : Holdings) (d : Device) : Prop where
  l0 : held.l0 = d.l0
  verifiedPos : held.verifiedPos = d.verifiedPos
  single : ∀ s ∈ held.bucket 0, s.minTxid = s.maxTxid
  top : (levelZero held.bucket).maxKey = d.bucket.maxKey
  newest : (levelZero held.bucket).find? (levelZero held.bucket).maxKey =
    d.bucket.find? d.bucket.maxKey
  sent : ∀ e ∈ held.sent, InOrder e.1 e.2
  traced : Recounted held.bucket held.sent

/-- A request in order that is not an upload. -/
def Tame (w : World) (m : Mutation) : Prop := InOrder w.bucket m ∧ ∀ s, m ≠ .put 0 s

section
variable {held : Holdings} {d : Device}

/-- A request in order joins those sent in order. -/
theorem sent_request {m : Mutation} (h : ∀ e ∈ held.sent, InOrder e.1 e.2)
    (hm : InOrder held.bucket m) :
    ∀ e ∈ (held.request m).sent, InOrder e.1 e.2 := by
  intro e he
  rcases List.mem_cons.mp he with rfl | he
  · exact hm
  · exact h e he

/-- Maintenance leaves the newest level-0 file alone. -/
theorem levelZero_of_tame {b : Bucket} {m : Mutation} (hm : InOrder b m) (hup : ∀ s, m ≠ .put 0 s) :
    maxOf (b.act m 0) = maxOf (b 0) ∧
      (byMaxTxid (b.act m 0)).find? (maxOf (b 0)) = (byMaxTxid (b 0)).find? (maxOf (b 0)) ∧
      ∀ s ∈ b.act m 0, s ∈ b 0 := by
  cases m with
  | put level s =>
      have hlevel : 0 ≠ level := fun heq => hup s (heq ▸ rfl)
      rw [act_put_of_ne b s hlevel]
      exact ⟨rfl, rfl, fun _ hx => hx⟩
  | delete level minTxid maxTxid =>
      by_cases hlevel : 0 = level
      · subst hlevel
        have hact : b.act (.delete 0 minTxid maxTxid) 0 = (b 0).filter fun f =>
            f.key ≠ (minTxid, maxTxid) :=
          Bucket.setLevel_same ..
        have hkeep : ∀ f ∈ b 0, f.maxTxid = maxOf (b 0) →
            decide (f.key ≠ (minTxid, maxTxid)) = true := by
          intro f _ hmax
          have hne := hm rfl
          simp only [Stored.key, ne_eq, Prod.mk.injEq, decide_eq_true_eq]
          omega
        rw [hact]
        exact ⟨maxOf_filter hkeep, newest_filter hkeep, fun _ hx => (List.mem_filter.mp hx).1⟩
      · have hact : b.act (.delete level minTxid maxTxid) 0 = b 0 :=
          Bucket.setLevel_of_ne _ _ hlevel
        rw [hact]
        exact ⟨rfl, rfl, fun _ hx => hx⟩

/-- A request other than an upload keeps the twins alike. -/
theorem Twin.request (h : Twin held d) {m : Mutation} (hm : InOrder held.bucket m)
    (hup : ∀ s, m ≠ .put 0 s) :
    Twin (held.request m) d := by
  obtain ⟨hmax, hnewest, hsub⟩ := levelZero_of_tame hm hup
  have htop : (levelZero (held.request m).bucket).maxKey = (levelZero held.bucket).maxKey := by
    rw [maxKey_levelZero, maxKey_levelZero]
    exact hmax
  refine ⟨h.l0, h.verifiedPos, fun s hs => h.single s (hsub s hs), htop.trans h.top, ?_,
    sent_request h.sent hm, rfl, h.traced⟩
  rw [htop, ← h.newest, maxKey_levelZero]
  exact hnewest

/-- Uploads right behind the newest level-0 file. -/
theorem Holdings.requests_l0Put (created : Nat → Option Int)
    (hsingle : ∀ s ∈ held.bucket 0, s.minTxid = s.maxTxid)
    (hsent : ∀ e ∈ held.sent, InOrder e.1 e.2) (htraced : Recounted held.bucket held.sent)
    {puts : List (Nat × Bytes)} (hup : Upwards (levelZero held.bucket).maxKey puts) :
    levelZero (held.requests (puts.reverse.map (l0Put created))).bucket =
      insertPuts (levelZero held.bucket) puts ∧
      (∀ s ∈ (held.requests (puts.reverse.map (l0Put created))).bucket 0, s.minTxid = s.maxTxid) ∧
      (∀ e ∈ (held.requests (puts.reverse.map (l0Put created))).sent, InOrder e.1 e.2) ∧
      Recounted (held.requests (puts.reverse.map (l0Put created))).bucket
        (held.requests (puts.reverse.map (l0Put created))).sent := by
  induction puts with
  | nil => exact ⟨rfl, hsingle, hsent, htraced⟩
  | cons e rest ih =>
      obtain ⟨hkey, hrest⟩ := hup
      obtain ⟨hview, hsingle', hsent', htraced'⟩ := ih hrest
      have hrun : held.requests ((e :: rest).reverse.map (l0Put created))
          = (held.requests (rest.reverse.map (l0Put created))).request (l0Put created e) := by
        rw [List.reverse_cons, List.map_append, Holdings.requests, List.foldl_append]
        rfl
      rw [hrun]
      generalize held.requests (rest.reverse.map (l0Put created)) = before
        at hview hsingle' hsent' htraced'
      have htop : maxOf (before.bucket 0) + 1 = e.1 := by
        rw [← maxKey_levelZero, hview, maxKey_insertPuts hrest, hkey]
      -- the file is the last one of the listing
      have hbefore : ∀ f ∈ before.bucket 0, f.Before ⟨e.1, e.1, created e.1, e.2⟩ := by
        intro f hf
        have hle := le_maxOf hf
        have heq := hsingle' f hf
        exact .inl (by show f.minTxid < e.1; omega)
      have hlist : (before.request (l0Put created e)).bucket 0
          = before.bucket 0 ++ [⟨e.1, e.1, created e.1, e.2⟩] := by
        show before.bucket.act (.put 0 _) 0 = _
        rw [act_put_same]
        exact Bucket.insertFile_of_before hbefore
      refine ⟨?_, fun s hs => ?_, sent_request hsent' ?_, rfl, htraced'⟩
      · rw [levelZero, hlist, byMaxTxid_concat]
        exact congrArg (fun m => m.insert e.1 e.2) hview
      · rw [hlist] at hs
        rcases List.mem_append.mp hs with hs | hs
        · exact hsingle' s hs
        · rw [List.mem_singleton.mp hs]
      · exact ⟨htop.symm, rfl⟩

/-- What a piece of the upload protocol leaves. -/
theorem Twin.after (h : Twin held d) (created : Nat → Option Int) {s t : Session}
    (halike : Alike (levelZero held.bucket) s t) :
    Twin (held.after created s.dev) t.dev ∧
      (levelZero (held.after created s.dev).bucket).maxKey = s.dev.bucket.maxKey := by
  obtain ⟨hview, hsingle, hsent, htraced⟩ :=
    Holdings.requests_l0Put created h.single h.sent h.traced halike.upwards
  have hbucket : levelZero (held.after created s.dev).bucket = s.dev.bucket :=
    hview.trans halike.bucket.symm
  refine ⟨⟨halike.l0, halike.verifiedPos, hsingle, ?_, ?_, hsent, htraced⟩,
    congrArg SortedMap.maxKey hbucket⟩
  · rw [hbucket]
    exact halike.top
  · rw [hbucket]
    exact halike.newest

end

/-! ## What maintenance requests -/

/-- A procedure whose requests are in order, and none of them an upload. -/
abbrev Civil {α : Type} (p : Procedure α) : Prop := Script.Safe World.act (fun _ => True) Tame p

section
variable {w : World}

/-- Civil procedures are civil one after the other. -/
theorem Civil.andThen {α β : Type} {p : Procedure α} {q : α → Procedure β} (hp : Civil p)
    (hq : ∀ a, Civil (q a)) :
    Civil (p.andThen World.act q) :=
  Script.Safe.andThen (fun _ _ _ _ => trivial) hp hq

/-- Doing nothing is civil. -/
theorem civil_done {α : Type} (a : α) : Civil (Script.done a : Procedure α) := Script.safe_done a

/-- A choice between civil procedures is civil. -/
theorem Civil.ite {α : Type} {p q : Procedure α} (b : Prop) [Decidable b] (hp : Civil p)
    (hq : Civil q) :
    Civil (if b then p else q) := by
  split
  · exact hp
  · exact hq

/-- DELETEs that spare the newest level-0 file. -/
theorem tame_deletes {infos : List FileInfo}
    (h : ∀ f ∈ infos, f.level = 0 → f.maxTxid ≠ maxOf (w.bucket 0)) :
    Script.AllowedAll World.act Tame w (Bucket.deleteLtxFiles infos) := by
  induction infos generalizing w with
  | nil => exact trivial
  | cons f infos ih =>
      have hfirst : InOrder w.bucket (.delete f.level f.minTxid f.maxTxid) :=
        h f (List.mem_cons_self ..)
      have hup : ∀ s, Mutation.delete f.level f.minTxid f.maxTxid ≠ .put 0 s :=
        fun s heq => by cases heq
      refine ⟨⟨hfirst, hup⟩, ih fun g hg hlevel => ?_⟩
      have hmax : maxOf ((w.act (.delete f.level f.minTxid f.maxTxid)).bucket 0) =
          maxOf (w.bucket 0) :=
        (levelZero_of_tame hfirst hup).1
      rw [hmax]
      exact h g (List.mem_cons_of_mem _ hg) hlevel

/-- **A compaction** is civil. -/
theorem compactLevel_civil {level : Nat} (hlow : 1 ≤ level) (hhigh : level ≤ snapshotLevel)
    (createdAt : Option Int) :
    Civil (compactLevel c level createdAt) := by
  intro w _
  unfold compactLevel
  cases hsrcs : w.bucket.ltxFiles (level - 1) (seekTxid w.bucket level) with
  | nil => exact trivial
  | cons f fs =>
      dsimp only
      obtain ⟨x, rest, hfilter, rfl, rfl⟩ := List.map_eq_cons_iff.mp hsrcs
      split
      · have hmem : ∀ y ∈ x :: rest, y.maxTxid ≤ bucketMax w.bucket := by
          intro y hy
          rw [← hfilter] at hy
          exact le_bucketMax (by omega) (List.mem_filter.mp hy).1
        refine ⟨⟨?_, fun s heq => ?_⟩, trivial⟩
        · unfold InOrder
          dsimp only
          rw [if_neg (by omega), List.foldl_map]
          exact ⟨hhigh, foldl_max_le (hmem x (List.mem_cons_self ..)) fun y hy =>
            hmem y (List.mem_cons_of_mem _ hy)⟩
        · cases heq
          omega
      · exact trivial

/-- The newest file of level 0 is never deletable. -/
theorem maxTxid_ne_of_deletableL0 (maxL1 newest : Nat) (cutoff : Int) (infos : List FileInfo) :
    ∀ f ∈ deletableL0 maxL1 newest cutoff infos, f.maxTxid ≠ newest := by
  induction infos with
  | nil => exact fun f hf => by cases hf
  | cons info infos ih =>
      intro f hf
      rw [deletableL0] at hf
      split at hf
      · cases hf
      split at hf
      · cases hf
      rename_i hne
      split at hf
      · split at hf
        · rcases List.mem_cons.mp hf with rfl | hf
          · exact hne
          · exact ih f hf
        · cases hf
      · cases hf

/-- The retention of level 0 is civil. -/
theorem enforceL0Retention_civil (grace : Nat) (now : Int) :
    Civil (enforceL0Retention grace now) := by
  intro w _
  unfold enforceL0Retention
  dsimp only
  split
  · exact trivial
  split
  · exact trivial
  · rename_i newest hnewest
    -- the newest file of the listing is the newest one of level 0
    have hmax : newest = maxOf (w.bucket 0) := by
      rw [Bucket.ltxFiles_zero, List.map_map] at hnewest
      rw [maxOf]
      exact (congrArg (fun m => Option.getD m 0) hnewest).symm
    exact tame_deletes fun f hf _ => hmax ▸ maxTxid_ne_of_deletableL0 _ _ _ _ f hf

/-- So is the retirement of snapshots. -/
theorem retireSnapshots_civil (retention : Nat) (now : Int) :
    Civil (retireSnapshots retention now) := by
  intro w _
  unfold retireSnapshots
  dsimp only
  split
  · exact trivial
  · refine tame_deletes fun f hf hlevel => ?_
    have hmem := ((expiredSnapshots_spec _ _ _ _).1 f hf).1
    rw [Bucket.ltxFiles_zero] at hmem
    obtain ⟨s, -, rfl⟩ := List.mem_map.mp hmem
    cases hlevel

/-- So is the cascade over the levels. -/
theorem retireLevels_civil (floor : Nat) {levels : List Nat} (h : ∀ level ∈ levels, 1 ≤ level) :
    Civil (retireLevels floor levels) := by
  have hone : ∀ level, 1 ≤ level → Civil (retireLevel floor level) := by
    intro level hlow w _
    unfold retireLevel
    dsimp only
    split
    · exact trivial
    · refine tame_deletes fun f hf hlevel => ?_
      have hmem := (List.dropLast_sublist _).subset (List.mem_filter.mp hf).1
      rw [Bucket.ltxFiles_zero] at hmem
      obtain ⟨s, -, rfl⟩ := List.mem_map.mp hmem
      have hzero : level = 0 := hlevel
      omega
  induction levels with
  | nil => exact civil_done 0
  | cons level levels ih =>
      refine (hone level (h level (List.mem_cons_self ..))).andThen fun _ => ?_
      exact (ih fun l hl => h l (List.mem_cons_of_mem _ hl)).andThen fun _ => civil_done _

/-- So is retention as a whole. -/
theorem enforceRetention_civil (opts : MaintenanceOptions) (now : Int) :
    Civil (enforceRetention opts now) := by
  refine (retireSnapshots_civil _ now).andThen fun r => ?_
  cases r with
  | none => exact civil_done 0
  | some r =>
      have hlevels : Civil (retireLevels r.2 (List.range' 1 (snapshotLevel - 1))) :=
        retireLevels_civil _ fun level hlevel => (List.mem_range'_1.mp hlevel).1
      refine (Civil.ite _ (civil_done 0) hlevels).andThen fun _ => ?_
      exact (enforceL0Retention_civil _ now).andThen fun _ => civil_done _

/-- So are the compactions of a maintenance run. -/
theorem compactDue_civil (opts : MaintenanceOptions) (now : Int) (createdAt : Nat → Option Int)
    {level : Nat} {intervals : List Nat} (hlow : 1 ≤ level)
    (hhigh : level + intervals.length ≤ snapshotLevel + 1) :
    Civil (compactDue c opts now createdAt level intervals) := by
  induction intervals generalizing level with
  | nil => exact civil_done 0
  | cons interval intervals ih =>
      rw [List.length_cons] at hhigh
      have hcompact : Civil fun w => if levelDue w.bucket level interval now then
          compactLevel c level (createdAt level) w else ([], .ok false) := by
        intro w hw
        dsimp only
        split
        · exact compactLevel_civil hlow (by omega) _ w hw
        · exact trivial
      refine hcompact.andThen fun compacted => ?_
      refine (Civil.ite _ (enforceL0Retention_civil _ now) (civil_done 0)).andThen fun deleted => ?_
      exact (ih (by omega) (by omega)).andThen fun _ => civil_done _

end

/-! ## Running operations -/

/-- The invariant of a running operation: the upload protocol's own holds where nothing was
pruned. -/
structure Owning (c : Codec) (s : Operating) (d : Device) : Prop where
  sole : Sole c ⟨s.mem, d, s.fates⟩
  twin : Twin s.held d

/-- An operation ends, or stops, with the invariant. -/
abbrev Keeps (c : Codec) (s : Operating) : Prop := ∃ d, Owning c s d

section
variable {s : Operating} {d : Device} {created : Nat → Option Int}

/-- The two buckets look the same to the upload protocol. -/
theorem Twin.alike {held : Holdings} (h : Twin held d) (mem : Memory) (fates : List Fate) :
    Alike (levelZero held.bucket) ⟨mem, held.device, fates⟩ ⟨mem, d, fates⟩ :=
  ⟨rfl, rfl, h.l0, h.verifiedPos, rfl, trivial, h.top, h.newest⟩

/-- A piece of the upload protocol, beside the same piece where nothing was pruned. -/
theorem uploads_twin {α : Type} {act : Act α} {held : Holdings} {mem : Memory} {fates : List Fate}
    (h : Twin held d) {Q : α → Session → Session → Prop} {E : Stop → Session → Session → Prop}
    (hboth : Both act act ⟨mem, held.device, fates⟩ ⟨mem, d, fates⟩
      (fun a x y => Alike (levelZero held.bucket) x y ∧ Q a x y)
      fun stop x y => Alike (levelZero held.bucket) x y ∧ E stop x y) :
    Spec (uploads created act) ⟨mem, held, fates⟩
      (fun a s' => ∃ x y, Q a x y ∧ Twin s'.held y.dev ∧ s'.mem = y.mem ∧ s'.mem = x.mem ∧
        maxOf (s'.held.bucket 0) = x.dev.bucket.maxKey)
      fun stop s' => ∃ stop' x y, stop = .writer stop' ∧ E stop' x y ∧ Twin s'.held y.dev ∧
      s'.mem = y.mem := by
  have hafter : ∀ x y, Alike (levelZero held.bucket) x y →
      Twin (held.after created x.dev) y.dev ∧
        maxOf ((held.after created x.dev).bucket 0) = x.dev.bucket.maxKey := by
    intro x y halike
    obtain ⟨htwin, htop⟩ := h.after created halike
    exact ⟨htwin, (maxKey_levelZero _).symm.trans htop⟩
  unfold Spec uploads
  rcases both_cases hboth with ⟨a, x, y, hx, -, halike, hQ⟩ | ⟨stop, x, y, hx, -, halike, hE⟩
  · rw [hx]
    obtain ⟨htwin, htop⟩ := hafter x y halike
    exact ⟨x, y, hQ, htwin, halike.mem, rfl, htop⟩
  · rw [hx]
    exact ⟨stop, x, y, rfl, hE, (hafter x y halike).1, halike.mem⟩

/-- A piece of the upload protocol that keeps its invariant. `R` is what it returns, with the memory
and the newest level-0 file it leaves. -/
theorem uploads_spec {α : Type} {act : Act α} (h : Owning c s d) {R : α → Memory → Nat → Prop}
    (hboth : Both act act ⟨s.mem, s.held.device, s.fates⟩ ⟨s.mem, d, s.fates⟩
      (fun a x y => Alike (levelZero s.held.bucket) x y ∧ R a x.mem x.dev.bucket.maxKey)
      fun _ x y => Alike (levelZero s.held.bucket) x y)
    (hsole : Spec act ⟨s.mem, d, s.fates⟩ (fun _ y => Sole c y) (StopsSole c)) :
    Spec (uploads created act) s (fun a s' => Keeps c s' ∧ R a s'.mem (maxOf (s'.held.bucket 0)))
      fun _ s' => Keeps c s' := by
  have hall := (hboth.and_spec hsole).mono
      (fun a x y hq => show Alike (levelZero s.held.bucket) x y ∧
      (R a x.mem x.dev.bucket.maxKey ∧ Sole c y) from ⟨hq.1.1, hq.1.2, hq.2⟩)
    fun stop x y he => show Alike (levelZero s.held.bucket) x y ∧ Sole c y from he
  refine (uploads_twin h.twin hall).mono ?_ ?_
  · rintro a s' ⟨x, y, ⟨hR, hy⟩, htwin, hmem, hmem', htop⟩
    exact ⟨⟨y.dev, ⟨hy.dev, hmem ▸ hy.mem⟩, htwin⟩, by rw [hmem', htop]; exact hR⟩
  · rintro stop s' ⟨-, x, y, -, hy, htwin, hmem⟩
    exact ⟨y.dev, ⟨hy.dev, hmem ▸ hy.mem⟩, htwin⟩

/-- The same without a result. -/
theorem Lockstep.uploads {α : Type} {act : Act α} (hact : Lockstep (levelZero s.held.bucket) act)
    (h : Owning c s d) {Q : α → Session → Prop}
    (hspec : Spec act ⟨s.mem, d, s.fates⟩ (fun a y => Sole c y ∧ Q a y) (StopsSole c))
    {R : α → Memory → Prop} (hR : ∀ a y, Q a y → R a y.mem) :
    Spec (uploads created act) s (fun a s' => Keeps c s' ∧ R a s'.mem) fun _ s' => Keeps c s' := by
  refine uploads_spec (R := fun a m _ => R a m) h ?_
    (hspec.mono (fun _ _ hq => hq.1) fun _ _ he => he)
  refine (hact.and_spec (h.twin.alike s.mem s.fates) hspec).mono (fun a x y hq => ⟨hq.1, ?_⟩) fun _
    _ _ he => he
  rw [hq.1.mem]
  exact hR a y hq.2.2

/-- A request in order that is not an upload. -/
theorem send_spec (h : Owning c s d) {m : Mutation} (hm : InOrder s.held.bucket m)
    (hup : ∀ x, m ≠ .put 0 x) :
    Spec (send m) s (fun _ s' => Owning c s' d ∧ s'.held.bucket = s.held.bucket.act m) fun _ s' =>
      Owning c s' d := by
  have hdone := h.twin.request hm hup
  have hpart : ∀ b : Bool, Twin (if b then s.held.request m else s.held) d := by
    intro b
    cases b
    · exact h.twin
    · exact hdone
  unfold Spec send
  cases hf : s.fates with
  | nil => exact ⟨⟨⟨h.sole.dev, h.sole.mem⟩, hdone⟩, rfl⟩
  | cons fate fates =>
      cases fate with
      | done => exact ⟨⟨⟨h.sole.dev, h.sole.mem⟩, hdone⟩, rfl⟩
      | failed part => exact ⟨⟨h.sole.dev, h.sole.mem⟩, hpart (part 0)⟩
      | killed part => exact ⟨⟨h.sole.dev, h.sole.mem⟩, hpart (part 0)⟩

/-- **Tame requests**, sent one after the other, keep what the owner relies on. -/
theorem sendAll_spec (h : Owning c s d) {w : World} (hw : w.bucket = s.held.bucket)
    {ms : List Mutation} (hms : Script.AllowedAll World.act Tame w ms) :
    Spec (sendAll ms) s (fun _ s' => Owning c s' d) fun _ s' => Owning c s' d := by
  induction ms generalizing s w with
  | nil => exact h
  | cons m ms ih =>
      obtain ⟨⟨hm, hup⟩, hrest⟩ := hms
      unfold sendAll
      refine (send_spec h (hw ▸ hm) hup).bind ?_
      rintro - s' ⟨h', hb⟩
      exact ih h' (show (w.act m).bucket = s'.held.bucket by rw [hb, ← hw]; rfl) hrest

/-- A procedure of maintenance keeps the invariant wherever it stops. -/
theorem procedure_spec {α : Type} {p : Procedure α} (hp : Civil p) (h : Owning c s d) :
    Spec (procedure p) s (fun _ s' => Keeps c s') fun _ s' => Keeps c s' := by
  unfold procedure
  rw [spec_bind, spec_get]
  dsimp only
  refine ((sendAll_spec h rfl (hp _ trivial)).mono (fun _ _ h' => h') fun _ s' h' => ⟨d, h'⟩).bind
    fun _ s' h' => ?_
  cases (p ⟨s.held.bucket, 0⟩).2 with
  | ok a => exact ⟨d, h'⟩
  | error e => exact ⟨d, h'⟩

/-! ## The calls -/

/-- After the lineage check. -/
theorem ownerCheck_spec (h : Owning c s d) :
    Spec (uploads created ensureLineageChecked) s (fun _ s' => Keeps c s' ∧ s'.mem.lineageChecked)
      fun _ s' => Keeps c s' :=
  Lockstep.uploads (R := fun _ m => m.lineageChecked) lockstep_ensureLineageChecked h
    (ensureLineageChecked_spec h.sole) fun _ _ hq => hq.1

/-- Deriving the position leaves the rest of the memory. -/
theorem pos_checked (s : Session) :
    Spec (pos c) s (fun _ s' => s'.mem.lineageChecked = s.mem.lineageChecked) fun _ _ => True := by
  have hmeta : Spec (metaPos c) s (fun _ s' => s'.mem = s.mem) fun _ _ => True := by
    unfold metaPos
    refine (spec_readOnly (Q := fun _ s' => s'.mem = s.mem) (fun _ => rfl) fun _ _ => trivial).bind
      fun _ s' h' => ?_
    rw [spec_bind, spec_get]
    dsimp only
    split
    · exact h'
    · split
      · exact h'
      · exact trivial
  unfold pos
  rw [spec_bind, spec_get]
  split
  · exact rfl
  · refine hmeta.bind fun p s' h' => ?_
    rw [spec_bind, spec_modify, spec_pure]
    show s'.mem.lineageChecked = _
    rw [h']

/-- A WAL conversion does not touch the check. -/
theorem sync_checked (source : Option SyncSource) (s : Session) :
    Spec (sync c source) s (fun _ s' => s'.mem.lineageChecked = s.mem.lineageChecked) fun _ _ =>
      True := by
  unfold sync
  cases source with
  | none =>
      refine (pos_checked s).bind fun _ s' h' => ?_
      exact spec_readOnly (fun _ => h') fun _ _ => trivial
  | some source =>
      refine (pos_checked s).bind fun p s' h' => ?_
      dsimp only
      split
      · exact spec_effect (fun _ => h') fun _ _ _ => trivial
      · exact trivial

/-- A sync of the owner keeps it, wherever it stops. -/
theorem ownerSync_spec (hc : c.Lawful) (h : Owning c s d) (hchecked : s.mem.lineageChecked)
    (source : Option SyncSource) :
    Spec (uploads created (sync c source)) s (fun _ s' => Keeps c s' ∧ s'.mem.lineageChecked)
      fun _ s' => Keeps c s' := by
  have hspec := (sync_spec hc h.sole source).and (sync_checked (c := c) source ⟨s.mem, d, s.fates⟩)
  refine Lockstep.uploads (R := fun _ m => m.lineageChecked) (lockstep_sync source) h
    (hspec.mono (fun _ _ hq => hq) fun _ _ he => he.1) fun _ y hq => ?_
  rw [hq]
  exact hchecked

/-- After an upload the newest level-0 file reaches the local position. -/
theorem ownerUpload_spec (hc : c.Lawful) (h : Owning c s d) (hchecked : s.mem.lineageChecked) :
    Spec (uploads created (uploadL0 c)) s
      (fun _ s' => Keeps c s' ∧ ∃ p, s'.mem.cachedPos = some p ∧ p ≤ maxOf (s'.held.bucket 0))
      fun _ s' => Keeps c s' := by
  refine uploads_spec (R := fun _ m top => ∃ p, m.cachedPos = some p ∧ p ≤ top) h
    (both_uploadL0 hc (h.twin.alike s.mem s.fates) h.sole hchecked) ?_
  refine (uploadL0_spec hc h.sole hchecked).mono (fun _ y hq => ?_) fun _ _ he => he
  obtain ⟨p, hup⟩ := hq
  exact hup.toSole

/-- A known position is returned as it is. -/
theorem ownerPos_spec (h : Owning c s d) {p : Nat} (hp : s.mem.cachedPos = some p)
    (hle : p ≤ maxOf (s.held.bucket 0)) :
    Spec (uploads created (pos c)) s (fun a s' => Keeps c s' ∧ a ≤ maxOf (s'.held.bucket 0)) fun _
      s' => Keeps c s' := by
  have hrun : ∀ x : Session, x.mem.cachedPos = some p → pos c x = .ok p x := by
    intro x hx
    obtain ⟨⟨remote, verified, provisional, checked, cached, synced⟩, dev, fates⟩ := x
    obtain rfl : cached = some p := hx
    rfl
  refine uploads_spec (R := fun a _ top => a ≤ top) h ?_ ?_
  · refine both_of_ok (hrun _ hp) (hrun _ hp) ⟨h.twin.alike s.mem s.fates, ?_⟩
    exact hle.trans (maxKey_levelZero _).ge
  · unfold Spec
    rw [hrun _ hp]
    exact h.sole

/-- A snapshot ends within the bucket, as the backlog is uploaded before it. -/
theorem ownerSnapshot_spec (hc : c.Lawful) (h : Owning c s d) (created : Creation)
    (source : Option SyncSource) (image : Nat → LtxFile) :
    Spec (ownerSnapshot c created source image) s (fun _ s' => Keeps c s') fun _ s' =>
      Keeps c s' := by
  unfold ownerSnapshot
  refine (ownerCheck_spec h).bind ?_
  rintro - s₁ ⟨⟨d₁, h₁⟩, hchecked₁⟩
  refine (ownerSync_spec hc h₁ hchecked₁ source).bind ?_
  rintro - s₂ ⟨⟨d₂, h₂⟩, hchecked₂⟩
  refine (ownerUpload_spec hc h₂ hchecked₂).bind ?_
  rintro - s₃ ⟨⟨d₃, h₃⟩, p, hp, hle⟩
  refine (ownerPos_spec h₃ hp hle).bind ?_
  rintro a s₄ ⟨⟨d₄, h₄⟩, hle₄⟩
  split
  · exact ⟨d₄, h₄⟩
  · have horder : InOrder s₄.held.bucket
        (.put snapshotLevel ⟨1, a, created.level snapshotLevel, (image a).bytes c⟩) := by
      refine ⟨Nat.le_refl _, hle₄.trans (maxOf_le fun f hf => ?_)⟩
      exact le_bucketMax (Nat.zero_le _) hf
    refine ((send_spec h₄ horder fun x heq => by cases heq).mono (fun _ _ hq => hq.1) fun _ _ he =>
      show Keeps c _ from ⟨d₄, he⟩).bind fun _ s₅ h₅ => ?_
    exact ⟨d₄, h₅⟩

/-- **Every call** keeps the invariant, wherever it stops. -/
theorem OwnerCall.spec (hc : c.Lawful) (h : Owning c s d) (created : Creation) (call : OwnerCall) :
    Spec (call.act c created) s (fun _ s' => Keeps c s') fun _ s' => Keeps c s' := by
  cases call with
  | push sources =>
      have hspec : Spec (uploads created.l0 (Liters.push c sources)) s
          (fun _ s' => Keeps c s' ∧ True)
          fun _ s' => Keeps c s' := by
        refine uploads_spec (R := fun _ _ _ => True) h ?_ (push_spec hc h.sole sources)
        exact (both_push hc (h.twin.alike s.mem s.fates) h.sole sources).mono
          (fun _ _ _ hq => ⟨hq, trivial⟩)
          fun _ _ _ he => he
      exact hspec.bind fun _ _ h' => h'.1
  -- the maintenance calls begin with the lineage check
  | compactLevel level low high =>
      refine Spec.bind (Q := fun _ s' => Keeps c s') ?_ fun _ _ h' => h'
      refine (ownerCheck_spec h).bind ?_
      rintro - s₁ ⟨⟨d₁, h₁⟩, -⟩
      exact procedure_spec (compactLevel_civil low (high.trans (by decide)) _) h₁
  | snapshot source image =>
      exact (ownerSnapshot_spec hc h created source image).bind fun _ _ h' => h'
  | maintain opts levels now source image =>
      refine (ownerCheck_spec h).bind ?_
      rintro - s₁ ⟨⟨d₁, h₁⟩, -⟩
      refine (procedure_spec (compactDue_civil opts now created.level (Nat.le_refl 1) ?_) h₁).bind
        ?_
      · have hsnap : snapshotLevel = 9 := rfl
        omega
      -- retention runs after the compactions, and after the snapshot if one is due
      rintro - s₂ ⟨d₂, h₂⟩
      have hretire : ∀ s₃, Keeps c s₃ → Spec (if opts.retentionEnabled then do
          let _ ← procedure (enforceRetention opts now)
        else pure () : OwnerAct Unit) s₃ (fun _ s' => Keeps c s') fun _ s' => Keeps c s' := by
        rintro s₃ ⟨d₃, h₃⟩
        split
        · exact (procedure_spec (enforceRetention_civil opts now) h₃).bind fun _ _ h' => h'
        · exact ⟨d₃, h₃⟩
      rw [spec_bind, spec_get]
      dsimp only
      split
      · exact (ownerSnapshot_spec hc h₂ created source image).bind fun _ s₃ h₃ => hretire s₃ h₃
      · exact hretire s₂ ⟨d₂, h₂⟩

end

/-! ## Runs -/

/-- The invariant of the owner, with or without an open writer. -/
def OwnerOk (c : Codec) (o : Owner) : Prop :=
  match o.mem with
  | some m => Keeps c ⟨m, o.held, []⟩
  | none => ∃ d, SoleClosed c d ∧ Twin o.held d

/-- What is kept holds of the owner, alive or killed. -/
theorem Keeps.ok {s : Operating} (h : Keeps c s) :
    OwnerOk c ⟨some s.mem, s.held⟩ ∧ OwnerOk c ⟨none, s.held⟩ := by
  obtain ⟨d, hsole, htwin⟩ := h
  exact ⟨⟨d, ⟨hsole.dev, hsole.mem⟩, htwin⟩, d, hsole.closed, htwin⟩

/-- Opening a writer. -/
theorem ownerOk_openOn {held : Holdings} {d : Device} (hd : SoleClosed c d) (htwin : Twin held d)
    (fates : List Fate) : OwnerOk c (Owner.openOn held fates) := by
  let start : Memory := { verifiedPos := 0, verifiedPosProvisional := false }
  have hboth := (lockstep_openWriter _ _ (htwin.alike start fates)).and_spec (openWriter_spec hd)
  have hspec := @uploads_twin d (fun _ => none) _ _ _ _ _ htwin _
    (fun _ _ y => SoleClosed c y.dev) hboth
  unfold Owner.openOn
  unfold Spec at hspec
  cases hrun : uploads (fun _ => none) openWriter ⟨start, held, fates⟩ with
  | ok a s' =>
      rw [hrun] at hspec
      obtain ⟨x, y, hy, htwin', hmem, -⟩ := hspec
      exact (Keeps.ok ⟨y.dev, ⟨hy.dev, hmem ▸ hy.mem⟩, htwin'⟩).1
  | error stop s' =>
      rw [hrun] at hspec
      obtain ⟨-, x, y, -, hy, htwin', -⟩ := hspec
      exact ⟨y.dev, hy, htwin'⟩

/-- One step keeps the invariant. -/
theorem OwnerOk.step (hc : c.Lawful) {o o' : Owner} (h : OwnerOk c o) (hs : Owner.Step c o o') :
    OwnerOk c o' := by
  cases hs with
  | openWriter held fates =>
      obtain ⟨d, hd, htwin⟩ := h
      exact ownerOk_openOn hd htwin fates
  | call m held call created fates =>
      obtain ⟨d, hsole, htwin⟩ := h
      have hstart : Owning c ⟨m, held, fates⟩ d := ⟨⟨hsole.dev, hsole.mem⟩, htwin⟩
      have hspec := OwnerCall.spec hc hstart created call
      unfold Spec at hspec
      unfold Owner.run
      cases hrun : call.act c created ⟨m, held, fates⟩ with
      | ok a s' =>
          rw [hrun] at hspec
          exact hspec.ok.1
      | error stop s' =>
          rw [hrun] at hspec
          cases stop with
          | maintenance e => exact hspec.ok.1
          | writer stop =>
              cases stop with
              | error e => exact hspec.ok.1
              | killed => exact hspec.ok.2
  | kill m held => exact (Keeps.ok h).2

/-- The invariant holds along every run. -/
theorem Owner.Run.ok (hc : c.Lawful) {o : Owner} (h : Owner.Run c o) : OwnerOk c o := by
  induction h with
  | start =>
      have hfresh : SoleHost c ⟨none, {}⟩ := soleHost_run hc .start
      refine ⟨{}, hfresh, rfl, rfl, fun s hs => ?_, rfl, rfl, fun e he => ?_, rfl⟩
      · cases hs
      · cases he
  | step _ hs ih => exact ih.step hc hs

/-- An owner's bucket has its twin. -/
theorem OwnerOk.exists_twin {o : Owner} (h : OwnerOk c o) : ∃ d, Twin o.held d := by
  obtain ⟨mem, held⟩ := o
  cases mem with
  | some m =>
      obtain ⟨d, -, htwin⟩ := h
      exact ⟨d, htwin⟩
  | none =>
      obtain ⟨d, -, htwin⟩ := h
      exact ⟨d, htwin⟩

/-- **A sole writer is never fenced out by its own server.** In every run of opens, pushes,
compactions, snapshots, maintenance runs and kills, whichever of its requests are lost before or
behind the bucket: the requests that reached the bucket made it what it is, each of them was in
order at the bucket it met, and a mount with that bucket, whose lease is the writer's own or
nobody's, refuses neither the request nor the same request sent once more. -/
theorem ownerRun_neverFenced (hc : c.Lawful) {o : Owner} (h : Owner.Run c o) :
    Recounted o.held.bucket o.held.sent ∧
      ∀ e ∈ o.held.sent, InOrder e.1 e.2 ∧ Welcome e.1 e.2 ∧ Welcome (e.1.act e.2) e.2 := by
  obtain ⟨d, htwin⟩ := (h.ok hc).exists_twin
  exact ⟨htwin.traced, fun e he => ⟨htwin.sent e he, (htwin.sent e he).welcome⟩⟩

/-- An upload, and a snapshot whose answer is lost. -/
theorem ownerRun_neverFenced_snapshot :
    ∃ o, Owner.Run literalCodec o ∧
      o.held.sent.map (fun e => e.2.offer.map fun f => (f.level, f.minTxid, f.maxTxid))
      = [some (9, 1, 1), some (0, 1, 1)] ∧ Recounted o.held.bucket o.held.sent ∧
      ∀ e ∈ o.held.sent, InOrder e.1 e.2 ∧ Welcome e.1 e.2 ∧ Welcome (e.1.act e.2) e.2 := by
  have hopen := Owner.Run.start.step (Owner.Step.openWriter (c := literalCodec) {} [])
  have hpush := hopen.step
    (.call _ _ (.push [some onePageSource]) ⟨fun _ => none, fun _ => none⟩ [])
  have hsnapshot := hpush.step
    (.call _ _ (.snapshot none onePageSource.file) ⟨fun _ => none, fun _ => none⟩
    [.done, .failed fun _ => true])
  exact ⟨_, hsnapshot, by decide +kernel, ownerRun_neverFenced literalCodec_lawful hsnapshot⟩

end Liters
