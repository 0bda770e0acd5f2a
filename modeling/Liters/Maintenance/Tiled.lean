import Liters.Maintenance.Calls

/-! # Gapless levels

Compaction into a level starts after the last file it has, so it leaves no gap as long as the level
below still holds what follows. Retention deletes below a snapshot floor and does not look at the
level above: a file that the level above has not merged yet may go. `Consumed` says that a DELETE is
not of that kind, and `Tiled` is what such requests keep. -/

namespace Liters

variable {c : Codec} {U : Uploads} {w : World}

/-- A DELETE in levels 1 to 7 of a file that the level above has merged, unless that level is
empty. -/
def Consumed (w : World) : Mutation → Prop
  | .put _ _ => True
  | .delete level _ maxTxid => 1 ≤ level → level ≤ 7 →
      w.bucket (level + 1) = [] ∨ maxTxid ≤ endTxid (w.bucket (level + 1))

/-! ## What calls request -/

/-- Every level is in listing order. -/
def Sorted (w : World) : Prop := ∀ level, (w.bucket level).Pairwise Stored.Before

/-- A file of levels 2 to 8 spans the files of the level below that the level did not cover; a
DELETE in levels 1 to 8 is of a file that is there, and the files before it end no earlier. -/
def Detailed (w : World) : Mutation → Prop
  | .put level s => 2 ≤ level → level ≤ 8 → ∃ x rest,
      (w.bucket (level - 1)).filter (fun y => seekTxid w.bucket level ≤ y.minTxid) = x :: rest ∧
      s.minTxid = x.minTxid ∧ s.maxTxid = rest.foldl (fun m y => max m y.maxTxid) x.maxTxid
  | .delete level minTxid maxTxid => 1 ≤ level → level ≤ 8 → ∃ s ∈ w.bucket level,
      s.key = (minTxid, maxTxid) ∧ ∀ y ∈ w.bucket level, y.Before s → s.maxTxid ≤ y.maxTxid

/-- A procedure whose requests are all detailed. -/
abbrev Tidy {α : Type} (p : Procedure α) : Prop := Script.Safe World.act Sorted Detailed p

/-- Requests keep levels sorted. -/
theorem sorted_step (w : World) (m : Mutation) (h : Sorted w) (_ : Detailed w m) :
    Sorted (w.act m) := by
  cases m with
  | put level s =>
      exact forall_setLevel (Q := fun files => files.Pairwise Stored.Before)
        (Bucket.pairwise_insertFile (h level)) h
  | delete level minTxid maxTxid =>
      exact forall_setLevel (Q := fun files => files.Pairwise Stored.Before) ((h level).filter _) h

/-- One request outside levels 1 to 8 needs no details. -/
theorem detailed_of_outside {m : Mutation} {level : Nat} (hlevel : level = 0 ∨ 8 < level)
    (hm : (∃ s, m = .put level s) ∨ ∃ a b, m = .delete level a b) : Detailed w m := by
  rcases hm with ⟨s, rfl⟩ | ⟨a, b, rfl⟩
  · intro hlow hhigh
    omega
  · intro hlow hhigh
    omega

/-- Tidy procedures are tidy one after the other. -/
theorem Tidy.andThen {α β : Type} {p : Procedure α} {q : α → Procedure β} (hp : Tidy p)
    (hq : ∀ a, Tidy (q a)) : Tidy (p.andThen World.act q) :=
  Script.Safe.andThen sorted_step hp hq

/-- Doing nothing is tidy. -/
theorem tidy_done {α : Type} (a : α) : Tidy (Script.done a) := Script.safe_done a

/-- A choice between tidy procedures is tidy. -/
theorem Tidy.ite {α : Type} {p q : Procedure α} (b : Prop) [Decidable b] (hp : Tidy p)
    (hq : Tidy q) : Tidy (if b then p else q) := by
  split
  · exact hp
  · exact hq

/-- An upload is tidy. -/
theorem upload_tidy (createdAt : Option Int) : Tidy (upload c U createdAt) := by
  intro w _
  rw [upload]
  split
  · exact ⟨detailed_of_outside (.inl rfl) (.inl ⟨_, rfl⟩), trivial⟩
  · exact trivial

/-- **What a compaction does**: it fails, or there is nothing to merge, or it puts one file that
spans the files that it merges. -/
theorem compactLevel_cases (c : Codec) (level : Nat) (createdAt : Option Int) (w : World) :
    (∃ e, compactLevel c level createdAt w = ([], .error e)) ∨
      (compactLevel c level createdAt w = ([], .ok false) ∧
        (w.bucket (level - 1)).filter (fun y => seekTxid w.bucket level ≤ y.minTxid) = []) ∨
      ∃ s x rest, compactLevel c level createdAt w = ([.put level s], .ok true) ∧
        (w.bucket (level - 1)).filter (fun y => seekTxid w.bucket level ≤ y.minTxid) = x :: rest ∧
        s.minTxid = rest.foldl (fun m y => min m y.minTxid) x.minTxid ∧
        s.maxTxid = rest.foldl (fun m y => max m y.maxTxid) x.maxTxid := by
  unfold compactLevel
  cases hsrcs : w.bucket.ltxFiles (level - 1) (seekTxid w.bucket level) with
  | nil => exact .inr (.inl ⟨rfl, List.map_eq_nil_iff.mp hsrcs⟩)
  | cons f fs =>
      obtain ⟨x, rest, hfilter, rfl, rfl⟩ := List.map_eq_cons_iff.mp hsrcs
      dsimp only
      split
      · refine .inr (.inr ⟨_, x, rest, rfl, hfilter, ?_, ?_⟩)
        · exact List.foldl_map
        · exact List.foldl_map
      · exact .inl ⟨_, rfl⟩

/-- The first of files in listing order starts first. -/
theorem foldl_min_of_sorted {x : Stored} {rest : List Stored}
    (h : (x :: rest).Pairwise Stored.Before) :
    rest.foldl (fun m y => min m y.minTxid) x.minTxid = x.minTxid := by
  have hmin : ∀ y ∈ rest, x.minTxid ≤ y.minTxid := by
    intro y hy
    have hbefore := (List.pairwise_cons.mp h).1 y hy
    unfold Stored.Before at hbefore
    omega
  clear h
  induction rest with
  | nil => rfl
  | cons y rest ih =>
      rw [List.foldl_cons, Nat.min_eq_left (hmin y (List.mem_cons_self ..))]
      exact ih fun z hz => hmin z (List.mem_cons_of_mem _ hz)

/-- So is a compaction. -/
theorem compactLevel_tidy (level : Nat) (createdAt : Option Int) :
    Tidy (compactLevel c level createdAt) := by
  intro w hw
  obtain ⟨e, hrun⟩ | ⟨hrun, -⟩ | ⟨s, x, rest, hrun, hfilter, hmin, hmax⟩ :=
    compactLevel_cases c level createdAt w
  · rw [hrun]
    exact trivial
  · rw [hrun]
    exact trivial
  · rw [hrun]
    have hsub : (x :: rest).Sublist (w.bucket (level - 1)) := hfilter ▸ List.filter_sublist
    refine ⟨fun _ _ => ⟨x, rest, hfilter, ?_, hmax⟩, trivial⟩
    rw [hmin]
    exact foldl_min_of_sorted ((hw (level - 1)).sublist hsub)

/-- Deletes outside levels 1 to 8. -/
theorem detailed_deletes_outside {infos : List FileInfo}
    (h : ∀ f ∈ infos, f.level = 0 ∨ 8 < f.level) :
    Script.AllowedAll World.act Detailed w (Bucket.deleteLtxFiles infos) := by
  induction infos generalizing w with
  | nil => exact trivial
  | cons f infos ih =>
      exact ⟨detailed_of_outside (h f (List.mem_cons_self ..)) (.inr ⟨_, _, rfl⟩),
        ih fun x hx => h x (List.mem_cons_of_mem _ hx)⟩

/-- Deletes of the files of a level that end below a floor, in listing order. -/
theorem detailed_deletes {level floor : Nat} {kept files : List Stored} (hw : Sorted w)
    (heq : w.bucket level = kept ++ files) (hkept : ∀ y ∈ kept, floor ≤ y.maxTxid) :
    Script.AllowedAll World.act Detailed w (Bucket.deleteLtxFiles
      ((files.map (Stored.info level)).dropLast.filter (·.maxTxid < floor))) := by
  induction files generalizing w kept with
  | nil => exact trivial
  | cons s files ih =>
      by_cases hne : files = []
      · subst hne
        exact trivial
      rw [List.map_cons, List.dropLast_cons_of_ne_nil (by simpa using hne), List.filter_cons]
      have hsorted := heq ▸ hw level
      obtain ⟨-, hrest, hbefore⟩ := List.pairwise_append.mp hsorted
      by_cases hs : (s.info level).maxTxid < floor
      · rw [if_pos (decide_eq_true hs), Bucket.deleteLtxFiles_cons]
        have hdetailed : Detailed w (.delete level s.minTxid s.maxTxid) := by
          intro _ _
          refine ⟨s, by simp [heq], rfl, fun y hy hys => ?_⟩
          rw [heq] at hy
          rcases List.mem_append.mp hy with hy | hy
          · exact hs.le.trans (hkept y hy)
          · -- the files behind it come later
            exfalso
            rcases List.mem_cons.mp hy with rfl | hy
            · unfold Stored.Before at hys
              omega
            · have hsy := (List.pairwise_cons.mp hrest).1 y hy
              unfold Stored.Before at hys hsy
              omega
        refine ⟨hdetailed, ih (sorted_step w _ hw hdetailed) ?_ hkept⟩
        rw [World.act_delete_same, heq, List.filter_append, filter_key_head hrest]
        congr 1
        refine List.filter_eq_self.mpr fun y hy => ?_
        have hys := hbefore y hy s (List.mem_cons_self ..)
        simp only [Stored.key, ne_eq, decide_not, Bool.not_eq_true', decide_eq_false_iff_not,
          Prod.mk.injEq]
        unfold Stored.Before at hys
        omega
      · rw [if_neg fun hd => hs (of_decide_eq_true hd)]
        have hsplit : w.bucket level = (kept ++ [s]) ++ files := by
          rw [heq, List.append_assoc]
          rfl
        refine ih hw hsplit fun y hy => ?_
        rcases List.mem_append.mp hy with hy | hy
        · exact hkept y hy
        · rw [List.mem_singleton.mp hy]
          exact Nat.not_lt.mp hs

/-- So is the retirement of snapshots. -/
theorem retireSnapshots_tidy (retention : Nat) (now : Int) :
    Tidy (retireSnapshots retention now) := by
  intro w _
  obtain ⟨infos, hinfos, hlevel⟩ := retireSnapshots_deletes retention now w
  rw [hinfos]
  exact detailed_deletes_outside fun f hf => .inr (by rw [hlevel f hf]; decide)

/-- So is the retirement of a level. -/
theorem retireLevel_tidy (floor level : Nat) : Tidy (retireLevel floor level) := by
  intro w hw
  unfold retireLevel
  dsimp only
  split
  · exact trivial
  · rw [Bucket.ltxFiles_zero]
    exact detailed_deletes hw (show w.bucket level = [] ++ w.bucket level from rfl)
      fun y hy => by cases hy

/-- So is the cascade over the levels. -/
theorem retireLevels_tidy (floor : Nat) (levels : List Nat) : Tidy (retireLevels floor levels) := by
  induction levels with
  | nil => exact tidy_done 0
  | cons level levels ih =>
      exact (retireLevel_tidy floor level).andThen fun _ => ih.andThen fun _ => tidy_done _

/-- So is the retention of level 0. -/
theorem enforceL0Retention_tidy (grace : Nat) (now : Int) :
    Tidy (enforceL0Retention grace now) := by
  intro w _
  obtain ⟨infos, hinfos, hlevel⟩ := enforceL0Retention_deletes grace now w
  rw [hinfos]
  exact detailed_deletes_outside fun f hf => .inl (hlevel f hf)

/-- So is retention as a whole. -/
theorem enforceRetention_tidy (opts : MaintenanceOptions) (now : Int) :
    Tidy (enforceRetention opts now) := by
  refine (retireSnapshots_tidy _ now).andThen fun r => ?_
  cases r with
  | none => exact tidy_done 0
  | some r =>
      refine (Tidy.ite _ (tidy_done 0) (retireLevels_tidy _ _)).andThen fun _ => ?_
      exact (enforceL0Retention_tidy _ now).andThen fun _ => tidy_done _

/-! ## Tiled levels -/

/-- Levels 1 to 8 are gapless; each of levels 1 to 7 reaches at least as far as the next one, no
file of it straddles the end of the next one, and it still holds what follows that end. -/
structure Tiled (w : World) : Prop where
  chain : ∀ l, 1 ≤ l → l ≤ 8 → (w.bucket l).IsChain Stored.Next
  reach : ∀ l, 1 ≤ l → l ≤ 7 → endTxid (w.bucket (l + 1)) ≤ endTxid (w.bucket l)
  aligned : ∀ l, 1 ≤ l → l ≤ 7 → ∀ s ∈ w.bucket l, s.minTxid ≤ endTxid (w.bucket (l + 1)) →
    s.maxTxid ≤ endTxid (w.bucket (l + 1))
  starts : ∀ l, 1 ≤ l → l ≤ 7 → w.bucket (l + 1) ≠ [] →
    StartsBy (endTxid (w.bucket (l + 1))) (w.bucket l)

/-- A gapless level of valid files that is not empty ends after 0. -/
theorem endTxid_pos (h : Filed c U w) {level : Nat} (hchain : (w.bucket level).IsChain Stored.Next)
    (hne : w.bucket level ≠ []) : 1 ≤ endTxid (w.bucket level) := by
  obtain ⟨x, files, heq⟩ := List.exists_cons_of_ne_nil hne
  have hx : x ∈ w.bucket level := heq ▸ List.mem_cons_self ..
  have hle := maxTxid_le_endTxid_of_isChain hchain (h.files level) hx
  have hrange := (h.files level x hx).range
  omega

/-- A level below one that is not empty is not empty. -/
theorem Tiled.ne_nil (ht : Tiled w) (h : Filed c U w) {l : Nat} (hlow : 1 ≤ l) (hhigh : l ≤ 7)
    (hne : w.bucket (l + 1) ≠ []) : w.bucket l ≠ [] := by
  intro hnil
  have hpos := endTxid_pos h (ht.chain (l + 1) (by omega) (by omega)) hne
  have hreach := ht.reach l hlow hhigh
  rw [hnil, endTxid_nil] at hreach
  omega

/-- Changing one level keeps what does not mention it. -/
theorem Tiled.of_level {w' : World} {level : Nat} (ht : Tiled w)
    (hother : ∀ l ≠ level, w'.bucket l = w.bucket l)
    (hchain : 1 ≤ level → level ≤ 8 → (w'.bucket level).IsChain Stored.Next)
    (habove : 1 ≤ level → level ≤ 7 → endTxid (w.bucket (level + 1)) ≤ endTxid (w'.bucket level) ∧
      (∀ s ∈ w'.bucket level, s.minTxid ≤ endTxid (w.bucket (level + 1)) →
        s.maxTxid ≤ endTxid (w.bucket (level + 1))) ∧
      (w.bucket (level + 1) ≠ [] → StartsBy (endTxid (w.bucket (level + 1))) (w'.bucket level)))
    (hbelow : ∀ l, 1 ≤ l → l ≤ 7 → level = l + 1 →
      endTxid (w'.bucket level) ≤ endTxid (w.bucket l) ∧
      (∀ s ∈ w.bucket l, s.minTxid ≤ endTxid (w'.bucket level) →
        s.maxTxid ≤ endTxid (w'.bucket level)) ∧
      (w'.bucket level ≠ [] → StartsBy (endTxid (w'.bucket level)) (w.bucket l))) : Tiled w' := by
  -- each pair of neighbouring levels: the changed one below, above, or neither
  have hpair : ∀ l, 1 ≤ l → l ≤ 7 → endTxid (w'.bucket (l + 1)) ≤ endTxid (w'.bucket l) ∧
      (∀ s ∈ w'.bucket l, s.minTxid ≤ endTxid (w'.bucket (l + 1)) →
        s.maxTxid ≤ endTxid (w'.bucket (l + 1))) ∧
      (w'.bucket (l + 1) ≠ [] → StartsBy (endTxid (w'.bucket (l + 1))) (w'.bucket l)) := by
    intro l hlow hhigh
    by_cases hl : l = level
    · subst hl
      rw [hother (l + 1) (by omega)]
      exact habove hlow hhigh
    · rw [hother l hl]
      by_cases hl' : level = l + 1
      · rw [← hl']
        exact hbelow l hlow hhigh hl'
      · rw [hother (l + 1) (fun h => hl' h.symm)]
        exact ⟨ht.reach l hlow hhigh, ht.aligned l hlow hhigh, ht.starts l hlow hhigh⟩
  refine ⟨fun l hlow hhigh => ?_, fun l hlow hhigh => (hpair l hlow hhigh).1,
    fun l hlow hhigh => (hpair l hlow hhigh).2.1, fun l hlow hhigh => (hpair l hlow hhigh).2.2⟩
  by_cases hl : l = level
  · subst hl
    exact hchain hlow hhigh
  · rw [hother l hl]
    exact ht.chain l hlow hhigh

/-- **Append.** A file that follows a level, and ends where the level below does. -/
theorem Tiled.append {level : Nat} {s : Stored} (ht : Tiled w) (h : Filed c U w)
    (hok : StoredOk c U w.uploaded s)
    (hmin : w.bucket level ≠ [] → s.minTxid = endTxid (w.bucket level) + 1)
    (hmax : 2 ≤ level → level ≤ 8 → s.maxTxid = endTxid (w.bucket (level - 1))) (hlow : 1 ≤ level)
    (hhigh : level ≤ 8) : Tiled (w.act (.put level s)) := by
  have hchain := ht.chain level hlow hhigh
  have hrange := hok.range
  have happend : (w.act (.put level s)).bucket level = w.bucket level ++ [s] := by
    rw [World.act_put_same]
    refine Bucket.insertFile_of_before fun x hx => ?_
    have hxend := maxTxid_le_endTxid_of_isChain hchain (h.files level) hx
    have hxrange := (h.files level x hx).range
    have := hmin (List.ne_nil_of_mem hx)
    unfold Stored.Before
    omega
  have hend : endTxid ((w.act (.put level s)).bucket level) = s.maxTxid := by
    rw [happend, endTxid_append_singleton]
  refine ht.of_level (fun l hl => World.act_put_of_ne w s hl) (fun _ _ => ?_) (fun _ h7 => ?_)
    fun l hl1 hl7 hlevel => ?_
  · rw [happend]
    by_cases hnil : w.bucket level = []
    · rw [hnil]
      exact .singleton s
    · exact isChain_append_singleton hchain (hmin hnil)
  · -- the level above does not reach the new file
    have hreach := ht.reach level hlow h7
    rw [hend, happend]
    by_cases hnil : w.bucket level = []
    · rw [hnil, endTxid_nil] at hreach
      refine ⟨by omega, fun x hx hxmin => ?_, fun hne => absurd hnil (ht.ne_nil h hlow h7 hne)⟩
      rw [hnil] at hx
      obtain rfl := List.mem_singleton.mp hx
      omega
    · have hs := hmin hnil
      refine ⟨by omega, fun x hx hxmin => ?_, fun hne => ?_⟩
      · rcases List.mem_append.mp hx with hx | hx
        · exact ht.aligned level hlow h7 x hx hxmin
        · obtain rfl := List.mem_singleton.mp hx
          omega
      · exact (ht.starts level hlow h7 hne).append_singleton fun hnil' => absurd hnil' hnil
  · -- the level below ends where the new file does
    subst hlevel
    have hmax' : s.maxTxid = endTxid (w.bucket l) := hmax (by omega) hhigh
    have hbelow : ∀ x ∈ w.bucket l, x.maxTxid ≤ endTxid (w.bucket l) := fun x hx =>
      maxTxid_le_endTxid_of_isChain (ht.chain l hl1 (by omega)) (h.files l) hx
    rw [hend, hmax']
    refine ⟨Nat.le_refl _, fun x hx _ => hbelow x hx, fun _ x hx => ?_⟩
    have hmem := List.mem_of_mem_head? hx
    have hxrange := (h.files l x hmem).range
    have := hbelow x hmem
    omega

/-- **Retire.** The first of several files of a level goes, once the level above has merged it. -/
theorem Tiled.retire {level : Nat} {s : Stored} {rest : List Stored} (ht : Tiled w)
    (h : Filed c U w) (heq : w.bucket level = s :: rest) (hne : rest ≠ [])
    (hconsumed : Consumed w (.delete level s.minTxid s.maxTxid)) :
    Tiled (w.act (.delete level s.minTxid s.maxTxid)) := by
  have hafter : (w.act (.delete level s.minTxid s.maxTxid)).bucket level = rest := by
    rw [World.act_delete_same, heq]
    exact filter_key_head (heq ▸ h.sorted level)
  have hend : endTxid rest = endTxid (w.bucket level) := by rw [heq, endTxid_cons hne]
  refine ht.of_level (fun l hl => World.act_delete_of_ne w _ _ hl) (fun hlow hhigh => ?_)
    (fun hlow h7 => ?_) fun l hl1 hl7 hlevel => ?_
  · rw [hafter]
    exact (heq ▸ ht.chain level hlow hhigh).tail
  · rw [hafter, hend]
    refine ⟨ht.reach level hlow h7, fun x hx hxmin => ?_, fun hne' => ?_⟩
    · exact ht.aligned level hlow h7 x (heq ▸ List.mem_cons_of_mem _ hx) hxmin
    · have hle := (hconsumed hlow h7).resolve_left hne'
      exact startsBy_of_isChain (heq ▸ ht.chain level hlow (by omega)) hle
  · subst hlevel
    rw [hafter, hend]
    exact ⟨ht.reach l hl1 hl7, ht.aligned l hl1 hl7,
      fun _ => ht.starts l hl1 hl7 (by rw [heq]; simp)⟩

/-- What is folded over files that end by `n` stays there. -/
theorem foldl_max_le {files : List Stored} {m n : Nat} (hm : m ≤ n)
    (h : ∀ y ∈ files, y.maxTxid ≤ n) :
    files.foldl (fun m y => max m y.maxTxid) m ≤ n := by
  induction files generalizing m with
  | nil => exact hm
  | cons x files ih =>
      exact ih (Nat.max_le.mpr ⟨hm, h x (List.mem_cons_self ..)⟩) fun y hy =>
        h y (List.mem_cons_of_mem _ hy)

/-- It is at least where each of them ends. -/
theorem le_foldl_max (files : List Stored) (m : Nat) :
    m ≤ files.foldl (fun m y => max m y.maxTxid) m ∧
      ∀ y ∈ files, y.maxTxid ≤ files.foldl (fun m y => max m y.maxTxid) m := by
  induction files generalizing m with
  | nil => exact ⟨Nat.le_refl m, fun y hy => by cases hy⟩
  | cons x files ih =>
      obtain ⟨hle, hall⟩ := ih (max m x.maxTxid)
      refine ⟨(Nat.le_max_left ..).trans hle, fun y hy => ?_⟩
      rcases List.mem_cons.mp hy with rfl | hy
      · exact (Nat.le_max_right ..).trans hle
      · exact hall y hy

/-- The sources of a compaction reach the end of their level. -/
theorem foldl_max_sources (h : Filed c U w) {level seek : Nat} {x : Stored} {rest : List Stored}
    (hchain : (w.bucket level).IsChain Stored.Next)
    (hfilter : (w.bucket level).filter (fun y => seek ≤ y.minTxid) = x :: rest) :
    rest.foldl (fun m y => max m y.maxTxid) x.maxTxid = endTxid (w.bucket level) := by
  have hmem : ∀ y ∈ x :: rest, y ∈ w.bucket level ∧ seek ≤ y.minTxid := by
    intro y hy
    rw [← hfilter] at hy
    exact ⟨(List.mem_filter.mp hy).1, of_decide_eq_true (List.mem_filter.mp hy).2⟩
  have hle : ∀ y ∈ x :: rest, y.maxTxid ≤ endTxid (w.bucket level) := fun y hy =>
    maxTxid_le_endTxid_of_isChain hchain (h.files level) (hmem y hy).1
  obtain ⟨hx, hxseek⟩ := hmem x (List.mem_cons_self ..)
  refine Nat.le_antisymm (foldl_max_le (hle x (List.mem_cons_self ..)) fun y hy =>
    hle y (List.mem_cons_of_mem _ hy)) ?_
  -- the last file of the level is among the sources
  rcases List.eq_nil_or_concat' (w.bucket level) with hnil | ⟨init, last, heq⟩
  · rw [hnil] at hx
    cases hx
  · have hlast : last ∈ (w.bucket level).filter (fun y => seek ≤ y.minTxid) := by
      refine List.mem_filter.mpr ⟨by simp [heq], decide_eq_true ?_⟩
      have hsorted := h.sorted level
      rw [heq] at hx hsorted
      rcases List.mem_append.mp hx with hx | hx
      · have hbefore := (List.pairwise_append.mp hsorted).2.2 x hx last (List.mem_singleton_self _)
        unfold Stored.Before at hbefore
        omega
      · rwa [← List.mem_singleton.mp hx]
    rw [hfilter] at hlast
    obtain ⟨hfirst, hall⟩ := le_foldl_max rest x.maxTxid
    rw [heq, endTxid_append_singleton]
    rcases List.mem_cons.mp hlast with rfl | hlast
    · exact hfirst
    · exact hall last hlast

/-- The first source of a compaction follows what the level above covers, if nothing straddles that
end. -/
theorem minTxid_le_of_aligned {files : List Stored} {m : Nat} {s : Stored} {rest : List Stored}
    (h : files.IsChain Stored.Next) (haligned : ∀ x ∈ files, x.minTxid ≤ m → x.maxTxid ≤ m)
    (hstart : StartsBy m files) (heq : files.filter (fun x => m + 1 ≤ x.minTxid) = s :: rest) :
    s.minTxid = m + 1 := by
  induction files with
  | nil => cases heq
  | cons x files ih =>
      rw [List.filter_cons] at heq
      by_cases hx : m + 1 ≤ x.minTxid
      · rw [if_pos (decide_eq_true hx)] at heq
        obtain rfl := (List.cons.inj heq).1
        exact Nat.le_antisymm (hstart x rfl) hx
      · rw [if_neg fun hd => hx (of_decide_eq_true hd)] at heq
        have hmax := haligned x (List.mem_cons_self ..) (by omega)
        exact ih h.tail (fun y hy => haligned y (List.mem_cons_of_mem _ hy))
          (startsBy_of_isChain h hmax) heq

/-- **One request** that is consumed keeps the levels tiled. -/
theorem Tiled.step {m : Mutation} (ht : Tiled w) (h : Inv c U w) (hm : Allowed c U w m)
    (hd : Detailed w m) (hcons : Consumed w m) : Tiled (w.act m) := by
  -- levels 0 and 9 do not matter
  have hput : ∀ (level : Nat) (s : Stored), level = 0 ∨ 8 < level →
      Tiled (w.act (.put level s)) := by
    intro level s hlevel
    exact ht.of_level (fun l hl => World.act_put_of_ne w s hl) (fun _ _ => by omega)
      (fun _ _ => by omega)
      fun l _ _ hl => by omega
  have hdelete : ∀ level a b : Nat, level = 0 ∨ 8 < level → Tiled (w.act (.delete level a b)) := by
    intro level a b hlevel
    exact ht.of_level (fun l hl => World.act_delete_of_ne w a b hl) (fun _ _ => by omega)
      (fun _ _ => by omega)
      fun l _ _ hl => by omega
  cases hm with
  | upload s => exact hput 0 s (.inl rfl)
  | snapshot s => exact hput snapshotLevel s (.inr (by decide))
  | compactL0 s hmin hok =>
      exact ht.append h.filed hok (fun _ => hmin) (fun h2 => absurd h2 (by decide)) (Nat.le_refl 1)
        (by decide)
  | compact level s hlow hhigh hok =>
      have h8 : level ≤ 8 := Nat.le_of_lt_succ hhigh
      obtain ⟨x, rest, hfilter, hmin, hmax⟩ := hd hlow h8
      have hsrc := ht.chain (level - 1) (by omega) (by omega)
      refine ht.append h.filed hok (fun hne => ?_) (fun _ _ => ?_) (by omega) h8
      · obtain ⟨hsome, hnone⟩ := h.filed.maxLtxFileInfo (ht.chain level (by omega) h8)
        have hseek : seekTxid w.bucket level = endTxid (w.bucket level) + 1 := by
          rw [seekTxid]
          cases hnewest : w.bucket.maxLtxFileInfo level with
          | none => exact absurd (hnone hnewest) hne
          | some f => exact congrArg (· + 1) (hsome f hnewest)
        have hsucc : level - 1 + 1 = level := by omega
        have haligned := ht.aligned (level - 1) (by omega) (by omega)
        have hstarts := ht.starts (level - 1) (by omega) (by omega)
        rw [hsucc] at haligned hstarts
        rw [hseek] at hfilter
        rw [hmin]
        exact minTxid_le_of_aligned hsrc haligned (hstarts hne) hfilter
      · rw [hmax]
        exact foldl_max_sources h.filed hsrc hfilter
  | retireL0 s rest => exact hdelete _ _ _ (.inl rfl)
  | retireL1 s rest heq hne => exact ht.retire h.filed heq hne hcons
  | retire level minTxid maxTxid last hlow hlast hne =>
      by_cases h8 : level ≤ 8
      · obtain ⟨s, hs, hkey, hbefore⟩ := hd (by omega) h8
        have hchain := ht.chain level (by omega) h8
        obtain ⟨y, rest, heq⟩ := List.exists_cons_of_ne_nil (List.ne_nil_of_mem hs)
        -- the files before it would end earlier, so it is the first
        have hfirst : s = y := by
          rw [heq] at hs
          rcases List.mem_cons.mp hs with hs | hs
          · exact hs
          · have hys := (List.pairwise_cons.mp (heq ▸ h.sorted level)).1 s hs
            have hle := hbefore y (by rw [heq]; exact List.mem_cons_self ..) hys
            have hvalid : ∀ z ∈ rest, z.minTxid ≤ z.maxTxid := fun z hz =>
              (h.files level z (by rw [heq]; exact List.mem_cons_of_mem _ hz)).range.2.1
            have hlt := maxTxid_lt_minTxid (heq ▸ hchain) hvalid s hs
            have hsle := hvalid s hs
            omega
        subst hfirst
        obtain ⟨rfl, rfl⟩ := Prod.mk.inj hkey
        refine ht.retire h.filed heq (fun hnil => hne ?_) hcons
        rw [heq, hnil] at hlast
        exact (congrArg Stored.key (Option.some.inj hlast)).symm
      · exact hdelete _ _ _ (.inr (Nat.not_le.mp h8))

end Liters
