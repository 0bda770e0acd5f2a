import Mathlib.Data.List.Chain
import Mathlib.Data.List.Forall2
import Liters.Restore.Plan

/-! # The planner is sound and complete

The invariant of the greedy loop: every eligible file a cursor has consumed is behind the end of the
chain or no better than the cursor's candidate (`CursorInv`). When no cursor has a candidate left, a
file that could extend the chain would have been consumed, since a cursor stops only in front of a
gap; so the chain is as long as any chain can be. -/

namespace Liters

/-! ## Chains -/

/-- Each file continues, or overlaps and extends, the one before it. -/
def Contiguous (f g : FileInfo) : Prop := isContiguous f.maxTxid g.minTxid g.maxTxid

/-- A chain of files from the first transaction on. -/
structure RestoreChain (fs : List FileInfo) : Prop where
  first : ∃ f, fs.head? = some f ∧ f.minTxid = 1
  chain : fs.IsChain Contiguous

/-- What a listing guarantees: sorted levels, ordered ranges away from the end of the number range,
and snapshots that start at the first transaction. -/
structure ListingOk (files : Listing) : Prop where
  sorted : ∀ level, (files level).Pairwise fun a b =>
    a.minTxid < b.minTxid ∨ (a.minTxid = b.minTxid ∧ a.maxTxid ≤ b.maxTxid)
  range : ∀ level, ∀ f ∈ files level,
    1 ≤ f.minTxid ∧ f.minTxid ≤ f.maxTxid ∧ f.maxTxid < 2 ^ 64 - 1
  snapshots : ∀ f ∈ files snapshotLevel, f.minTxid = 1

/-- A file of the listing. -/
def Listed (files : Listing) (f : FileInfo) : Prop := ∃ level ≤ snapshotLevel, f ∈ files level

/-- A file that does not reach beyond the target. -/
def Eligible (txid : Nat) (f : FileInfo) : Prop := txid ≠ 0 → f.maxTxid ≤ txid

/-- Below the last TXID contiguity needs no saturation. -/
theorem contiguous_iff {f g : FileInfo} (hf : f.maxTxid < 2 ^ 64 - 1) :
    Contiguous f g ↔ g.minTxid ≤ f.maxTxid + 1 ∧ f.maxTxid < g.maxTxid := by
  rw [Contiguous, isContiguous, wrappingSucc_of_lt hf, Bool.and_eq_true, decide_eq_true_eq,
    decide_eq_true_eq]

/-! ## One cursor -/

/-- A cursor over the listing `all` while the chain reaches `currentMax`. -/
structure CursorInv (txid : Nat) (all : List FileInfo) (currentMax : Nat) (cursor : LevelCursor) :
    Prop where
  /-- Whatever was consumed is behind the chain or no better than the candidate. -/
  consumed : ∃ seen, all = seen ++ cursor.pending ∧ ∀ f ∈ seen, Eligible txid f →
    f.maxTxid ≤ currentMax ∨ ∃ c, cursor.candidate = some c ∧ f.maxTxid ≤ c.maxTxid
  /-- The candidate is an eligible file that continues the chain. -/
  candidate : ∀ c, cursor.candidate = some c →
    c ∈ all ∧ Eligible txid c ∧ c.minTxid ≤ currentMax + 1

/-- A refreshed cursor: in addition, its candidate extends the chain and what it has not consumed
starts behind a gap. -/
structure Refreshed (txid : Nat) (all : List FileInfo) (currentMax : Nat) (cursor : LevelCursor) :
    Prop extends CursorInv txid all currentMax cursor where
  extends_chain : ∀ c, cursor.candidate = some c → currentMax < c.maxTxid
  gap : ∀ f, cursor.pending.head? = some f → currentMax + 1 < f.minTxid
  current : cursor.current = none → cursor.files = []

/-- A longer chain keeps the invariant. -/
theorem CursorInv.mono {txid m n : Nat} {all : List FileInfo} {cursor : LevelCursor}
    (h : CursorInv txid all m cursor) (hmn : m ≤ n) : CursorInv txid all n cursor := by
  obtain ⟨⟨seen, hsplit, hseen⟩, hcand⟩ := h
  refine ⟨⟨seen, hsplit, fun f hf he => ?_⟩, fun c hc => ?_⟩
  · rcases hseen f hf he with hle | hc
    · exact Or.inl (hle.trans hmn)
    · exact Or.inr hc
  · obtain ⟨h1, h2, h3⟩ := hcand c hc
    exact ⟨h1, h2, by omega⟩

/-- The better of a candidate and a file is one of them and reaches as far as both. -/
theorem LevelCursor.better_spec (candidate : Option FileInfo) (info : FileInfo) :
    (better candidate info = info ∨ candidate = some (better candidate info)) ∧
      info.maxTxid ≤ (better candidate info).maxTxid ∧
      ∀ c, candidate = some c → c.maxTxid ≤ (better candidate info).maxTxid := by
  cases candidate with
  | none => exact ⟨Or.inl rfl, le_rfl, fun c hc => by cases hc⟩
  | some curr =>
      rw [better]
      by_cases hb : candidateBetter curr info
      · rw [if_pos hb]
        refine ⟨Or.inl rfl, le_rfl, fun c hc => ?_⟩
        obtain rfl := Option.some.inj hc
        rw [candidateBetter] at hb
        split at hb
        · simp only [decide_eq_true_eq] at hb
          omega
        · omega
      · rw [if_neg hb]
        refine ⟨Or.inr rfl, ?_, fun c hc => by obtain rfl := Option.some.inj hc; exact le_rfl⟩
        rw [candidateBetter] at hb
        split at hb
        · simp only [decide_eq_true_eq] at hb
          omega
        · omega

/-- The refresh loop keeps the invariant and ends in front of a gap. -/
theorem LevelCursor.refreshLoop_spec {txid currentMax : Nat} {all : List FileInfo}
    (hmax : currentMax < 2 ^ 64 - 1) (files : List FileInfo) (cursor : LevelCursor)
    (seen : List FileInfo) (hsplit : all = seen ++ files)
    (hseen : ∀ f ∈ seen, Eligible txid f →
      f.maxTxid ≤ currentMax ∨ ∃ c, cursor.candidate = some c ∧ f.maxTxid ≤ c.maxTxid)
    (hcand : ∀ c, cursor.candidate = some c →
      (c ∈ all ∧ Eligible txid c ∧ c.minTxid ≤ currentMax + 1) ∧ currentMax < c.maxTxid) :
    Refreshed txid all currentMax (refreshLoop currentMax txid files cursor) := by
  induction files generalizing cursor seen with
  | nil =>
      rw [refreshLoop]
      exact ⟨⟨⟨seen, by simpa [pending] using hsplit, hseen⟩, fun c hc => (hcand c hc).1⟩,
        fun c hc => (hcand c hc).2, fun f hf => (by cases hf), fun _ => rfl⟩
  | cons info files ih =>
      have hsplit' : all = (seen ++ [info]) ++ files := by rw [hsplit, List.append_assoc]; rfl
      rw [refreshLoop, wrappingSucc_of_lt hmax]
      by_cases hgap : info.minTxid > currentMax + 1
      · rw [if_pos hgap]
        refine ⟨⟨⟨seen, hsplit, hseen⟩, fun c hc => (hcand c hc).1⟩, fun c hc => (hcand c hc).2,
          fun f hf => ?_, fun h => by cases h⟩
        obtain rfl : info = f := Option.some.inj hf
        exact hgap
      rw [if_neg hgap]
      -- a skipped file is behind the chain or not eligible
      have hskip : (Eligible txid info → info.maxTxid ≤ currentMax) →
          ∀ f ∈ seen ++ [info], Eligible txid f →
            f.maxTxid ≤ currentMax ∨ ∃ c, cursor.candidate = some c ∧ f.maxTxid ≤ c.maxTxid := by
        intro hinfo f hf he
        rcases List.mem_append.mp hf with hf | hf
        · exact hseen f hf he
        · obtain rfl := List.mem_singleton.mp hf
          exact Or.inl (hinfo he)
      by_cases hold : info.maxTxid ≤ currentMax
      · rw [if_pos hold]
        exact ih cursor _ hsplit' (hskip fun _ => hold) hcand
      rw [if_neg hold]
      by_cases htarget : txid ≠ 0 ∧ info.maxTxid > txid
      · rw [if_pos htarget]
        refine ih cursor _ hsplit' (hskip fun he => ?_) hcand
        have := he htarget.1
        omega
      rw [if_neg htarget]
      have heligible : Eligible txid info := fun h0 => by
        by_contra hlt
        exact htarget ⟨h0, by omega⟩
      have hmem : info ∈ all := by rw [hsplit]; simp
      obtain ⟨hone, hinfo, hcurr⟩ := better_spec cursor.candidate info
      refine ih _ _ hsplit' (fun f hf he => ?_) fun c hc => ?_
      · rcases List.mem_append.mp hf with hf | hf
        · rcases hseen f hf he with hle | ⟨c, hc, hle⟩
          · exact Or.inl hle
          · exact Or.inr ⟨_, rfl, hle.trans (hcurr c hc)⟩
        · obtain rfl := List.mem_singleton.mp hf
          exact Or.inr ⟨_, rfl, hinfo⟩
      · obtain rfl : better cursor.candidate info = c := Option.some.inj hc
        rcases hone with hone | hone
        · rw [hone]
          exact ⟨⟨hmem, heligible, by omega⟩, by omega⟩
        · exact hcand _ hone

/-- Refreshing a cursor. -/
theorem CursorInv.refresh {txid currentMax : Nat} {all : List FileInfo} {cursor : LevelCursor}
    (h : CursorInv txid all currentMax cursor) (hmax : currentMax < 2 ^ 64 - 1) :
    Refreshed txid all currentMax (cursor.refresh currentMax txid) := by
  obtain ⟨⟨seen, hsplit, hseen⟩, hcand⟩ := h
  refine LevelCursor.refreshLoop_spec hmax _ _ seen hsplit (fun f hf he => ?_) fun c hc => ?_
  · -- dropping a stale candidate leaves behind only files the chain has passed
    rcases hseen f hf he with hle | ⟨c, hc, hle⟩
    · exact Or.inl hle
    · by_cases hstale : c.maxTxid > currentMax
      · exact Or.inr ⟨c, by simp [hc, hstale], hle⟩
      · exact Or.inl (by omega)
  · rw [Option.filter_eq_some_iff] at hc
    exact ⟨hcand c hc.1, by simpa using hc.2⟩

/-- A refreshed cursor without a candidate has nothing that extends the chain: an eligible file that
starts no later than behind the chain is part of it. -/
theorem Refreshed.maxTxid_le {txid currentMax : Nat} {all : List FileInfo} {cursor : LevelCursor}
    (h : Refreshed txid all currentMax cursor) (hnone : cursor.candidate = none)
    (hsorted : all.Pairwise fun a b =>
      a.minTxid < b.minTxid ∨ (a.minTxid = b.minTxid ∧ a.maxTxid ≤ b.maxTxid))
    {f : FileInfo} (hf : f ∈ all) (he : Eligible txid f) (hmin : f.minTxid ≤ currentMax + 1) :
    f.maxTxid ≤ currentMax := by
  obtain ⟨seen, hsplit, hseen⟩ := h.consumed
  rw [hsplit, List.mem_append] at hf
  -- what was consumed does not reach beyond the current end, or is the candidate
  rcases hf with hf | hf
  · rcases hseen f hf he with hle | ⟨c, hc, -⟩
    · exact hle
    · rw [hnone] at hc
      cases hc
  · -- whatever is not consumed starts behind the gap
    cases hp : cursor.pending with
    | nil =>
        rw [hp] at hf
        cases hf
    | cons g rest =>
        have hg := h.gap g (by rw [hp]; rfl)
        rw [hsplit, hp, List.pairwise_append] at hsorted
        have hrest := (List.pairwise_cons.mp hsorted.2.1).1
        rw [hp] at hf
        rcases List.mem_cons.mp hf with rfl | hf
        · omega
        · rcases hrest f hf with hlt | ⟨heq, -⟩
          · omega
          · omega

/-! ## All cursors -/

/-- The cursors of the planner over the levels below the snapshots. -/
abbrev AllCursors (P : List FileInfo → LevelCursor → Prop) (files : Listing) :
    List LevelCursor → List Nat → Prop :=
  List.Forall₂ fun cursor level => P (files level) cursor

/-- What holds of every cursor joins what relates the cursors to their levels. -/
theorem AllCursors.and_mem {P : List FileInfo → LevelCursor → Prop} {Q : LevelCursor → Prop}
    {files : Listing} {cursors : List LevelCursor} {levels : List Nat}
    (h : AllCursors P files cursors levels) (hq : ∀ cursor ∈ cursors, Q cursor) :
    AllCursors (fun all cursor => P all cursor ∧ Q cursor) files cursors levels := by
  induction h with
  | nil => exact .nil
  | cons hp _ ih =>
      exact .cons ⟨hp, hq _ (List.mem_cons_self ..)⟩
        (ih fun cursor hc => hq cursor (List.mem_cons_of_mem _ hc))

/-- Every level has its cursor. -/
theorem AllCursors.exists_cursor {P : List FileInfo → LevelCursor → Prop} {files : Listing}
    {cursors : List LevelCursor} {levels : List Nat} (h : AllCursors P files cursors levels)
    {level : Nat} (hl : level ∈ levels) : ∃ cursor ∈ cursors, P (files level) cursor := by
  induction h with
  | nil => cases hl
  | @cons cursor _ _ _ hp _ ih =>
      rcases List.mem_cons.mp hl with rfl | hl
      · exact ⟨cursor, List.mem_cons_self .., hp⟩
      · obtain ⟨cur, hc, hp⟩ := ih hl
        exact ⟨cur, List.mem_cons_of_mem _ hc, hp⟩

/-- Refreshing every cursor keeps the invariant and finds the candidates. -/
theorem AllCursors.refreshAll {files : Listing} {txid currentMax : Nat}
    {cursors : List LevelCursor} {levels : List Nat}
    (h : AllCursors (CursorInv txid · currentMax) files cursors levels)
    (hmax : currentMax < 2 ^ 64 - 1) :
    AllCursors (Refreshed txid · currentMax) files (refreshAll currentMax txid cursors) levels :=
  List.forall₂_map_left_iff.mpr (h.imp fun _ _ hc => hc.refresh hmax)

/-- Taking the candidate of a cursor: it is an eligible file that extends the chain, and with the
chain extended by it the invariant holds again. -/
theorem AllCursors.takeCandidate {files : Listing} {txid currentMax k : Nat}
    {cursors : List LevelCursor} {levels : List Nat} {cursor : LevelCursor} {c : FileInfo}
    (h : AllCursors (Refreshed txid · currentMax) files cursors levels)
    (hget : cursors[k]? = some cursor) (hc : cursor.candidate = some c) :
    (∃ level ∈ levels, c ∈ files level) ∧ Eligible txid c ∧ c.minTxid ≤ currentMax + 1 ∧
      currentMax < c.maxTxid ∧
      AllCursors (CursorInv txid · c.maxTxid) files (takeCandidate cursors k) levels := by
  induction h generalizing k with
  | nil => simp at hget
  | @cons a level cursors levels ha htail ih =>
      cases k with
      | zero =>
          obtain rfl : a = cursor := by simpa using hget
          obtain ⟨hmem, he, hmin⟩ := ha.candidate c hc
          have hlt := ha.extends_chain c hc
          refine ⟨⟨level, List.mem_cons_self .., hmem⟩, he, hmin, hlt, .cons ?_
            (htail.imp fun _ _ h => h.toCursorInv.mono hlt.le)⟩
          -- what the candidate dominated is now behind the chain
          obtain ⟨seen, hsplit, hseen⟩ := ha.consumed
          refine ⟨⟨seen, hsplit, fun f hf hfe => Or.inl ?_⟩, fun c hc => by cases hc⟩
          rcases hseen f hf hfe with hle | ⟨c', hc', hle⟩
          · omega
          · rw [hc] at hc'
            obtain rfl := Option.some.inj hc'
            exact hle
      | succ k =>
          obtain ⟨⟨l, hl, hmem⟩, he, hmin, hlt, hrest⟩ := ih (by simpa using hget)
          exact ⟨⟨l, List.mem_cons_of_mem _ hl, hmem⟩, he, hmin, hlt,
            .cons (ha.toCursorInv.mono hlt.le) hrest⟩

/-! ## The loop -/

/-- The plan built so far. -/
structure PlanInv (files : Listing) (txid currentMax : Nat) (infos : List FileInfo) : Prop where
  bound : currentMax < 2 ^ 64 - 1
  listed : ∀ f ∈ infos, Listed files f
  eligible : ∀ f ∈ infos, Eligible txid f
  first : ∀ f, infos.head? = some f → f ∈ files snapshotLevel ∨ f.minTxid ≤ 1
  chain : infos.IsChain Contiguous
  last : (infos.getLast?.map FileInfo.maxTxid).getD 0 = currentMax

/-- Extending a plan by a file that continues it. -/
theorem PlanInv.extend {files : Listing} {txid currentMax : Nat} {infos : List FileInfo}
    (hfiles : ListingOk files) (h : PlanInv files txid currentMax infos) {c : FileInfo}
    (hc : Listed files c) (he : Eligible txid c) (hmin : c.minTxid ≤ currentMax + 1)
    (hlt : currentMax < c.maxTxid) : PlanInv files txid c.maxTxid (infos ++ [c]) := by
  obtain ⟨level, hlevel, hmem⟩ := hc
  refine ⟨(hfiles.range level c hmem).2.2, fun f hf => ?_, fun f hf => ?_, fun f hf => ?_, ?_, ?_⟩
  · rcases List.mem_append.mp hf with hf | hf
    · exact h.listed f hf
    · rw [List.mem_singleton.mp hf]
      exact ⟨level, hlevel, hmem⟩
  · rcases List.mem_append.mp hf with hf | hf
    · exact h.eligible f hf
    · rw [List.mem_singleton.mp hf]
      exact he
  · -- the first file begins at 1, since the end was 0 before it
    cases infos with
    | nil =>
        obtain rfl : c = f := Option.some.inj hf
        have : currentMax = 0 := h.last.symm
        exact Or.inr (by omega)
    | cons a infos => exact h.first f hf
  · -- it joins onto the last one and extends it
    refine List.isChain_append.mpr ⟨h.chain, .singleton _, fun a ha b hb => ?_⟩
    obtain rfl : c = b := Option.some.inj hb
    have hlast := h.last
    rw [Option.mem_def] at ha
    rw [ha, Option.map_some, Option.getD_some] at hlast
    rw [contiguous_iff (hlast ▸ h.bound), hlast]
    exact ⟨hmin, hlt⟩
  · rw [List.getLast?_append, List.getLast?_singleton]
    rfl

/-- The cursors at the end of the loop: refreshed, and none with a candidate. -/
abbrev Exhausted (files : Listing) (txid currentMax : Nat) (cursors : List LevelCursor) : Prop :=
  AllCursors (fun all cursor => Refreshed txid all currentMax cursor ∧ cursor.candidate = none)
    files cursors planLevels

/-- The plan looks at every level below the snapshots. -/
theorem mem_planLevels {level : Nat} : level ∈ planLevels ↔ level < snapshotLevel := by
  simp [planLevels]

/-- The file picked is the candidate of its cursor. -/
theorem pickNext_getElem? {cursors : List LevelCursor} {k : Nat} {file : FileInfo}
    (h : pickNext 0 none cursors = some (k, file)) :
    ∃ cursor, cursors[k]? = some cursor ∧ cursor.candidate = some file := by
  obtain ⟨cursor, -, hget, hcand⟩ := (pickNext_spec h).resolve_left (by simp)
  exact ⟨cursor, by rwa [Nat.sub_zero] at hget, hcand⟩

/-- **The loop** keeps the invariant and ends at the target or with exhausted cursors. -/
theorem extendChain_spec {files : Listing} (hfiles : ListingOk files) {txid : Nat}
    {cursors : List LevelCursor} {currentMax : Nat} {infos : List FileInfo}
    (hcur : AllCursors (CursorInv txid · currentMax) files cursors planLevels)
    (hinv : PlanInv files txid currentMax infos) :
    ∃ cursors' m infos', extendChain txid cursors currentMax infos = (cursors', m, infos') ∧
      PlanInv files txid m infos' ∧ currentMax ≤ m ∧
      ((txid ≠ 0 ∧ txid ≤ m) ∨ Exhausted files txid m cursors') := by
  induction h : planWeight cursors using Nat.strongRecOn generalizing cursors currentMax infos with
  | ind n ih =>
      subst h
      have hstep := hcur.refreshAll hinv.bound
      rw [extendChain]
      split
      · rename_i hpick
        have hnone := (pickNext_eq_none hpick).2
        refine ⟨_, _, _, rfl, hinv, le_rfl, Or.inr ?_⟩
        exact hstep.and_mem hnone
      · rename_i i c hpick
        obtain ⟨cursor, hget, hcand⟩ := pickNext_getElem? hpick
        obtain ⟨⟨level, hlevel, hmem⟩, he, hmin, hlt, htake⟩ := hstep.takeCandidate hget hcand
        have hlisted : Listed files c := ⟨level, (mem_planLevels.mp hlevel).le, hmem⟩
        have hext := hinv.extend hfiles hlisted he hmin hlt
        have hless : planWeight (takeCandidate (refreshAll currentMax txid cursors) i)
            < planWeight cursors :=
          lt_of_lt_of_le (planWeight_takeCandidate_lt hpick) (planWeight_refreshAll_le _ _ _)
        rw [if_neg (Nat.not_le.mpr hlt)]
        split
        · rename_i hdone
          exact ⟨_, _, _, rfl, hext, hlt.le, Or.inl hdone⟩
        · obtain ⟨cursors', m, infos', hrun, hplan, hle, hend⟩ := ih _ hless htake hext rfl
          exact ⟨cursors', m, infos', hrun, hplan, hlt.le.trans hle, hend⟩

/-! ## The snapshot -/

/-- The newest snapshot is eligible, and every eligible snapshot is behind it. -/
theorem newestSnapshot_spec {txid : Nat} {all : List FileInfo}
    (hsorted : all.Pairwise fun a b =>
      a.minTxid < b.minTxid ∨ (a.minTxid = b.minTxid ∧ a.maxTxid ≤ b.maxTxid))
    (hmin : ∀ f ∈ all, f.minTxid = 1) :
    (∀ s, newestSnapshot txid all = some s → s ∈ all ∧ Eligible txid s) ∧
      ∀ f ∈ all, Eligible txid f →
        ∃ s, newestSnapshot txid all = some s ∧ f.maxTxid ≤ s.maxTxid := by
  -- the snapshots come in the order of the listing, so the one compared last is the one kept
  induction all using List.reverseRecOn with
  | nil => exact ⟨fun s hs => (by cases hs), fun f hf => (by cases hf)⟩
  | append_singleton all info ih =>
      rw [List.pairwise_append] at hsorted
      obtain ⟨hsound, hnewest⟩ :=
        ih hsorted.1 fun f hf => hmin f (List.mem_append_left _ hf)
      have hstep : newestSnapshot txid (all ++ [info])
          = if txid ≠ 0 ∧ info.maxTxid > txid then newestSnapshot txid all else some info := by
        simp only [newestSnapshot, List.foldl_append, List.foldl_cons, List.foldl_nil]
      rw [hstep]
      -- it reaches beyond the target and is passed over
      by_cases hbeyond : txid ≠ 0 ∧ info.maxTxid > txid
      · rw [if_pos hbeyond]
        refine ⟨fun s hs => ?_, fun f hf he => ?_⟩
        · obtain ⟨hmem, he⟩ := hsound s hs
          exact ⟨List.mem_append_left _ hmem, he⟩
        · rcases List.mem_append.mp hf with hf | hf
          · exact hnewest f hf he
          · obtain rfl := List.mem_singleton.mp hf
            have := he hbeyond.1
            omega
      · -- it takes the place of the one kept so far
        rw [if_neg hbeyond]
        refine ⟨fun s hs => ?_, fun f hf he => ⟨info, rfl, ?_⟩⟩
        · obtain rfl := Option.some.inj hs
          exact ⟨by simp, fun h0 => by by_contra hlt; exact hbeyond ⟨h0, by omega⟩⟩
        · -- all begin at 1, so the order of the listing is the order of their ends
          rcases List.mem_append.mp hf with hf | hf
          · have h1 := hmin f (List.mem_append_left _ hf)
            have h2 := hmin info (by simp)
            rcases hsorted.2.2 f hf info (by simp) with hlt | ⟨-, hle⟩
            · omega
            · exact hle
          · rw [List.mem_singleton.mp hf]

/-! ## The result -/

/-- Where the loop starts: the newest snapshot, and cursors that have consumed nothing. -/
theorem planInv_start {files : Listing} (hfiles : ListingOk files) (txid : Nat) :
    PlanInv files txid
      (((newestSnapshot txid (files snapshotLevel)).toList.getLast?.map FileInfo.maxTxid).getD 0)
      (newestSnapshot txid (files snapshotLevel)).toList := by
  obtain ⟨hsound, -⟩ := @newestSnapshot_spec txid _ (hfiles.sorted snapshotLevel) hfiles.snapshots
  cases hs : newestSnapshot txid (files snapshotLevel) with
  | none =>
      exact ⟨by simp, fun f hf => (by cases hf), fun f hf => (by cases hf),
        fun f hf => (by cases hf),
        .nil, rfl⟩
  | some s =>
      obtain ⟨hmem, he⟩ := hsound s hs
      refine ⟨(hfiles.range _ s hmem).2.2, fun f hf => ?_, fun f hf => ?_, fun f hf => ?_,
        .singleton _, rfl⟩
      · obtain rfl := List.mem_singleton.mp hf
        exact ⟨snapshotLevel, le_rfl, hmem⟩
      · obtain rfl := List.mem_singleton.mp hf
        exact he
      · obtain rfl : s = f := Option.some.inj hf
        exact Or.inl hmem

/-- A chain of eligible files ends no later than a plan with exhausted cursors. -/
theorem chain_le_of_exhausted {files : Listing} (hfiles : ListingOk files) {txid m : Nat}
    {cursors : List LevelCursor} (h : Exhausted files txid m cursors)
    (hsnap : ∀ f ∈ files snapshotLevel, Eligible txid f → f.maxTxid ≤ m)
    {fs : List FileInfo} (hchain : fs.IsChain Contiguous)
    (hfirst : ∀ f, fs.head? = some f → f.minTxid ≤ m + 1)
    (hlisted : ∀ f ∈ fs, Listed files f) (he : ∀ f ∈ fs, Eligible txid f) :
    ∀ f ∈ fs, f.maxTxid ≤ m := by
  have hone : ∀ f, Listed files f → Eligible txid f → f.minTxid ≤ m + 1 → f.maxTxid ≤ m := by
    rintro f ⟨level, hlevel, hmem⟩ hfe hmin
    rcases Nat.lt_or_eq_of_le hlevel with hlt | rfl
    · obtain ⟨cursor, -, href, hnone⟩ := AllCursors.exists_cursor h (mem_planLevels.mpr hlt)
      exact href.maxTxid_le hnone (hfiles.sorted level) hmem hfe hmin
    · exact hsnap f hmem hfe
  -- by induction along the chain: each file starts behind what is already covered
  induction fs with
  | nil => exact fun f hf => by cases hf
  | cons a fs ih =>
      have ha := hone a (hlisted a (List.mem_cons_self ..)) (he a (List.mem_cons_self ..))
        (hfirst a rfl)
      obtain ⟨_, _, hmem⟩ := hlisted a (List.mem_cons_self ..)
      have hlt := (hfiles.range _ a hmem).2.2
      intro f hf
      rcases List.mem_cons.mp hf with rfl | hf
      · exact ha
      · refine ih hchain.tail (fun b hb => ?_) (fun b hb => hlisted b (List.mem_cons_of_mem _ hb))
          (fun b hb => he b (List.mem_cons_of_mem _ hb)) f hf
        have hab := hchain.rel_head? hb
        rw [contiguous_iff hlt] at hab
        omega

/-- With exhausted cursors and no file in front of a gap, every file is behind the chain. -/
theorem maxTxid_le_of_gapFile_eq_none {files : Listing} {m : Nat}
    {cursors : List LevelCursor} (hm : m < 2 ^ 64 - 1) (h : Exhausted files 0 m cursors)
    (hgap : gapFile m cursors = none) {level : Nat} (hlevel : level < snapshotLevel) {f : FileInfo}
    (hf : f ∈ files level) : f.maxTxid ≤ m := by
  obtain ⟨cursor, hc, href, hnone⟩ := AllCursors.exists_cursor h (mem_planLevels.mpr hlevel)
  rw [gapFile, List.findSome?_eq_none_iff] at hgap
  have hcurrent : cursor.current = none := by
    cases hcur : cursor.current with
    | none => rfl
    | some info =>
        have hhead := href.gap info (by rw [LevelCursor.pending, hcur]; rfl)
        have := hgap cursor hc
        simp [hcur, wrappingSucc_of_lt hm] at this
        omega
  have hpending : cursor.pending = [] := by
    rw [LevelCursor.pending, hcurrent, href.current hcurrent]
    rfl
  obtain ⟨seen, hsplit, hseen⟩ := href.consumed
  rw [hpending, List.append_nil] at hsplit
  rcases hseen f (hsplit ▸ hf) (fun h => absurd rfl h) with hle | ⟨c, hcand, -⟩
  · exact hle
  · rw [hnone] at hcand
    cases hcand

/-- A file in front of a gap is listed and starts behind it. -/
theorem gapFile_eq_some {files : Listing} {txid m : Nat} {cursors : List LevelCursor}
    (hm : m < 2 ^ 64 - 1) (h : Exhausted files txid m cursors) {g : FileInfo}
    (hgap : gapFile m cursors = some g) : Listed files g ∧ m + 1 < g.minTxid := by
  obtain ⟨cursor, hc, hg⟩ := List.exists_of_findSome?_eq_some hgap
  rw [Option.filter_eq_some_iff, wrappingSucc_of_lt hm] at hg
  have hmem : ∀ {cursors : List LevelCursor} {levels : List Nat}, AllCursors
      (fun all cursor => Refreshed txid all m cursor ∧ cursor.candidate = none) files cursors
        levels →
      cursor ∈ cursors → ∃ level ∈ levels, g ∈ files level := by
    intro cursors levels h hc
    induction h with
    | nil => cases hc
    | @cons a level _ _ ha _ ih =>
        rcases List.mem_cons.mp hc with rfl | hc
        · obtain ⟨seen, hsplit, -⟩ := ha.1.consumed
          refine ⟨level, List.mem_cons_self .., ?_⟩
          rw [hsplit, LevelCursor.pending, hg.1]
          simp
        · obtain ⟨l, hl, hg⟩ := ih hc
          exact ⟨l, List.mem_cons_of_mem _ hl, hg⟩
  obtain ⟨level, hl, hfile⟩ := hmem h hc
  exact ⟨⟨level, (mem_planLevels.mp hl).le, hfile⟩, by simpa using hg.2⟩

/-- No file of a chain reaches behind its last one. -/
theorem maxTxid_le_getLast {files : Listing} (hfiles : ListingOk files) {fs : List FileInfo}
    (hchain : fs.IsChain Contiguous) (hlisted : ∀ f ∈ fs, Listed files f) {last : FileInfo}
    (hlast : fs.getLast? = some last) : ∀ f ∈ fs, f.maxTxid ≤ last.maxTxid := by
  induction fs with
  | nil => exact fun f hf => by cases hf
  | cons a fs ih =>
      cases fs with
      | nil =>
          obtain rfl : a = last := Option.some.inj hlast
          intro f hf
          rw [List.mem_singleton.mp hf]
      | cons b fs =>
          have hb := ih hchain.tail (fun f hf => hlisted f (List.mem_cons_of_mem _ hf))
            (by rwa [List.getLast?_cons_cons] at hlast)
          intro f hf
          rcases List.mem_cons.mp hf with rfl | hf
          · obtain ⟨_, _, hmem⟩ := hlisted f (List.mem_cons_self ..)
            have hab := hchain.rel_head? (y := b) rfl
            rw [contiguous_iff (hfiles.range _ f hmem).2.2] at hab
            exact hab.2.le.trans (hb b (List.mem_cons_self ..))
          · exact hb f hf

/-- What the planner returns is a chain that ends at the target, or at the end of everything. -/
structure PlanOk (files : Listing) (txid : Nat) (plan : List FileInfo) : Prop where
  listed : ∀ f ∈ plan, Listed files f
  first : ∃ f, plan.head? = some f ∧ (f ∈ files snapshotLevel ∨ f.minTxid ≤ 1)
  chain : plan.IsChain Contiguous
  last : ∃ f, plan.getLast? = some f ∧ (txid ≠ 0 → f.maxTxid = txid) ∧
    (txid = 0 → ∀ g, Listed files g → g.maxTxid ≤ f.maxTxid)

/-- A chain of listed files that ends at `last`. -/
def HasChain (files : Listing) (last : FileInfo) : Prop :=
  ∃ fs, RestoreChain fs ∧ (∀ f ∈ fs, Listed files f) ∧ fs.getLast? = some last

/-- A plan is itself such a chain. -/
theorem PlanOk.hasChain {files : Listing} (hfiles : ListingOk files) {txid : Nat}
    {plan : List FileInfo} (h : PlanOk files txid plan) {last : FileInfo}
    (hlast : plan.getLast? = some last) : HasChain files last := by
  obtain ⟨f, hf, hfirst⟩ := h.first
  refine ⟨plan, ⟨⟨f, hf, ?_⟩, h.chain⟩, h.listed, hlast⟩
  rcases hfirst with hfirst | hfirst
  · exact hfiles.snapshots f hfirst
  · obtain ⟨level, -, hmem⟩ := h.listed f (List.mem_of_mem_head? hf)
    have := (hfiles.range level f hmem).1
    omega

/-- The planner returns a sound plan, or there is no chain that ends at a file up to which (for the
latest state) every listed file reaches. -/
theorem calcRestorePlan_cases {files : Listing} (hfiles : ListingOk files) (txid : Nat) :
    (∃ plan, calcRestorePlan files txid = .ok plan ∧ PlanOk files txid plan) ∨
      ((∃ e, calcRestorePlan files txid = .error e) ∧ ∀ last, HasChain files last →
        (txid ≠ 0 → last.maxTxid ≠ txid) ∧
        (txid = 0 → ∃ g, Listed files g ∧ last.maxTxid < g.maxTxid)) := by
  have hstart := planInv_start hfiles txid
  have hsnap := (@newestSnapshot_spec txid _ (hfiles.sorted snapshotLevel) hfiles.snapshots).2
  rw [calcRestorePlan]
  simp only
  set infos := (newestSnapshot txid (files snapshotLevel)).toList with hinfos
  set m₀ := (infos.getLast?.map FileInfo.maxTxid).getD 0 with hm₀
  have hsnap₀ : ∀ f ∈ files snapshotLevel, Eligible txid f → f.maxTxid ≤ m₀ := by
    intro f hf he
    obtain ⟨s, hs, hle⟩ := hsnap f hf he
    rw [hm₀, hinfos, hs]
    exact hle
  by_cases hreach : txid ≠ 0 ∧ m₀ ≥ txid
  · -- a snapshot at the target
    rw [if_pos hreach]
    refine Or.inl ⟨infos, rfl, hstart.listed, ?_, hstart.chain, ?_⟩
    all_goals
      cases hs : newestSnapshot txid (files snapshotLevel) with
      | none =>
          rw [hm₀, hinfos, hs] at hreach
          simp at hreach
      | some s =>
          rw [hs] at hinfos
          rw [hinfos] at hstart hm₀ ⊢
          have hmax : m₀ = s.maxTxid := hm₀
          have := hstart.eligible s (List.mem_singleton_self s)
          first
          | exact ⟨s, rfl, hstart.first s rfl⟩
          | exact ⟨s, rfl, fun h0 => by have := this h0; omega, fun h0 => absurd h0 hreach.1⟩
  rw [if_neg hreach]
  have hcur : AllCursors (CursorInv txid · m₀) files
      (planLevels.map fun level => { files := files level }) planLevels :=
    List.forall₂_map_left_iff.mpr (List.forall₂_same.mpr fun level _ =>
      ⟨⟨[], rfl, fun f hf => (by cases hf)⟩, fun c hc => (by cases hc)⟩)
  obtain ⟨cursors', m, infos', hrun, hplan, hle, hend⟩ := extendChain_spec hfiles hcur hstart
  rw [hrun]
  simp only
  -- no chain reaches further than an exhausted plan
  have hbeyond : Exhausted files txid m cursors' → ∀ last, HasChain files last →
      (txid ≠ 0 → last.maxTxid ≤ txid) → last.maxTxid ≤ m := by
    rintro hex last ⟨fs, hfs, hlisted, hlast⟩ htarget
    have hmono := maxTxid_le_getLast hfiles hfs.chain hlisted hlast
    obtain ⟨f, hf, hmin⟩ := hfs.first
    refine chain_le_of_exhausted hfiles hex (fun g hg he => (hsnap₀ g hg he).trans hle) hfs.chain
      (fun g hg => ?_) hlisted (fun g hg h0 => (hmono g hg).trans (htarget h0)) last
      (List.mem_of_getLast? hlast)
    obtain rfl : f = g := Option.some.inj (hf.symm.trans hg)
    omega
  have hpos : ∀ last, HasChain files last → 0 < last.maxTxid := by
    rintro last ⟨fs, -, hlisted, hlast⟩
    obtain ⟨_, _, hmem⟩ := hlisted last (List.mem_of_getLast? hlast)
    have := hfiles.range _ last hmem
    omega
  by_cases h0 : txid = 0
  · -- the latest state
    subst h0
    have hex := hend.resolve_left fun h => h.1 rfl
    have hmax := fun last hlast => hbeyond hex last hlast fun h => absurd rfl h
    have hlast' := hplan.last
    cases hl : infos'.getLast? with
    | none =>
        obtain rfl : infos' = [] := List.getLast?_eq_none_iff.mp hl
        refine Or.inr ⟨⟨.txNotAvailable, by simp⟩, fun last hlast => ?_⟩
        have h1 := hpos last hlast
        have h2 := hmax last hlast
        have : m = 0 := hlast'.symm
        omega
    | some f =>
        have hne : infos' ≠ [] := by rintro rfl; cases hl
        rw [hl, Option.map_some, Option.getD_some] at hlast'
        rw [if_pos ⟨hne, rfl⟩]
        cases hgap : gapFile m cursors' with
        | some g =>
            obtain ⟨hlisted, hstart⟩ := gapFile_eq_some hplan.bound hex hgap
            refine Or.inr ⟨⟨_, rfl⟩, fun last hlast => ⟨fun h => absurd rfl h, fun _ => ?_⟩⟩
            obtain ⟨_, _, hmem⟩ := hlisted
            have := hfiles.range _ g hmem
            have := hmax last hlast
            exact ⟨g, ⟨_, ‹_›, hmem⟩, by omega⟩
        | none =>
            refine Or.inl ⟨infos', by simp, hplan.listed, ?_, hplan.chain, f, hl,
              fun h => absurd rfl h, fun _ g hg => ?_⟩
            · cases infos' with
              | nil => exact absurd rfl hne
              | cons a as => exact ⟨a, rfl, hplan.first a rfl⟩
            · rw [hlast']
              obtain ⟨level, hlevel, hmem⟩ := hg
              rcases Nat.lt_or_eq_of_le hlevel with hlt | rfl
              · exact maxTxid_le_of_gapFile_eq_none hplan.bound hex hgap hlt hmem
              · exact (hsnap₀ g hmem fun h => absurd rfl h).trans hle
  · -- a given target
    rw [if_neg fun h => h0 h.2]
    have hlast' := hplan.last
    have hfail : m < txid → ∀ last, HasChain files last → (txid ≠ 0 → last.maxTxid ≠ txid) ∧
        (txid = 0 → ∃ g, Listed files g ∧ last.maxTxid < g.maxTxid) := by
      intro hlt last hlast
      refine ⟨fun _ heq => ?_, fun h => absurd h h0⟩
      have hex := hend.resolve_left fun h => absurd h.2 (by omega)
      have := hbeyond hex last hlast fun _ => heq.le
      omega
    cases hl : infos'.getLast? with
    | none =>
        rw [hl] at hlast'
        have : m = 0 := hlast'.symm
        exact Or.inr ⟨⟨_, rfl⟩, hfail (by omega)⟩
    | some f =>
        rw [hl, Option.map_some, Option.getD_some] at hlast'
        by_cases hlt : m < txid
        · exact Or.inr ⟨⟨_, if_pos ⟨h0, by omega⟩⟩, hfail hlt⟩
        · refine Or.inl ⟨infos', if_neg fun h => hlt (by omega), hplan.listed, ?_, hplan.chain, f,
            hl, fun _ => ?_, fun h => absurd h h0⟩
          · cases infos' with
            | nil => cases hl
            | cons a as => exact ⟨a, rfl, hplan.first a rfl⟩
          · have := hplan.eligible f (List.mem_of_getLast? hl) h0
            omega

/-- **The planner is sound and complete.** A plan it returns starts with a snapshot or at the first
transaction, is contiguous, and ends at the target (for the latest state, at the highest transaction
of all levels). It returns one exactly if there is a chain of listed files from transaction 1 that
ends there; for the latest state the chain has to reach the end of every listed file, so that none
starts behind a hole. -/
theorem calcRestorePlan_sound_complete {files : Listing} (hfiles : ListingOk files) (txid : Nat) :
    (∀ plan, calcRestorePlan files txid = .ok plan → PlanOk files txid plan) ∧
    (txid ≠ 0 → ((∃ plan, calcRestorePlan files txid = .ok plan) ↔
      ∃ last, HasChain files last ∧ last.maxTxid = txid)) ∧
    (txid = 0 → ((∃ plan, calcRestorePlan files txid = .ok plan) ↔
      (∃ f, Listed files f) ∧ ∃ last, HasChain files last ∧
        (∀ g, Listed files g → g.maxTxid ≤ last.maxTxid) ∧
        ∀ level < snapshotLevel, ∀ g ∈ files level, g.minTxid ≤ last.maxTxid + 1)) := by
  rcases calcRestorePlan_cases hfiles txid with ⟨plan, hrun, hok⟩ | ⟨⟨e, hrun⟩, hnone⟩
  · -- a plan was found, and its last file ends a chain
    obtain ⟨last, hlast, htarget, hlatest⟩ := hok.last
    have hchain := hok.hasChain hfiles hlast
    refine ⟨fun plan' h => ?_, fun h0 => ?_, fun h0 => ?_⟩
    · obtain rfl : plan = plan' := Except.ok.inj (hrun.symm.trans h)
      exact hok
    · exact iff_of_true ⟨plan, hrun⟩ ⟨last, hchain, htarget h0⟩
    · refine iff_of_true ⟨plan, hrun⟩ ⟨⟨last, hok.listed last (List.mem_of_getLast? hlast)⟩, last,
        hchain, hlatest h0, fun level hlevel g hg => ?_⟩
      have h1 := hlatest h0 g ⟨level, hlevel.le, hg⟩
      have h2 := hfiles.range level g hg
      omega
  · -- none was found, and every chain misses the target or leaves a file behind
    refine ⟨fun plan h => ?_, fun h0 => ?_, fun h0 => ?_⟩
    · rw [hrun] at h
      cases h
    · refine iff_of_false ?_ ?_
      · rintro ⟨plan, h⟩
        rw [hrun] at h
        cases h
      · rintro ⟨last, hlast, heq⟩
        exact (hnone last hlast).1 h0 heq
    · refine iff_of_false ?_ ?_
      · rintro ⟨plan, h⟩
        rw [hrun] at h
        cases h
      · rintro ⟨-, last, hlast, hall, -⟩
        obtain ⟨g, hg, hlt⟩ := (hnone last hlast).2 h0
        exact absurd (hall g hg) (Nat.not_le.mpr hlt)

/-- Three transactions, the first two of them also compacted. -/
def compactedListing : Listing
  | 0 => [{ minTxid := 1, maxTxid := 1 }, { minTxid := 2, maxTxid := 2 },
          { minTxid := 3, maxTxid := 3 }]
  | 1 => [{ level := 1, minTxid := 1, maxTxid := 2 }]
  | _ => []

/-- The compacted listing is sorted and well formed. -/
theorem compactedListing_ok : ListingOk compactedListing where
  sorted
    | 0 => by decide
    | 1 => by decide
    | _ + 2 => .nil
  range
    | 0 => by decide
    | 1 => by decide
    | _ + 2 => fun _ hf => nomatch hf
  snapshots _ hf := nomatch hf

/-- The latest state of the three transactions has a plan, and so has the state at the second. -/
theorem calcRestorePlan_compactedListing :
    (∃ plan, calcRestorePlan compactedListing 0 = .ok plan ∧ PlanOk compactedListing 0 plan) ∧
      ∃ plan, calcRestorePlan compactedListing 2 = .ok plan ∧ PlanOk compactedListing 2 plan := by
  have hlisted : Listed compactedListing { level := 1, minTxid := 1, maxTxid := 2 } :=
    ⟨1, by decide, by decide⟩
  have hlast : Listed compactedListing { minTxid := 3, maxTxid := 3 } := ⟨0, by decide, by decide⟩
  have hthree : HasChain compactedListing { minTxid := 3, maxTxid := 3 } :=
    ⟨[{ level := 1, minTxid := 1, maxTxid := 2 }, { minTxid := 3, maxTxid := 3 }],
      ⟨⟨_, rfl, rfl⟩, .cons_cons (by unfold Contiguous; decide) (.singleton _)⟩,
      by simp [hlisted, hlast], rfl⟩
  have htwo : HasChain compactedListing { level := 1, minTxid := 1, maxTxid := 2 } :=
    ⟨[{ level := 1, minTxid := 1, maxTxid := 2 }], ⟨⟨_, rfl, rfl⟩, .singleton _⟩,
      by simp [hlisted], rfl⟩
  -- all files end by 3
  have hbound : ∀ g, Listed compactedListing g → g.maxTxid ≤ 3 := by
    have h0 : ∀ g ∈ compactedListing 0, g.maxTxid ≤ 3 := by decide
    have h1 : ∀ g ∈ compactedListing 1, g.maxTxid ≤ 3 := by decide
    rintro g ⟨level, -, hg⟩
    match level, hg with
    | 0, hg => exact h0 g hg
    | 1, hg => exact h1 g hg
  obtain ⟨hsound₀, -, hiff₀⟩ := calcRestorePlan_sound_complete compactedListing_ok 0
  obtain ⟨hsound₂, hiff₂, -⟩ := calcRestorePlan_sound_complete compactedListing_ok 2
  obtain ⟨plan₀, h₀⟩ := (hiff₀ rfl).mpr ⟨⟨_, hlast⟩, _, hthree, hbound, fun level hlevel g hg => by
    have h1 := hbound g ⟨level, hlevel.le, hg⟩
    have h2 := (compactedListing_ok.range level g hg).2.1
    simp only
    omega⟩
  obtain ⟨plan₂, h₂⟩ := (hiff₂ (by decide)).mpr ⟨_, htwo, rfl⟩
  exact ⟨⟨plan₀, h₀, hsound₀ _ h₀⟩, plan₂, h₂, hsound₂ _ h₂⟩

end Liters
