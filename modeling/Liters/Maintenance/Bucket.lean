import Liters.Foundation.Script
import Liters.Restore.Plan
import Liters.Ltx.Compactor

/-! # The bucket

A replica bucket as a storage backend shows it: the files of each level, listed in `(min, max)`
order. The only mutations are PUTs, which replace a file of the same key, and DELETEs. -/

namespace Liters

/-- A file in a bucket: its key within its level, its creation time and its content. -/
structure Stored where
  minTxid : Nat
  maxTxid : Nat
  createdAt : Option Int
  body : Bytes
  deriving DecidableEq

namespace Stored

/-- The key of a file within its level. -/
def key (s : Stored) : Nat × Nat := (s.minTxid, s.maxTxid)

/-- What a listing says of a file. -/
def info (level : Nat) (s : Stored) : FileInfo := ⟨level, s.minTxid, s.maxTxid, s.createdAt⟩

/-- `(min, max)` order. -/
def Before (s t : Stored) : Prop :=
  s.minTxid < t.minTxid ∨ (s.minTxid = t.minTxid ∧ s.maxTxid < t.maxTxid)

instance (s t : Stored) : Decidable (s.Before t) := inferInstanceAs (Decidable (_ ∨ _))

end Stored

/-- The files of every level, in listing order. -/
abbrev Bucket := Nat → List Stored

/-- A change of the bucket. -/
inductive Mutation where
  | put (level : Nat) (file : Stored)
  | delete (level minTxid maxTxid : Nat)

namespace Bucket

/-- The bucket without files. -/
def empty : Bucket := fun _ => []

/-- Insert a file in listing order, replacing one of the same key. -/
def insertFile (s : Stored) : List Stored → List Stored
  | [] => [s]
  | x :: xs =>
      if s.Before x then s :: x :: xs
      else if s.key = x.key then s :: xs
      else x :: insertFile s xs

/-- Replace the files of one level. -/
def setLevel (b : Bucket) (level : Nat) (files : List Stored) : Bucket :=
  fun l => if l = level then files else b l

/-- Make a change. -/
def act (b : Bucket) : Mutation → Bucket
  | .put level file => b.setLevel level (insertFile file (b level))
  | .delete level minTxid maxTxid =>
      b.setLevel level ((b level).filter fun s => s.key ≠ (minTxid, maxTxid))

/-- The files of a level that start at `seek` or later. -/
def ltxFiles (b : Bucket) (level seek : Nat) : List FileInfo :=
  ((b level).filter fun s => seek ≤ s.minTxid).map (Stored.info level)

/-- The listings the planner reads. -/
def listing (b : Bucket) : Listing := fun level => b.ltxFiles level 0

/-- The last file with the highest maximum. -/
def maxByMaxTxid (files : List FileInfo) : Option FileInfo :=
  files.foldl (fun best f => match best with
    | none => some f
    | some g => if g.maxTxid ≤ f.maxTxid then some f else some g) none

/-- The file of a level that reaches furthest. -/
def maxLtxFileInfo (b : Bucket) (level : Nat) : Option FileInfo := maxByMaxTxid (b.ltxFiles level 0)

/-- The content of a file. -/
def openLtxFile (b : Bucket) (level minTxid maxTxid : Nat) : Option Bytes :=
  ((b level).find? fun s => s.key = (minTxid, maxTxid)).map Stored.body

/-- DELETE files one after the other. -/
def deleteLtxFiles (infos : List FileInfo) : List Mutation :=
  infos.map fun f => .delete f.level f.minTxid f.maxTxid

/-- The first file of a list is deleted first. -/
theorem deleteLtxFiles_cons (level : Nat) (s : Stored) (infos : List FileInfo) :
    deleteLtxFiles (s.info level :: infos)
      = .delete level s.minTxid s.maxTxid :: deleteLtxFiles infos := rfl

/-- A level that is set holds what it is set to. -/
@[simp] theorem setLevel_same (b : Bucket) (level : Nat) (files : List Stored) :
    b.setLevel level files level = files := if_pos rfl

/-- The other levels stay as they are. -/
theorem setLevel_of_ne (b : Bucket) {level l : Nat} (files : List Stored) (h : l ≠ level) :
    b.setLevel level files l = b l := if_neg h

/-- A listing from TXID 0 lists the whole level. -/
theorem ltxFiles_zero (b : Bucket) (level : Nat) :
    b.ltxFiles level 0 = (b level).map (Stored.info level) := by
  simp [ltxFiles]

/-- A stored file can be opened. -/
theorem openLtxFile_of_mem {b : Bucket} {level : Nat} {s : Stored} (h : s ∈ b level) :
    ∃ s' ∈ b level, s'.key = s.key ∧
      b.openLtxFile level s.minTxid s.maxTxid = some s'.body := by
  have hfind : ((b level).find? fun x => x.key = (s.minTxid, s.maxTxid)).isSome := by
    rw [List.find?_isSome]
    exact ⟨s, h, by simp [Stored.key]⟩
  obtain ⟨s', hs'⟩ := Option.isSome_iff_exists.mp hfind
  have hkey := List.find?_some hs'
  refine ⟨s', List.mem_of_find?_eq_some hs', by simpa [Stored.key] using hkey, ?_⟩
  rw [openLtxFile, hs', Option.map_some]

/-- What `maxByMaxTxid` finds. -/
theorem maxByMaxTxid_spec (files : List FileInfo) :
    (maxByMaxTxid files = none → files = []) ∧
      ∀ m, maxByMaxTxid files = some m → m ∈ files ∧ ∀ f ∈ files, f.maxTxid ≤ m.maxTxid := by
  -- the fold goes from the left, so the last file is the one compared last
  induction files using List.reverseRecOn with
  | nil => exact ⟨fun _ => rfl, fun m hm => by cases hm⟩
  | append_singleton files f ih =>
      have hstep : maxByMaxTxid (files ++ [f]) = match maxByMaxTxid files with
          | none => some f
          | some g => if g.maxTxid ≤ f.maxTxid then some f else some g := by
        simp only [maxByMaxTxid, List.foldl_append, List.foldl_cons, List.foldl_nil]
      rw [hstep]
      cases hm : maxByMaxTxid files with
      | none =>
          obtain rfl := ih.1 hm
          refine ⟨fun h => (by cases h), fun m h => ?_⟩
          obtain rfl := Option.some.inj h
          simp
      | some g =>
          obtain ⟨hg, hmax⟩ := ih.2 g hm
          simp only
          -- of two files with the same end the later one is kept, as max_by_key does
          split
          · rename_i hle
            refine ⟨fun h => (by cases h), fun m h => ?_⟩
            obtain rfl := Option.some.inj h
            refine ⟨by simp, fun x hx => ?_⟩
            rcases List.mem_append.mp hx with hx | hx
            · exact (hmax x hx).trans hle
            · rw [List.mem_singleton.mp hx]
          · rename_i hlt
            refine ⟨fun h => (by cases h), fun m h => ?_⟩
            obtain rfl := Option.some.inj h
            refine ⟨List.mem_append_left _ hg, fun x hx => ?_⟩
            rcases List.mem_append.mp hx with hx | hx
            · exact hmax x hx
            · rw [List.mem_singleton.mp hx]
              omega

/-- Inserting adds the file and keeps every key. -/
theorem mem_insertFile {s x : Stored} {files : List Stored} :
    (x ∈ insertFile s files → x = s ∨ x ∈ files) ∧
      (x ∈ files → ∃ y ∈ insertFile s files, y.key = x.key) ∧ s ∈ insertFile s files := by
  induction files with
  | nil => simp [insertFile]
  | cons z files ih =>
      rw [insertFile]
      split
      · exact ⟨by simp, fun h => ⟨x, List.mem_cons_of_mem _ h, rfl⟩, List.mem_cons_self ..⟩
      · split
        · rename_i hkey
          refine ⟨fun h => ?_, fun h => ?_, List.mem_cons_self ..⟩
          · rcases List.mem_cons.mp h with rfl | h
            · exact Or.inl rfl
            · exact Or.inr (List.mem_cons_of_mem _ h)
          · rcases List.mem_cons.mp h with rfl | h
            · exact ⟨s, List.mem_cons_self .., hkey⟩
            · exact ⟨x, List.mem_cons_of_mem _ h, rfl⟩
        · refine ⟨fun h => ?_, fun h => ?_, List.mem_cons_of_mem _ ih.2.2⟩
          · rcases List.mem_cons.mp h with rfl | h
            · exact Or.inr (List.mem_cons_self ..)
            · exact (ih.1 h).imp_right (List.mem_cons_of_mem _)
          · rcases List.mem_cons.mp h with rfl | h
            · exact ⟨x, List.mem_cons_self .., rfl⟩
            · obtain ⟨y, hy, hkey⟩ := ih.2.1 h
              exact ⟨y, List.mem_cons_of_mem _ hy, hkey⟩

/-- Inserting keeps the listing order. -/
theorem pairwise_insertFile {s : Stored} {files : List Stored} (h : files.Pairwise Stored.Before) :
    (insertFile s files).Pairwise Stored.Before := by
  have htrans : ∀ x y z : Stored, x.Before y → y.Before z → x.Before z := by
    intro x y z hxy hyz
    unfold Stored.Before at *
    omega
  induction files with
  | nil => simp [insertFile]
  | cons x files ih =>
      obtain ⟨hx, hfiles⟩ := List.pairwise_cons.mp h
      rw [insertFile]
      split
      · -- in front of the first file
        rename_i hs
        refine List.pairwise_cons.mpr ⟨fun y hy => ?_, h⟩
        rcases List.mem_cons.mp hy with rfl | hy
        · exact hs
        · exact htrans _ _ _ hs (hx y hy)
      · split
        · -- in its place: the range is the same
          rename_i hkey
          rw [Stored.key, Stored.key, Prod.mk.injEq] at hkey
          refine List.pairwise_cons.mpr ⟨fun y hy => ?_, hfiles⟩
          have := hx y hy
          unfold Stored.Before at this ⊢
          omega
        · -- further back
          rename_i hs hkey
          refine List.pairwise_cons.mpr ⟨fun y hy => ?_, ih hfiles⟩
          rcases mem_insertFile.1 hy with rfl | hy
          · rw [Stored.key, Stored.key, Prod.mk.injEq] at hkey
            unfold Stored.Before at hs ⊢
            omega
          · exact hx y hy

/-- A file behind all others of a level is appended. -/
theorem insertFile_of_before {s : Stored} {files : List Stored} (h : ∀ x ∈ files, x.Before s) :
    insertFile s files = files ++ [s] := by
  induction files with
  | nil => rfl
  | cons x files ih =>
      have hx := h x (List.mem_cons_self ..)
      have hnot : ¬ s.Before x := by
        intro hs
        unfold Stored.Before at hs hx
        omega
      have hne : ¬ s.key = x.key := by
        intro hk
        rw [Stored.key, Stored.key, Prod.mk.injEq] at hk
        unfold Stored.Before at hx
        omega
      rw [insertFile, if_neg hnot, if_neg hne, ih fun y hy => h y (List.mem_cons_of_mem _ hy),
        List.cons_append]

/-- In a sorted level the inserted file replaces the one of its key and nothing else. -/
theorem mem_insertFile_iff {s x : Stored} {files : List Stored} (h : files.Pairwise Stored.Before) :
    x ∈ insertFile s files ↔ x = s ∨ (x ∈ files ∧ x.key ≠ s.key) := by
  -- a file before another has another key
  have hne : ∀ x y : Stored, x.Before y → x.key ≠ y.key := by
    intro x y hxy hkey
    rw [Stored.key, Stored.key, Prod.mk.injEq] at hkey
    unfold Stored.Before at hxy
    omega
  induction files with
  | nil => simp [insertFile]
  | cons z files ih =>
      obtain ⟨hz, hfiles⟩ := List.pairwise_cons.mp h
      rw [insertFile]
      split
      · rename_i hs
        have hall : ∀ y ∈ z :: files, y.key ≠ s.key := by
          intro y hy
          rcases List.mem_cons.mp hy with rfl | hy
          · exact (hne _ _ hs).symm
          · have hzy := hz y hy
            refine (hne s y ?_).symm
            unfold Stored.Before at hs hzy ⊢
            omega
        rw [List.mem_cons]
        exact or_congr_right ⟨fun hx => ⟨hx, hall x hx⟩, fun hx => hx.1⟩
      · split
        · rename_i hkey
          rw [List.mem_cons, List.mem_cons]
          refine or_congr_right ⟨fun hx => ⟨.inr hx, ?_⟩, ?_⟩
          · rw [hkey]
            exact (hne z x (hz x hx)).symm
          · rintro ⟨rfl | hx, hxs⟩
            · exact absurd hkey.symm hxs
            · exact hx
        · rename_i hkey
          have ih : x ∈ insertFile s files ↔ x = s ∨ (x ∈ files ∧ x.key ≠ s.key) := ih hfiles
          rw [List.mem_cons, List.mem_cons, ih]
          constructor
          · rintro (rfl | hx | ⟨hx, hxs⟩)
            · exact .inr ⟨.inl rfl, fun hxs => hkey hxs.symm⟩
            · exact .inl hx
            · exact .inr ⟨.inr hx, hxs⟩
          · rintro (hx | ⟨rfl | hx, hxs⟩)
            · exact .inr (.inl hx)
            · exact .inl rfl
            · exact .inr (.inr ⟨hx, hxs⟩)

/-- Files of one key in a sorted level are one file. -/
theorem eq_of_key_eq {x y : Stored} {files : List Stored} (h : files.Pairwise Stored.Before)
    (hx : x ∈ files) (hy : y ∈ files) (hkey : x.key = y.key) : x = y := by
  rw [Stored.key, Stored.key, Prod.mk.injEq] at hkey
  induction files with
  | nil => cases hx
  | cons z files ih =>
      obtain ⟨hz, hfiles⟩ := List.pairwise_cons.mp h
      rcases List.mem_cons.mp hx with rfl | hx'
      · rcases List.mem_cons.mp hy with rfl | hy'
        · rfl
        · have := hz y hy'
          unfold Stored.Before at this
          omega
      · rcases List.mem_cons.mp hy with rfl | hy'
        · have := hz x hx'
          unfold Stored.Before at this
          omega
        · exact ih hfiles hx' hy'

end Bucket

end Liters
