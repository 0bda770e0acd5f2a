import Mathlib.Data.List.Basic
import Mathlib.Data.List.Induction
import Mathlib.Tactic.Common

/-! # Paged images and patches

A paged image is a numbered sequence of pages of an arbitrary type; a patch carries some pages and a
new size. Applying a patch writes its pages and then cuts or extends the image with zero pages to
that size. A list of patches merges to one patch that holds the newest version of every page within
the last size.

The merged patch replaces the list (`Image.apply_mergeAll`) as soon as every patch that grows the
image carries all the pages it adds. One page may be left out of everything: the page `skip`, which
no patch ever carries; images are compared with `Image.AgreeOff skip`. -/

namespace Liters

variable {α : Type*}

/-! ## Images -/

/-- A paged image: pages `1, ..., size`. The values of `page` outside that range mean nothing. -/
structure Image (α : Type*) where
  size : Nat
  page : Nat → α

/-- Equal size and equal pages, the page `skip` aside. -/
def Image.AgreeOff (skip : Nat) (a b : Image α) : Prop :=
  a.size = b.size ∧ ∀ p, 0 < p → p ≤ a.size → p ≠ skip → a.page p = b.page p

namespace Image.AgreeOff

variable {skip : Nat} {a b d : Image α}

/-- An image agrees with itself. -/
@[refl] theorem refl (skip : Nat) (a : Image α) : AgreeOff skip a a := ⟨rfl, fun _ _ _ _ => rfl⟩

/-- Agreement goes both ways. -/
@[symm] theorem symm (h : AgreeOff skip a b) : AgreeOff skip b a :=
  ⟨h.1.symm, fun p h0 hp hs => (h.2 p h0 (h.1 ▸ hp) hs).symm⟩

/-- Agreement can be chained. -/
@[trans] theorem trans (h : AgreeOff skip a b) (h' : AgreeOff skip b d) : AgreeOff skip a d :=
  ⟨h.1.trans h'.1, fun p h0 hp hs => (h.2 p h0 hp hs).trans (h'.2 p h0 (h.1 ▸ hp) hs)⟩

end Image.AgreeOff

/-! ## Patches -/

/-- Some pages and the size of the image once they are written. -/
structure Patch (α : Type*) where
  commit : Nat
  page? : Nat → Option α

/-- Every page behind `size` up to the patch's own size is in the patch, except `skip`. -/
def Patch.Covers (skip size : Nat) (d : Patch α) : Prop :=
  ∀ p, size < p → p ≤ d.commit → p ≠ skip → (d.page? p).isSome

/-- A patch that covers an empty image holds every page. -/
abbrev Patch.Complete (skip : Nat) (d : Patch α) : Prop := d.Covers skip 0

/-- Each patch of the list covers the growth from the size before it. -/
def CoversChain (skip : Nat) : Nat → List (Patch α) → Prop
  | _, [] => True
  | size, d :: ds => d.Covers skip size ∧ CoversChain skip d.commit ds

/-- The size the last patch leaves, `size` if there is none. -/
def lastCommit (size : Nat) (ds : List (Patch α)) : Nat := ds.foldl (fun _ d => d.commit) size

/-- Without patches the size stays. -/
@[simp] theorem lastCommit_nil (size : Nat) : lastCommit size ([] : List (Patch α)) = size := rfl

/-- The last patch says the size. -/
@[simp] theorem lastCommit_append_singleton (size : Nat) (ds : List (Patch α)) (d : Patch α) :
    lastCommit size (ds ++ [d]) = d.commit := by
  simp [lastCommit]

/-- With at least one patch, the size before does not matter. -/
theorem lastCommit_cons (m n : Nat) (d : Patch α) (ds : List (Patch α)) :
    lastCommit m (d :: ds) = lastCommit n (d :: ds) := rfl

/-- A chain of patches covers what it grows by if both its parts do. -/
theorem coversChain_append {skip size : Nat} {ds es : List (Patch α)} :
    CoversChain skip size (ds ++ es) ↔
      CoversChain skip size ds ∧ CoversChain skip (lastCommit size ds) es := by
  induction ds generalizing size with
  | nil => simp [CoversChain]
  | cons d ds ih =>
      rw [List.cons_append, CoversChain, CoversChain, ih, and_assoc]
      rfl

/-! ## Applying -/

namespace Image

/-- Write the pages of a patch, then cut or extend to its size. -/
def apply (zero : α) (a : Image α) (d : Patch α) : Image α where
  size := d.commit
  page p := (d.page? p).getD (if p ≤ a.size then a.page p else zero)

/-- Apply patches one after the other. -/
def applyAll (zero : α) (a : Image α) (ds : List (Patch α)) : Image α := ds.foldl (apply zero) a

variable {zero : α} {skip : Nat}

/-- Applying a patch gives the size it commits. -/
@[simp] theorem apply_size (a : Image α) (d : Patch α) : (a.apply zero d).size = d.commit := rfl

/-- Without patches an image stays as it is. -/
@[simp] theorem applyAll_nil (a : Image α) : a.applyAll zero [] = a := rfl

/-- The first patch is applied first. -/
@[simp] theorem applyAll_cons (a : Image α) (d : Patch α) (ds : List (Patch α)) :
    a.applyAll zero (d :: ds) = (a.apply zero d).applyAll zero ds := rfl

/-- Patches may be applied in two groups. -/
theorem applyAll_append (a : Image α) (ds es : List (Patch α)) :
    a.applyAll zero (ds ++ es) = (a.applyAll zero ds).applyAll zero es := by
  simp [applyAll]

/-- The size after all patches is that of the last one. -/
theorem applyAll_size (a : Image α) (ds : List (Patch α)) :
    (a.applyAll zero ds).size = lastCommit a.size ds := by
  induction ds generalizing a with
  | nil => rfl
  | cons d ds ih =>
      rw [applyAll_cons, ih]
      rfl

/-- Applying a patch respects agreement. -/
theorem AgreeOff.apply {a b : Image α} (h : AgreeOff skip a b) (d : Patch α) :
    AgreeOff skip (a.apply zero d) (b.apply zero d) := by
  refine ⟨rfl, fun p h0 hp hs => ?_⟩
  simp only [Image.apply]
  cases d.page? p with
  | some v => rfl
  | none =>
      simp only [Option.getD_none, ← h.1]
      split
      · rename_i hle
        exact h.2 p h0 hle hs
      · rfl

/-- Images that agree still do after the same patches. -/
theorem AgreeOff.applyAll {a b : Image α} (h : AgreeOff skip a b) (ds : List (Patch α)) :
    AgreeOff skip (a.applyAll zero ds) (b.applyAll zero ds) := by
  induction ds generalizing a b with
  | nil => exact h
  | cons d ds ih => exact ih (h.apply d)

/-- Patches that agree on their size and on their pages within it, `skip` aside, do the same. -/
theorem apply_congr (a : Image α) {d e : Patch α} (hc : d.commit = e.commit)
    (h : ∀ p, 0 < p → p ≤ d.commit → p ≠ skip → d.page? p = e.page? p) :
    AgreeOff skip (a.apply zero d) (a.apply zero e) := by
  refine ⟨hc, fun p h0 hp hs => ?_⟩
  simp only [Image.apply, h p h0 hp hs]

end Image

/-! ## Merging -/

/-- The newest version of page `p` in a list of patches, the last patch being the newest. -/
def newest (ds : List (Patch α)) (p : Nat) : Option α :=
  ds.foldl (fun acc d => (d.page? p).or acc) none

/-- The last patch that holds a page has its newest version. -/
theorem newest_append_singleton (ds : List (Patch α)) (d : Patch α) (p : Nat) :
    newest (ds ++ [d]) p = (d.page? p).or (newest ds p) := by
  simp [newest]

/-- The newest version of every page within the last size. -/
def mergeAll (ds : List (Patch α)) : Patch α where
  commit := lastCommit 0 ds
  page? p := if p ≤ lastCommit 0 ds then newest ds p else none

/-- Merging two patches, the second one newer. -/
def Patch.merge (d e : Patch α) : Patch α where
  commit := e.commit
  page? p := if p ≤ e.commit then (e.page? p).or (d.page? p) else none

/-- Applying two patches is applying their merge, if the newer one carries what it adds. -/
theorem Image.apply_merge {zero : α} {skip : Nat} (a : Image α) {d e : Patch α}
    (he : e.Covers skip d.commit) :
    AgreeOff skip (a.apply zero (d.merge e)) ((a.apply zero d).apply zero e) := by
  refine ⟨rfl, fun p h0 hp hs => ?_⟩
  have hpe : p ≤ e.commit := hp
  simp only [Image.apply, Patch.merge, if_pos hpe]
  cases hpage : e.page? p with
  | some v => simp
  | none =>
      -- a page the newer patch does not carry was there before it
      have hpd : p ≤ d.commit := by
        by_contra hlt
        have := he p (by omega) hpe hs
        simp [hpage] at this
      simp [hpd]

/-- With growth carried, merging a list is merging all but the last and then the last. -/
theorem mergeAll_append_singleton {skip : Nat} {ds : List (Patch α)} {d : Patch α}
    (hd : d.Covers skip (lastCommit 0 ds)) :
    (mergeAll (ds ++ [d])).commit = ((mergeAll ds).merge d).commit ∧
      ∀ p, 0 < p → p ≤ d.commit → p ≠ skip →
        (mergeAll (ds ++ [d])).page? p = ((mergeAll ds).merge d).page? p := by
  refine ⟨by simp [mergeAll, Patch.merge], fun p h0 hp hs => ?_⟩
  simp only [mergeAll, Patch.merge, lastCommit_append_singleton, if_pos hp,
    newest_append_singleton]
  by_cases hle : p ≤ lastCommit 0 ds
  · rw [if_pos hle]
  · obtain ⟨v, hv⟩ := Option.isSome_iff_exists.mp (hd p (by omega) hp hs)
    rw [hv, Option.some_or, Option.some_or]

/-- **Merging replaces the list.** Applying the merge of a list of patches that carry what they add
gives the image that applying them one after the other gives. -/
theorem Image.apply_mergeAll {zero : α} {skip : Nat} (a : Image α) {ds : List (Patch α)}
    (hne : ds ≠ []) (h : CoversChain skip a.size ds) :
    AgreeOff skip (a.apply zero (mergeAll ds)) (a.applyAll zero ds) := by
  induction ds using List.reverseRecOn with
  | nil => exact absurd rfl hne
  | append_singleton ds d ih =>
      cases ds with
      | nil =>
          refine apply_congr a rfl fun p h0 hp hs => ?_
          have hp' : p ≤ d.commit := hp
          simp [mergeAll, newest, lastCommit, hp']
      | cons d₀ ds =>
          obtain ⟨hds, hd⟩ := coversChain_append.mp h
          have hcov : d.Covers skip (lastCommit 0 (d₀ :: ds)) := hd.1
          obtain ⟨hc, hpages⟩ := mergeAll_append_singleton hcov
          have hprev := ih (List.cons_ne_nil d₀ ds) hds
          rw [applyAll_append]
          exact (apply_congr a hc fun p h0 hp hs => hpages p h0 (hc ▸ hp) hs).trans
            ((Image.apply_merge a hcov).trans (hprev.apply d))

/-- The merge of a list carries what the list adds. -/
theorem covers_mergeAll {skip size : Nat} {ds : List (Patch α)} (h : CoversChain skip size ds) :
    (mergeAll ds).Covers skip size := by
  induction ds using List.reverseRecOn with
  | nil => exact fun p hp hle => absurd hle (by simp [mergeAll]; omega)
  | append_singleton ds d ih =>
      obtain ⟨hds, hd⟩ := coversChain_append.mp h
      have hcov : d.Covers skip (lastCommit size ds) := hd.1
      intro p hp hle hs
      have hle' : p ≤ d.commit := by simpa [mergeAll] using hle
      simp only [mergeAll, lastCommit_append_singleton, if_pos hle', newest_append_singleton,
        Option.isSome_or, Bool.or_eq_true]
      by_cases hlast : p ≤ lastCommit size ds
      · cases ds with
        | nil => exact absurd hp (by simpa using hlast)
        | cons d₀ ds =>
            have hp' : p ≤ lastCommit 0 (d₀ :: ds) := hlast
            have := ih hds p hp hp' hs
            simp only [mergeAll, if_pos hp'] at this
            exact Or.inr this
      · exact Or.inl (hcov p (by omega) hle' hs)

end Liters
