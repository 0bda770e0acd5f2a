import Liters.Foundation.History

/-! # Patches over an image in place

A medium shows pages: `reads p v` says that its page `p` shows the version `v`. Patches are written
onto it page by page, in place, and a write may stop after any of its pages.

`Intact h skip c hi reads` is what such a medium still guarantees when its label says `c` and no
write has reached beyond transaction `hi`: each page that no transaction behind `c` touched shows
its version at `c`. That is enough for a later patch to repair everything else: an exact patch
written in full brings the label to its end (`Intact.written`), one that stops early does not hurt
(`Intact.torn`). -/

namespace Liters

variable {α : Type*}

namespace History

/-- The pages that no transaction of `c + 1, ..., hi` touched show their versions at `c`. -/
def Intact (h : History α) (skip c hi : Nat) (reads : Nat → α → Prop) : Prop :=
  ∀ p, 0 < p → p ≤ (h.state hi).size → p ≠ skip → h.newestIn (c + 1) hi p = none →
    reads p ((h.state c).page p)

/-- Every page up to the size of the patch shows what the patch carries, or else what it showed. -/
structure Written (skip : Nat) (e : Patch α) (reads reads' : Nat → α → Prop) : Prop where
  carried : ∀ p v, 0 < p → p ≤ e.commit → p ≠ skip → e.page? p = some v → reads' p v
  kept : ∀ p v, 0 < p → p ≤ e.commit → p ≠ skip → e.page? p = none → reads p v → reads' p v

/-- Every page up to the size of the patch shows what the patch carries, or what it showed. -/
def Torn (skip : Nat) (e : Patch α) (reads reads' : Nat → α → Prop) : Prop :=
  ∀ p, 0 < p → p ≤ e.commit → p ≠ skip →
    (∃ v, e.page? p = some v ∧ reads' p v) ∨ ∀ v, reads p v → reads' p v

variable {h : History α} {skip n : Nat} {reads reads' : Nat → α → Prop}

/-- An empty range of transactions wrote nothing. -/
@[simp] theorem newestIn_succ_self (h : History α) (t p : Nat) : h.newestIn (t + 1) t p = none := by
  cases t with
  | zero => rfl
  | succ t => rw [newestIn, if_pos (by omega)]

/-- Without newer transactions, every page of the state shows. -/
theorem Intact.page {c : Nat} (hi : h.Intact skip c c reads) {p : Nat} (h0 : 0 < p)
    (hp : p ≤ (h.state c).size) (hs : p ≠ skip) : reads p ((h.state c).page p) :=
  hi p h0 hp hs (newestIn_succ_self h c p)

/-- A page that a range does not touch is there at every point of the range, with one version. -/
theorem untouched (hg : h.Growing skip n) {c t hi p : Nat} (hn : hi ≤ n) (hct : c ≤ t)
    (hth : t ≤ hi) (hp : p ≤ (h.state hi).size) (hs : p ≠ skip)
    (hnone : h.newestIn (c + 1) hi p = none) :
    p ≤ (h.state t).size ∧ (h.state t).page p = (h.state c).page p ∧
      h.newestIn (c + 1) t p = none := by
  obtain ⟨hpt, ht⟩ := (state_page hg hn (by omega) hp hs (t := t) (by omega) hth).2 hnone
  obtain ⟨-, hc⟩ := (state_page hg hn (by omega) hp hs (t := c) (by omega) (by omega)).2 hnone
  refine ⟨hpt, ht.trans hc.symm, ?_⟩
  rw [newestIn_split (m := t) (by omega) hth, Option.or_eq_none_iff] at hnone
  exact hnone.2

/-- A label may be taken back. -/
theorem Intact.lower (hg : h.Growing skip n) {lo c hi : Nat} (hi' : h.Intact skip c hi reads)
    (hn : hi ≤ n) (hlo : lo ≤ c) (hch : c ≤ hi) : h.Intact skip lo hi reads := by
  intro p h0 hp hs hnone
  obtain ⟨-, hpage, -⟩ := untouched hg hn hlo hch hp hs hnone
  rw [← hpage]
  exact hi' p h0 hp hs (newestIn_eq_none_of_le (by omega) (by omega) hnone)

/-- What an intact medium shows of a page that a longer range does not touch. -/
theorem Intact.extend (hg : h.Growing skip n) {c hi m : Nat} (hi' : h.Intact skip c hi reads)
    (hn : m ≤ n) (hch : c ≤ hi) (hm : hi ≤ m) : h.Intact skip c m reads := by
  intro p h0 hp hs hnone
  obtain ⟨hph, -, hnone'⟩ := untouched hg hn hch hm hp hs hnone
  exact hi' p h0 hph hs hnone'

/-- **A patch that is written in part** leaves the label where it was. -/
theorem Intact.torn (hg : h.Growing skip n) {a b c hi : Nat} {e : Patch α}
    (hi' : h.Intact skip c hi reads) (he : h.Exact skip a b e) (hhi : hi ≤ n) (hb : b ≤ n)
    (hch : c ≤ hi) (hcb : c ≤ b) (ht : Torn skip e reads reads') :
    h.Intact skip c (max hi b) reads' := by
  have hwide : h.Intact skip c (max hi b) reads := hi'.extend hg (by omega) hch (le_max_left ..)
  intro p h0 hp hs hnone
  obtain ⟨hpb, hpage, hnoneb⟩ := untouched hg (by omega) hcb (le_max_right ..) hp hs hnone
  have hpos := he.pos
  have hle := he.le
  have hcommit : e.commit = (h.state b).size := he.commit.trans (state_size (by omega)).symm
  rcases ht p h0 (by omega) hs with ⟨v, hv, hr⟩ | hkeep
  · -- the version written is the one at the end of the patch, where the page is as it was at `c`
    rw [he.page p h0 (by omega) hs] at hv
    have hstate := (state_page hg hb (by omega) hpb hs (a := a) (t := b) (by omega) le_rfl).1 v hv
    rw [← hpage, hstate]
    exact hr
  · exact hkeep _ (hwide p h0 hp hs hnone)

/-- **A patch that is written in full** brings the label to its end. -/
theorem Intact.written (hg : h.Growing skip n) {a b c hi : Nat} {e : Patch α}
    (hi' : h.Intact skip c hi reads) (he : h.Exact skip a b e) (hhi : hi ≤ n) (hb : b ≤ n)
    (hch : c ≤ hi) (hac : a ≤ c + 1) (hcb : c ≤ b) (hw : Written skip e reads reads') :
    h.Intact skip b (max hi b) reads' := by
  have hwide : h.Intact skip c (max hi b) reads := hi'.extend hg (by omega) hch (le_max_left ..)
  intro p h0 hp hs hnone
  obtain ⟨hpb, -, -⟩ := untouched hg (by omega) le_rfl (le_max_right ..) hp hs hnone
  have hpos := he.pos
  have hle := he.le
  have hcommit : e.commit = (h.state b).size := he.commit.trans (state_size (by omega)).symm
  have hpage := he.page p h0 (by omega) hs
  cases hv : e.page? p with
  | some v =>
      rw [hv] at hpage
      have hstate := (state_page hg hb (by omega) hpb hs (a := a) (t := b) (by omega) le_rfl).1 v
        hpage.symm
      rw [hstate]
      exact hw.carried p v h0 (by omega) hs hv
  | none =>
      -- neither the patch nor anything behind it touches the page, so it shows its version at `c`
      rw [hv] at hpage
      have hafter : h.newestIn (c + 1) b p = none :=
        newestIn_eq_none_of_le hac (by omega) hpage.symm
      have hall : h.newestIn (c + 1) (max hi b) p = none := by
        rw [newestIn_split (m := b) (by omega) (le_max_right ..), hnone, hafter]
        rfl
      obtain ⟨-, hsame, -⟩ := untouched hg (by omega) hcb (le_max_right ..) hp hs hall
      rw [hsame]
      exact hw.kept p _ h0 (by omega) hs hv (hwide p h0 hp hs hall)

/-- A patch from the first transaction on, written in full, gives the state at its end whatever the
medium showed before. -/
theorem intact_of_complete (hg : h.Growing skip n) {b : Nat} {e : Patch α} (he : h.Exact skip 1 b e)
    (hb : b ≤ n) (hw : Written skip e reads reads') : h.Intact skip b b reads' := by
  intro p h0 hp hs _
  have hle := he.le
  have hcommit : e.commit = (h.state b).size := he.commit.trans (state_size (by omega)).symm
  have hcovers := he.covers hg hb (t := 0) le_rfl (Nat.zero_le b) p h0 (by omega) hs
  obtain ⟨v, hv⟩ := Option.isSome_iff_exists.mp hcovers
  have hpage := he.page p h0 (by omega) hs
  rw [hv] at hpage
  have hstate := (state_page hg hb (by omega) hp hs (a := 1) (t := b) (by omega) le_rfl).1 v
    hpage.symm
  rw [hstate]
  exact hw.carried p v h0 (by omega) hs hv

end History

end Liters
