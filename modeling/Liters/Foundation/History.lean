import Mathlib.Data.List.Chain
import Mathlib.Order.Basic
import Mathlib.Algebra.Order.Group.Nat
import Liters.Foundation.PageImage

/-! # Histories of patches

A database changes by one patch per transaction, numbered from 1. A patch is `Exact` for the
transactions `a, ..., b` if it carries the newest version that these transactions gave to each page.
An exact patch brings every state from `a - 1` to `b` to the state `b`, so overlapping exact patches
may be applied one after the other; and merging a chain of them gives an exact patch again
(`exact_mergeAll`). -/

namespace Liters

variable {α : Type*}

/-- A history: the patch of each transaction, from transaction 1 on. -/
structure History (α : Type*) where
  patch : Nat → Patch α
  /-- What a page that was never written reads as. -/
  zero : α

namespace History

/-- The database after transaction `t`, from the empty database on. -/
def state (h : History α) : Nat → Image α
  | 0 => ⟨0, fun _ => h.zero⟩
  | t + 1 => (h.state t).apply h.zero (h.patch (t + 1))

/-- Every transaction up to `n` carries the pages it adds. -/
def Growing (h : History α) (skip n : Nat) : Prop :=
  ∀ t < n, (h.patch (t + 1)).Covers skip (h.state t).size

/-- The newest version of page `p` among the transactions `a, ..., b`. -/
def newestIn (h : History α) (a : Nat) : Nat → Nat → Option α
  | 0, _ => none
  | b + 1, p => if b + 1 < a then none else ((h.patch (b + 1)).page? p).or (h.newestIn a b p)

/-- `e` carries what the transactions `a, ..., b` did. -/
structure Exact (h : History α) (skip a b : Nat) (e : Patch α) : Prop where
  pos : 1 ≤ a
  le : a ≤ b
  commit : e.commit = (h.patch b).commit
  page : ∀ p, 0 < p → p ≤ e.commit → p ≠ skip → e.page? p = h.newestIn a b p

variable {h : History α} {skip n : Nat}

/-- The size after a transaction is the one it committed. -/
theorem state_size {t : Nat} (ht : 1 ≤ t) : (h.state t).size = (h.patch t).commit := by
  obtain ⟨t, rfl⟩ : ∃ s, t = s + 1 := ⟨t - 1, by omega⟩
  rfl

/-- A page after a transaction: what it wrote, or what was there, or zeros. -/
theorem state_page_succ (h : History α) (t p : Nat) :
    (h.state (t + 1)).page p = ((h.patch (t + 1)).page? p).getD
      (if p ≤ (h.state t).size then (h.state t).page p else h.zero) := rfl

/-- The patch of a single transaction. -/
theorem exact_patch {t : Nat} (ht : 1 ≤ t) : h.Exact skip t t (h.patch t) := by
  refine ⟨ht, le_rfl, rfl, fun p _ _ _ => ?_⟩
  obtain ⟨t, rfl⟩ : ∃ s, t = s + 1 := ⟨t - 1, by omega⟩
  have hbelow : h.newestIn (t + 1) t p = none := by
    cases t with
    | zero => rfl
    | succ t => rw [newestIn, if_pos (by omega)]
  rw [newestIn, if_neg (lt_irrefl _), hbelow, Option.or_none]

/-- A range of transactions splits at any point. -/
theorem newestIn_split {a b m p : Nat} (ham : a ≤ m + 1) (hmb : m ≤ b) :
    h.newestIn a b p = (h.newestIn (m + 1) b p).or (h.newestIn a m p) := by
  induction b with
  | zero =>
      obtain rfl : m = 0 := by omega
      rfl
  | succ b ih =>
      rcases Nat.eq_or_lt_of_le hmb with rfl | hlt
      · have hnone : h.newestIn (b + 1 + 1) (b + 1) p = none := by
          rw [newestIn, if_pos (by omega)]
        rw [hnone, Option.none_or]
      · rw [newestIn, newestIn, if_neg (by omega), if_neg (by omega), ih (by omega),
          Option.or_assoc]

/-- A range without a version of a page has none in any part of it. -/
theorem newestIn_eq_none_of_le {a a' b p : Nat} (ha : a ≤ a') (hab : a' ≤ b + 1)
    (hnone : h.newestIn a b p = none) : h.newestIn a' b p = none := by
  cases a' with
  | zero =>
      obtain rfl : a = 0 := by omega
      exact hnone
  | succ m =>
      rw [newestIn_split (m := m) (by omega) (by omega), Option.or_eq_none_iff] at hnone
      exact hnone.1

/-- **A page over a range of transactions.** At the end of the range it has the newest version
written in the range; without one it was there all along and did not change. -/
theorem state_page (hg : h.Growing skip n) {a b p : Nat} (hb : b ≤ n) (hab : a ≤ b + 1)
    (hp : p ≤ (h.state b).size) (hs : p ≠ skip) {t : Nat} (hat : a ≤ t + 1)
    (htb : t ≤ b) :
    (∀ v, h.newestIn a b p = some v → (h.state b).page p = v) ∧
      (h.newestIn a b p = none →
        p ≤ (h.state t).size ∧ (h.state t).page p = (h.state b).page p) := by
  induction b generalizing t with
  | zero =>
      obtain rfl : t = 0 := by omega
      exact ⟨fun v hv => (by cases hv), fun _ => ⟨hp, rfl⟩⟩
  | succ b ih =>
      rw [newestIn]
      by_cases hempty : b + 1 < a
      · obtain rfl : t = b + 1 := by omega
        rw [if_pos hempty]
        exact ⟨fun v hv => (by cases hv), fun _ => ⟨hp, rfl⟩⟩
      rw [if_neg hempty]
      cases hq : (h.patch (b + 1)).page? p with
      | some w =>
          have hpage : (h.state (b + 1)).page p = w := by
            rw [state_page_succ, hq, Option.getD_some]
          refine ⟨fun v hv => ?_, fun hnone => (by cases hnone)⟩
          rw [Option.some_or] at hv
          rw [hpage, Option.some.inj hv]
      | none =>
          -- the last transaction does not carry the page, so it was there before
          have hpb : p ≤ (h.state b).size := by
            by_contra hlt
            have := hg b (by omega) p (by omega) hp hs
            rw [hq] at this
            cases this
          have hpage : (h.state (b + 1)).page p = (h.state b).page p := by
            rw [state_page_succ, hq, Option.getD_none, if_pos hpb]
          rw [Option.none_or, hpage]
          refine ⟨(ih (by omega) (by omega) hpb (t := b) (by omega) le_rfl).1, fun hnone => ?_⟩
          rcases Nat.eq_or_lt_of_le htb with rfl | htb
          · exact ⟨hp, hpage⟩
          · exact (ih (by omega) (by omega) hpb hat (by omega)).2 hnone

/-- **Applying an exact patch** to any state of its range gives the state at its end. -/
theorem Exact.agreeOff (hg : h.Growing skip n) {a b t : Nat} {e : Patch α}
    (he : h.Exact skip a b e) (hb : b ≤ n) (hat : a ≤ t + 1) (htb : t ≤ b) :
    Image.AgreeOff skip ((h.state t).apply h.zero e) (h.state b) := by
  have hle := he.le
  have hpos := he.pos
  have hsize : (h.state b).size = e.commit := (state_size (by omega)).trans he.commit.symm
  refine ⟨hsize.symm, fun p h0 hp hs => ?_⟩
  have hp' : p ≤ e.commit := hp
  obtain ⟨hsome, hnone⟩ := state_page hg hb (by omega) (p := p) (by omega) hs hat htb
  simp only [Image.apply, he.page p h0 hp' hs]
  cases hn : h.newestIn a b p with
  | some v => rw [Option.getD_some, hsome v hn]
  | none =>
      obtain ⟨hpt, hpage⟩ := hnone hn
      rw [Option.getD_none, if_pos hpt, hpage]

/-- An exact patch carries every page that was not there at some point of its range. -/
theorem Exact.covers (hg : h.Growing skip n) {a b t : Nat} {e : Patch α}
    (he : h.Exact skip a b e) (hb : b ≤ n) (hat : a ≤ t + 1) (htb : t ≤ b) :
    e.Covers skip (h.state t).size := by
  intro p hlt hp hs
  have hle := he.le
  have hpos := he.pos
  have hsize : (h.state b).size = e.commit := (state_size (by omega)).trans he.commit.symm
  have hnone := (state_page hg hb (by omega) (p := p) (by omega) hs hat htb).2
  rw [he.page p (by omega) hp hs]
  cases hn : h.newestIn a b p with
  | some v => rfl
  | none =>
      have := (hnone hn).1
      omega

/-- **Merging exact patches** whose ranges meet or overlap. -/
theorem Exact.merge (hg : h.Growing skip n) {a₁ b₁ a₂ b₂ : Nat} {e₁ e₂ : Patch α}
    (h₁ : h.Exact skip a₁ b₁ e₁) (h₂ : h.Exact skip a₂ b₂ e₂) (hb : b₂ ≤ n) (ha : a₁ ≤ a₂)
    (hmeet : a₂ ≤ b₁ + 1) (hlt : b₁ < b₂) : h.Exact skip a₁ b₂ (e₁.merge e₂) := by
  have hle₁ := h₁.le
  have hpos := h₁.pos
  refine ⟨h₁.pos, by omega, h₂.commit, fun p h0 hp hs => ?_⟩
  have hp₂ : p ≤ e₂.commit := hp
  simp only [Patch.merge, if_pos hp₂, h₂.page p h0 hp₂ hs]
  cases hn : h.newestIn a₂ b₂ p with
  | some v =>
      -- a version in the newer range is the newest one of the whole range
      have hsplit := newestIn_split (h := h) (a := a₁) (b := b₂) (m := a₂ - 1) (p := p)
        (by omega) (by omega)
      rw [Nat.sub_add_cancel h₂.pos, hn, Option.some_or] at hsplit
      rw [Option.some_or, hsplit]
  | none =>
      -- without one the page has not changed since the end of the older range
      have hsplit := newestIn_split (h := h) (a := a₁) (b := b₂) (m := b₁) (p := p)
        (by omega) (by omega)
      rw [newestIn_eq_none_of_le hmeet (by omega) hn, Option.none_or] at hsplit
      have hp₁ : p ≤ e₁.commit := by
        by_contra hbeyond
        have hsize : (h.state b₁).size = e₁.commit :=
          (state_size (by omega)).trans h₁.commit.symm
        have := h₂.covers hg hb hmeet hlt.le p (by omega) hp₂ hs
        rw [h₂.page p h0 hp₂ hs, hn] at this
        cases this
      rw [Option.none_or, h₁.page p h0 hp₁ hs, hsplit]

/-- Exactness depends on the pages within the size only. -/
theorem Exact.congr {a b : Nat} {e e' : Patch α} (he : h.Exact skip a b e)
    (hc : e'.commit = e.commit)
    (hp : ∀ p, 0 < p → p ≤ e.commit → p ≠ skip → e'.page? p = e.page? p) :
    h.Exact skip a b e' :=
  ⟨he.pos, he.le, hc.trans he.commit, fun p h0 hle hs => by
    rw [hp p h0 (hc ▸ hle) hs, he.page p h0 (hc ▸ hle) hs]⟩

end History

/-- A patch with the range of transactions it stands for. -/
structure Ranged (α : Type*) where
  min : Nat
  max : Nat
  patch : Patch α

namespace History

variable {h : History α} {skip n : Nat}

/-- Every patch of the list is exact for its range. -/
def AllExact (h : History α) (skip n : Nat) (rs : List (Ranged α)) : Prop :=
  ∀ r ∈ rs, h.Exact skip r.min r.max r.patch ∧ r.max ≤ n

/-- `s` meets or overlaps, and extends, what ends with `r`. -/
def Ranged.Extends (r s : Ranged α) : Prop := s.min ≤ r.max + 1 ∧ r.max < s.max

/-- The patches of a list of ranges. -/
def patchesOf (rs : List (Ranged α)) : List (Patch α) := rs.map Ranged.patch

/-- Exact patches in a row carry the growth from any state of the first one's range. -/
theorem coversChain_patchesOf (hg : h.Growing skip n) {r : Ranged α} {rs : List (Ranged α)}
    (he : h.AllExact skip n (r :: rs)) (hc : (r :: rs).IsChain Ranged.Extends) {t : Nat}
    (hat : r.min ≤ t + 1) (htb : t ≤ r.max) :
    CoversChain skip (h.state t).size (patchesOf (r :: rs)) := by
  induction rs generalizing r t with
  | nil =>
      obtain ⟨hr, hb⟩ := he r (List.mem_cons_self ..)
      exact ⟨hr.covers hg hb hat htb, trivial⟩
  | cons s rs ih =>
      obtain ⟨hr, hb⟩ := he r (List.mem_cons_self ..)
      rw [List.isChain_cons_cons] at hc
      have hrest := ih (fun x hx => he x (List.mem_cons_of_mem _ hx)) hc.2 hc.1.1 hc.1.2.le
      rw [state_size (hr.pos.trans hr.le), ← hr.commit] at hrest
      exact ⟨hr.covers hg hb hat htb, hrest⟩

/-- The end of a list of ranges. -/
def lastMax (r : Ranged α) (rs : List (Ranged α)) : Nat :=
  ((r :: rs).getLast (List.cons_ne_nil _ _)).max

/-- **Merging a chain of exact patches**, none starting before the first, gives an exact patch. -/
theorem exact_mergeAll (hg : h.Growing skip n) {r : Ranged α} {rs : List (Ranged α)}
    (he : h.AllExact skip n (r :: rs)) (hc : (r :: rs).IsChain Ranged.Extends)
    (hmin : ∀ s ∈ rs, r.min ≤ s.min) :
    h.Exact skip r.min (lastMax r rs) (mergeAll (patchesOf (r :: rs))) := by
  -- from the left: what is merged so far is one exact range, and the next file joins onto it
  induction rs using List.reverseRecOn with
  | nil =>
      obtain ⟨hr, -⟩ := he r (List.mem_cons_self ..)
      refine hr.congr rfl fun p h0 hp _ => ?_
      simp [patchesOf, mergeAll, newest, lastCommit, hp]
  | append_singleton rs s ih =>
      have hsplit : r :: (rs ++ [s]) = (r :: rs) ++ [s] := rfl
      rw [hsplit, List.isChain_append] at hc
      have hprev := ih (fun x hx => he x (by simp at hx ⊢; tauto)) hc.1
        (fun x hx => hmin x (List.mem_append_left _ hx))
      obtain ⟨hs, hb⟩ := he s (by simp)
      have hjoin : Ranged.Extends ((r :: rs).getLast (List.cons_ne_nil _ _)) s :=
        hc.2.2 _ (List.getLast?_eq_some_getLast _) s rfl
      have hmerge := hprev.merge hg hs hb (hmin s (by simp)) hjoin.1 hjoin.2
      have hcommit : lastCommit 0 (patchesOf (r :: rs)) = (h.state (lastMax r rs)).size := by
        rw [state_size (hprev.pos.trans hprev.le), ← hprev.commit]
        rfl
      -- the merged file reaches as far as the next one extends
      have hcov : s.patch.Covers skip (lastCommit 0 (patchesOf (r :: rs))) := by
        rw [hcommit]
        exact hs.covers hg hb hjoin.1 hjoin.2.le
      obtain ⟨hsame, hpages⟩ := mergeAll_append_singleton hcov
      have hlast : lastMax r (rs ++ [s]) = s.max := by
        simp [lastMax]
      have hpatches : patchesOf (r :: (rs ++ [s])) = patchesOf (r :: rs) ++ [s.patch] := by
        simp [patchesOf]
      rw [hlast, hpatches]
      exact hmerge.congr hsame hpages

end History

end Liters
