import Liters.Ltx.Compactor

/-! # The merge of page queues

What the compactor does once the bytes are out of the way: every input is a queue of pages in
ascending order; the lowest page number at the head of a queue is written from the newest queue that
has it and removed from all of them. `mem_mergeQueues` says which pages that writes: the newest
version of every page within the commit. -/

namespace Liters

/-- The pages an input still has to deliver, lowest first. -/
abbrev Queue := List Page

/-- A queue is strictly ascending and holds no page 0. -/
def QueueOk (q : Queue) : Prop := (∀ p ∈ q, 0 < p.1) ∧ q.Pairwise (fun a b => a.1 < b.1)

/-- The newest version of page `p` in a list of queues, the last queue being the newest. -/
def newestPage (qs : List Queue) (p : Nat) : Option Bytes :=
  qs.foldl (fun acc q => (q.lookup p).or acc) none

/-- The lowest of `m` (0 for none) and the page numbers at the heads of the queues. -/
def minHead : Nat → List Queue → Nat
  | m, [] => m
  | m, q :: qs => minHead (Compactor.lowerPgno m (q.head?.map fun p => { pgno := p.1 })) qs

/-- Remove page `pgno` from the head of a queue. -/
def popHead (pgno : Nat) : Queue → Queue
  | [] => []
  | p :: q => if p.1 = pgno then q else p :: q

/-- The content of page `pgno` if it is at the head of the queue. -/
def headPage (pgno : Nat) : Queue → Option Bytes
  | [] => none
  | p :: _ => if p.1 = pgno then some p.2 else none

/-- Page `pgno` at the head of the newest queue that has it there. -/
def newestHead (pgno : Nat) : List Queue → Option Bytes
  | [] => none
  | q :: qs => (newestHead pgno qs).or (headPage pgno q)

/-- One round: the page it writes, unless it lies behind the commit. -/
def roundPages (commit pgno : Nat) (qs : List Queue) : List Page :=
  if pgno ≤ commit then ((newestHead pgno qs).map fun d => (pgno, d)).toList else []

/-- The pages the merge writes in at most `fuel` rounds. -/
def mergeQueues (commit : Nat) : Nat → List Queue → List Page
  | 0, _ => []
  | fuel + 1, qs =>
      let m := minHead 0 qs
      if m = 0 then []
      else roundPages commit m qs ++ mergeQueues commit fuel (qs.map (popHead m))

/-! ## Lookups in a queue -/

/-- The rest of a queue in order is in order. -/
theorem QueueOk.tail {p : Page} {q : Queue} (h : QueueOk (p :: q)) : QueueOk q :=
  ⟨fun a ha => h.1 a (List.mem_cons_of_mem _ ha), (List.pairwise_cons.mp h.2).2⟩

/-- In an ascending queue, being in it and being found are the same. -/
theorem QueueOk.mem_iff {q : Queue} (h : QueueOk q) {p : Nat} {d : Bytes} :
    (p, d) ∈ q ↔ q.lookup p = some d :=
  SortedMap.mem_entries_iff (m := ⟨q, h.2⟩)

/-- A lookup asks the head first. -/
theorem lookup_cons_eq (p : Page) (q : Queue) (k : Nat) :
    (p :: q).lookup k = if k = p.1 then some p.2 else q.lookup k := by
  rw [List.lookup_cons]
  by_cases h : k = p.1
  · simp [h]
  · have hb : (k == p.1) = false := by simpa using h
    simp [h, hb]

/-- Nothing is found below the head of an ascending queue. -/
theorem QueueOk.lookup_eq_none_of_lt {q : Queue} (h : QueueOk q) {k : Nat}
    (hk : ∀ p, q.head? = some p → k < p.1) : q.lookup k = none := by
  cases hf : q.lookup k with
  | none => rfl
  | some d =>
      have hmem := h.mem_iff.mpr hf
      cases q with
      | nil => cases hmem
      | cons a q =>
          have ha := hk a rfl
          rcases List.mem_cons.mp hmem with rfl | hmem
          · exact absurd ha (lt_irrefl _)
          · exact absurd ((List.pairwise_cons.mp h.2).1 _ hmem) (by simp only; omega)

/-- Behind its head, an ascending queue finds only higher pages. -/
theorem QueueOk.lookup_tail_of_le {p : Page} {q : Queue} (h : QueueOk (p :: q)) {k : Nat}
    (hk : k ≤ p.1) : q.lookup k = none := by
  refine h.tail.lookup_eq_none_of_lt fun a ha => ?_
  exact lt_of_le_of_lt hk ((List.pairwise_cons.mp h.2).1 a (List.mem_of_mem_head? ha))

/-- Removing the lowest page from the head of a queue removes it from the lookups. -/
theorem QueueOk.lookup_popHead {q : Queue} (h : QueueOk q) {m : Nat}
    (hm : ∀ p, q.head? = some p → m ≤ p.1) (k : Nat) :
    (popHead m q).lookup k = if k ≤ m then none else q.lookup k := by
  cases q with
  | nil => simp [popHead]
  | cons p q =>
      have hmp := hm p rfl
      rw [popHead]
      by_cases hpm : p.1 = m
      · rw [if_pos hpm]
        by_cases hk : k ≤ m
        · rw [if_pos hk, h.lookup_tail_of_le (by omega)]
        · rw [if_neg hk, lookup_cons_eq, if_neg (by omega)]
      · rw [if_neg hpm]
        by_cases hk : k ≤ m
        · rw [if_pos hk]
          refine h.lookup_eq_none_of_lt fun a ha => ?_
          obtain rfl : p = a := by simpa using ha
          omega
        · rw [if_neg hk]

/-- A queue in order stays so when its head is taken. -/
theorem QueueOk.popHead {q : Queue} (h : QueueOk q) (m : Nat) : QueueOk (popHead m q) := by
  cases q with
  | nil => exact h
  | cons p q =>
      rw [Liters.popHead]
      split
      · exact h.tail
      · exact h

/-! ## The lowest head -/

/-- What `minHead` finds: a lower bound of all heads (and of `m`, if there is one) that is attained;
0 exactly if there is nothing to bound. -/
theorem minHead_spec (qs : List Queue) (hqs : ∀ q ∈ qs, QueueOk q) (m : Nat) :
    (∀ q ∈ qs, ∀ p, q.head? = some p → 0 < minHead m qs ∧ minHead m qs ≤ p.1) ∧
      (0 < m → 0 < minHead m qs ∧ minHead m qs ≤ m) ∧
      (minHead m qs = m ∨ ∃ q ∈ qs, ∃ p, q.head? = some p ∧ p.1 = minHead m qs) := by
  induction qs generalizing m with
  -- over the queues from the left; what is carried is the smallest head so far, 0 for none
  | nil => simp [minHead]
  | cons q qs ih =>
      rw [minHead]
      have hrest : ∀ q ∈ qs, QueueOk q := fun a ha => hqs a (List.mem_cons_of_mem _ ha)
      cases q with
      -- an empty queue has no head to compare
      | nil =>
          obtain ⟨h1, h2, h3⟩ := ih hrest m
          refine ⟨fun a ha p hp => ?_, h2, ?_⟩
          · rcases List.mem_cons.mp ha with rfl | ha
            · cases hp
            · exact h1 a ha p hp
          · rcases h3 with h3 | ⟨a, ha, h3⟩
            · exact Or.inl h3
            · exact Or.inr ⟨a, List.mem_cons_of_mem _ ha, h3⟩
      -- the head replaces what is carried only where it is smaller
      | cons p q =>
          have hpos : 0 < p.1 := (hqs _ (List.mem_cons_self ..)).1 p (List.mem_cons_self ..)
          simp only [List.head?_cons, Option.map_some, Compactor.lowerPgno]
          set m' := if m = 0 ∨ p.1 < m then p.1 else m with hm'
          have hm'pos : 0 < m' := by rw [hm']; split <;> omega
          have hm'p : m' ≤ p.1 := by rw [hm']; split <;> omega
          obtain ⟨h1, h2, h3⟩ := ih hrest m'
          obtain ⟨h2a, h2b⟩ := h2 hm'pos
          refine ⟨fun a ha b hb => ?_, fun hm => ?_, ?_⟩
          · rcases List.mem_cons.mp ha with rfl | ha
            · obtain rfl : p = b := by simpa using hb
              exact ⟨h2a, h2b.trans hm'p⟩
            · exact h1 a ha b hb
          · refine ⟨h2a, h2b.trans ?_⟩
            rw [hm']
            split <;> omega
          · rcases h3 with h3 | ⟨a, ha, h3⟩
            · rw [h3, hm']
              split
              · exact Or.inr ⟨p :: q, List.mem_cons_self .., p, rfl, rfl⟩
              · exact Or.inl rfl
            · exact Or.inr ⟨a, List.mem_cons_of_mem _ ha, h3⟩

/-- At a lowest page number, the newest queue that finds it has it at its head. -/
theorem newestHead_eq_newestPage {qs : List Queue} (hqs : ∀ q ∈ qs, QueueOk q) {m : Nat}
    (hm : ∀ q ∈ qs, ∀ p, q.head? = some p → m ≤ p.1) : newestHead m qs = newestPage qs m := by
  have hgen : ∀ acc, (newestHead m qs).or acc
      = qs.foldl (fun acc q => (q.lookup m).or acc) acc := by
    induction qs with
    | nil => intro acc; rfl
    | cons q qs ih =>
        intro acc
        have hq : headPage m q = q.lookup m := by
          cases q with
          | nil => rfl
          | cons p q =>
              have hle := hm _ (List.mem_cons_self ..) p rfl
              rw [lookup_cons_eq, headPage]
              by_cases hp : p.1 = m
              · rw [if_pos hp, if_pos hp.symm]
              · rw [if_neg hp, if_neg (Ne.symm hp),
                  (hqs _ (List.mem_cons_self ..)).lookup_tail_of_le hle]
        rw [newestHead, Option.or_assoc, List.foldl_cons, hq,
          ih (fun a ha => hqs a (List.mem_cons_of_mem _ ha))
            (fun a ha => hm a (List.mem_cons_of_mem _ ha))]
  have := hgen none
  rwa [Option.or_none] at this

/-- After a round at the lowest page number, only the higher pages are found. -/
theorem newestPage_map_popHead {qs : List Queue} (hqs : ∀ q ∈ qs, QueueOk q) {m : Nat}
    (hm : ∀ q ∈ qs, ∀ p, q.head? = some p → m ≤ p.1) (k : Nat) :
    newestPage (qs.map (popHead m)) k = if k ≤ m then none else newestPage qs k := by
  have hgen : ∀ acc : Option Bytes, (k ≤ m → acc = none) →
      (qs.map (popHead m)).foldl (fun acc q => (q.lookup k).or acc) acc
        = if k ≤ m then none else qs.foldl (fun acc q => (q.lookup k).or acc) acc := by
    induction qs with
    | nil =>
        intro acc hacc
        by_cases hk : k ≤ m
        · simp [hk, hacc hk]
        · simp [hk]
    | cons q qs ih =>
        intro acc hacc
        have hq := (hqs q (List.mem_cons_self ..)).lookup_popHead (hm q (List.mem_cons_self ..)) k
        rw [List.map_cons, List.foldl_cons, List.foldl_cons, hq,
          ih (fun a ha => hqs a (List.mem_cons_of_mem _ ha))
            (fun a ha => hm a (List.mem_cons_of_mem _ ha))]
        · by_cases hk : k ≤ m
          · simp [hk]
          · simp [hk]
        · intro hk
          simp [hk, hacc hk]
  exact hgen none fun _ => rfl

/-! ## What the merge writes -/

/-- The number of pages waiting in all queues. -/
def pending (qs : List Queue) : Nat := (qs.map List.length).sum

/-- Taking the head makes no queue longer. -/
theorem popHead_length_le (m : Nat) (q : Queue) : (popHead m q).length ≤ q.length := by
  cases q with
  | nil => exact le_rfl
  | cons p q =>
      rw [popHead]
      split <;> simp

/-- A round at a page some queue has at its head takes at least that page. -/
theorem pending_map_popHead_lt {qs : List Queue} {m : Nat} {q : Queue} {p : Page} (hq : q ∈ qs)
    (hp : q.head? = some p) (hm : p.1 = m) : pending (qs.map (popHead m)) < pending qs := by
  induction qs with
  | nil => cases hq
  | cons a qs ih =>
      have hrest : pending (qs.map (popHead m)) ≤ pending qs := by
        clear ih hq
        induction qs with
        | nil => exact le_rfl
        | cons b qs ih =>
            have := popHead_length_le m b
            simp only [pending, List.map_cons, List.sum_cons] at ih ⊢
            omega
      simp only [pending, List.map_cons, List.sum_cons] at ih hrest ⊢
      rcases List.mem_cons.mp hq with rfl | hq
      · have hlt : (popHead m q).length < q.length := by
          cases q with
          | nil => cases hp
          | cons b q =>
              obtain rfl : b = p := by simpa using hp
              simp [popHead, hm]
        omega
      · have := ih hq
        have := popHead_length_le m a
        omega

/-- A newest version comes from one of the queues. -/
theorem newestPage_mem {qs : List Queue} {p : Nat} {d : Bytes} (h : newestPage qs p = some d) :
    ∃ q ∈ qs, q.lookup p = some d := by
  induction qs using List.reverseRecOn with
  | nil => cases h
  | append_singleton qs q ih =>
      have hlast : newestPage (qs ++ [q]) p = (q.lookup p).or (newestPage qs p) := by
        simp [newestPage]
      rw [hlast, Option.or_eq_some_iff] at h
      rcases h with h | ⟨-, h⟩
      · exact ⟨q, by simp, h⟩
      · obtain ⟨a, ha, hd⟩ := ih h
        exact ⟨a, List.mem_append_left _ ha, hd⟩

/-- The pages of a round, by membership. -/
theorem mem_roundPages {commit m : Nat} {qs : List Queue} (hqs : ∀ q ∈ qs, QueueOk q)
    (hm : ∀ q ∈ qs, ∀ p, q.head? = some p → m ≤ p.1) {p : Nat} {d : Bytes} :
    (p, d) ∈ roundPages commit m qs ↔ p = m ∧ p ≤ commit ∧ newestPage qs p = some d := by
  rw [roundPages, newestHead_eq_newestPage hqs hm]
  by_cases hc : m ≤ commit
  · rw [if_pos hc]
    cases hn : newestPage qs m with
    | none =>
        simp only [Option.map_none, Option.toList_none, List.not_mem_nil, false_iff]
        rintro ⟨rfl, -, h⟩
        rw [hn] at h
        cases h
    | some d' =>
        simp only [Option.map_some, Option.toList_some, List.mem_singleton, Prod.mk.injEq]
        constructor
        · rintro ⟨rfl, rfl⟩
          exact ⟨rfl, hc, hn⟩
        · rintro ⟨rfl, -, h⟩
          rw [hn] at h
          exact ⟨rfl, (Option.some.inj h).symm⟩
  · rw [if_neg hc]
    simp only [List.not_mem_nil, false_iff]
    rintro ⟨rfl, h, -⟩
    exact hc h

/-- **What the merge writes**: with as many rounds as there are pages, the newest version of every
page within the commit, in ascending order. -/
theorem mergeQueues_spec (commit fuel : Nat) (qs : List Queue) (hqs : ∀ q ∈ qs, QueueOk q)
    (hfuel : pending qs < fuel) :
    (mergeQueues commit fuel qs).Pairwise (fun a b => a.1 < b.1) ∧
      ∀ p d, (p, d) ∈ mergeQueues commit fuel qs ↔ p ≤ commit ∧ newestPage qs p = some d := by
  induction fuel generalizing qs with
  | zero => exact absurd hfuel (Nat.not_lt_zero _)
  | succ fuel ih =>
      obtain ⟨hle, -, hatt⟩ := minHead_spec qs hqs 0
      rw [mergeQueues]
      by_cases h0 : minHead 0 qs = 0
      · -- nothing at the head of any queue: nothing is left at all
        simp only [h0, if_true, List.Pairwise.nil, List.not_mem_nil, true_and]
        intro p d
        refine iff_of_false id ?_
        rintro ⟨-, h⟩
        obtain ⟨q, hq, hd⟩ := newestPage_mem h
        cases q with
        | nil => cases hd
        | cons a q =>
            have := (hle _ hq a rfl).1
            omega
      · have hm : ∀ q ∈ qs, ∀ p, q.head? = some p → minHead 0 qs ≤ p.1 :=
          fun q hq p hp => (hle q hq p hp).2
        obtain ⟨q, hq, p, hp, hpm⟩ := hatt.resolve_left h0
        have hless := pending_map_popHead_lt hq hp hpm
        set m := minHead 0 qs with hmdef
        obtain ⟨hasc, hmem⟩ := ih (qs.map (popHead m))
          (by
            intro a ha
            obtain ⟨b, hb, rfl⟩ := List.mem_map.mp ha
            exact (hqs b hb).popHead m)
          (by omega)
        have hrest : ∀ a d, (a, d) ∈ mergeQueues commit fuel (qs.map (popHead m)) ↔
            m < a ∧ a ≤ commit ∧ newestPage qs a = some d := by
          intro a d
          rw [hmem, newestPage_map_popHead hqs hm]
          by_cases ha : a ≤ m
          · simp [ha, Nat.not_lt.mpr ha]
          · simp [ha, Nat.lt_of_not_le ha]
        simp only [h0, if_false]
        constructor
        · refine List.pairwise_append.mpr ⟨?_, hasc, ?_⟩
          · rw [roundPages]
            split
            · cases newestHead m qs <;> simp
            · simp
          · rintro ⟨a, da⟩ ha ⟨b, db⟩ hb
            rw [mem_roundPages hqs hm] at ha
            have := ((hrest b db).mp hb).1
            simp only
            omega
        · intro a d
          rw [List.mem_append, mem_roundPages hqs hm, hrest]
          constructor
          · rintro (⟨rfl, h⟩ | ⟨-, h⟩)
            · exact h
            · exact h
          · rintro ⟨hc, h⟩
            -- a page that is found is not below the lowest head
            have hge : m ≤ a := by
              obtain ⟨b, hb, hd⟩ := newestPage_mem h
              by_contra hlt
              have := (hqs b hb).lookup_eq_none_of_lt (k := a)
                fun x hx => lt_of_lt_of_le (by omega) (hm b hb x hx)
              rw [this] at hd
              cases hd
            rcases Nat.eq_or_lt_of_le hge with heq | hlt
            · exact Or.inl ⟨heq.symm, hc, h⟩
            · exact Or.inr ⟨hlt, hc, h⟩

end Liters
