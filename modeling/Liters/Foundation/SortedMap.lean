import Mathlib.Data.List.Basic
import Mathlib.Data.List.Pairwise
import Mathlib.Order.Basic
import Mathlib.Algebra.Order.Group.Nat
import Mathlib.Tactic.Common

/-! # Finite maps with natural-number keys

A finite map is its list of entries in strictly ascending key order, the order in which an ordered
map is iterated. The order is a field of the structure, so two maps with the same lookups are equal
(`SortedMap.ext_find?`) and a map written out by one party and read back by another can be compared
entry by entry. -/

namespace Liters

/-- A finite map from natural numbers, as its entries in strictly ascending key order. -/
structure SortedMap (β : Type*) where
  /-- The entries, ascending. -/
  entries : List (Nat × β)
  /-- Keys ascend strictly, so each occurs once. -/
  sorted : entries.Pairwise (fun a b => a.1 < b.1)
  deriving DecidableEq

namespace SortedMap

variable {β : Type*}

/-- The map without entries. -/
def empty : SortedMap β := ⟨[], List.Pairwise.nil⟩

instance : Inhabited (SortedMap β) := ⟨empty⟩

/-- The value stored under `k`. -/
def find? (m : SortedMap β) (k : Nat) : Option β := m.entries.lookup k

/-- Nothing is stored in the empty map. -/
@[simp] theorem find?_empty (k : Nat) : (empty : SortedMap β).find? k = none := rfl

/-- The keys, ascending. -/
def keys (m : SortedMap β) : List Nat := m.entries.map Prod.fst

/-- Insert into an ascending entry list, replacing the value of an equal key. -/
def insertEntry (k : Nat) (v : β) : List (Nat × β) → List (Nat × β)
  | [] => [(k, v)]
  | (k', v') :: m =>
      if k < k' then (k, v) :: (k', v') :: m
      else if k = k' then (k, v) :: m
      else (k', v') :: insertEntry k v m

/-- What is in a list after an insertion was inserted or there before. -/
theorem mem_insertEntry {k : Nat} {v : β} {e : Nat × β} {l : List (Nat × β)}
    (h : e ∈ insertEntry k v l) : e = (k, v) ∨ e ∈ l := by
  induction l with
  | nil => simpa [insertEntry] using h
  | cons a l ih =>
      obtain ⟨k', v'⟩ := a
      rw [insertEntry] at h
      split at h
      · simpa using h
      · split at h
        · rcases List.mem_cons.mp h with h | h
          · exact Or.inl h
          · exact Or.inr (List.mem_cons_of_mem _ h)
        · rcases List.mem_cons.mp h with h | h
          · exact Or.inr (h ▸ List.mem_cons_self ..)
          · rcases ih h with h | h
            · exact Or.inl h
            · exact Or.inr (List.mem_cons_of_mem _ h)

/-- An insertion keeps the order. -/
theorem insertEntry_sorted (k : Nat) (v : β) {l : List (Nat × β)}
    (h : l.Pairwise (fun a b => a.1 < b.1)) :
    (insertEntry k v l).Pairwise (fun a b => a.1 < b.1) := by
  induction l with
  | nil => simp [insertEntry]
  | cons a l ih =>
      obtain ⟨k', v'⟩ := a
      rw [List.pairwise_cons] at h
      rw [insertEntry]
      split
      · rename_i hlt
        refine List.pairwise_cons.mpr ⟨fun b hb => ?_, List.pairwise_cons.mpr h⟩
        rcases List.mem_cons.mp hb with rfl | hb
        · exact hlt
        · exact hlt.trans (h.1 b hb)
      · split
        · rename_i heq
          subst heq
          exact List.pairwise_cons.mpr ⟨h.1, h.2⟩
        · rename_i hlt hne
          refine List.pairwise_cons.mpr ⟨fun b hb => ?_, ih h.2⟩
          rcases mem_insertEntry hb with rfl | hb
          · simp only; omega
          · exact h.1 b hb

/-- Store `v` under `k`, replacing an earlier value. -/
def insert (m : SortedMap β) (k : Nat) (v : β) : SortedMap β :=
  ⟨insertEntry k v m.entries, insertEntry_sorted k v m.sorted⟩

/-- Keep the entries whose key satisfies `p`. -/
def filterKeys (m : SortedMap β) (p : Nat → Bool) : SortedMap β :=
  ⟨m.entries.filter (fun e => p e.1), m.sorted.filter _⟩

/-- Store every entry of `n` into `m`. -/
def insertAll (m n : SortedMap β) : SortedMap β := n.entries.foldl (fun m e => m.insert e.1 e.2) m

/-- Apply `f` to every value. -/
def mapVal {γ : Type*} (f : β → γ) (m : SortedMap β) : SortedMap γ :=
  ⟨m.entries.map (fun e => (e.1, f e.2)), List.pairwise_map.mpr m.sorted⟩

/-- In an ascending entry list, being an entry and being found are the same. -/
theorem mem_entries_iff {m : SortedMap β} {k : Nat} {v : β} :
    (k, v) ∈ m.entries ↔ m.find? k = some v := by
  obtain ⟨l, hl⟩ := m
  show (k, v) ∈ l ↔ l.lookup k = some v
  induction l with
  | nil => simp
  | cons a l ih =>
      obtain ⟨k', v'⟩ := a
      rw [List.pairwise_cons] at hl
      rw [List.lookup_cons]
      by_cases hk : k = k'
      · subst hk
        simp only [List.mem_cons, Prod.mk.injEq, true_and, beq_self_eq_true]
        constructor
        · rintro (h | h)
          · rw [h]
          · exact absurd (hl.1 _ h) (lt_irrefl _)
        · intro h
          exact Or.inl (Option.some.inj h).symm
      · have hb : (k == k') = false := by simpa using hk
        simp only [List.mem_cons, Prod.mk.injEq, hk, false_and, false_or, hb]
        exact ih hl.2

/-- A key without a value has no entry. -/
theorem find?_eq_none_iff {m : SortedMap β} {k : Nat} :
    m.find? k = none ↔ ∀ v, (k, v) ∉ m.entries := by
  constructor
  · intro h v hv
    rw [mem_entries_iff.mp hv] at h
    cases h
  · intro h
    cases hf : m.find? k with
    | none => rfl
    | some v => exact absurd (mem_entries_iff.mpr hf) (h v)

/-- The keys are those that have a value. -/
theorem mem_keys_iff {m : SortedMap β} {k : Nat} : k ∈ m.keys ↔ (m.find? k).isSome := by
  rw [keys, List.mem_map]
  constructor
  · rintro ⟨⟨k', v⟩, he, rfl⟩
    rw [mem_entries_iff.mp he]
    rfl
  · intro h
    obtain ⟨v, hv⟩ := Option.isSome_iff_exists.mp h
    exact ⟨(k, v), mem_entries_iff.mpr hv, rfl⟩

/-- The keys ascend. -/
theorem keys_sorted (m : SortedMap β) : m.keys.Pairwise (· < ·) :=
  List.pairwise_map.mpr m.sorted

/-- An insertion sets the value of its key only. -/
@[simp] theorem find?_insert (m : SortedMap β) (k : Nat) (v : β) (k' : Nat) :
    (m.insert k v).find? k' = if k' = k then some v else m.find? k' := by
  obtain ⟨l, hl⟩ := m
  show (insertEntry k v l).lookup k' = if k' = k then some v else l.lookup k'
  induction l with
  -- the new entry is the only one
  | nil =>
      by_cases h : k' = k
      · simp [insertEntry, h]
      · have hb : (k' == k) = false := by simpa using h
        simp [insertEntry, List.lookup_cons, h, hb]
  | cons a l ih =>
      obtain ⟨ka, va⟩ := a
      rw [List.pairwise_cons] at hl
      have hcons : ∀ (x : Nat) (w : β) (t : List (Nat × β)),
          ((x, w) :: t).lookup k' = if k' = x then some w else t.lookup k' := by
        intro x w t
        rw [List.lookup_cons]
        by_cases h : k' = x
        · simp [h]
        · have hb : (k' == x) = false := by simpa using h
          simp [h, hb]
      rw [insertEntry]
      -- in front of the first entry, in its place, or behind it
      split
      · rw [hcons]
      · split
        · -- its key is replaced
          rename_i heq
          subst heq
          rw [hcons, hcons]
          by_cases h : k' = k <;> simp [h]
        · -- it goes further back
          rename_i hlt hne
          rw [hcons, hcons, ih hl.2]
          by_cases h : k' = ka
          · subst h
            simp [Ne.symm hne]
          · simp [h]

/-- A filter keeps the values of the keys it accepts. -/
@[simp] theorem find?_filterKeys (m : SortedMap β) (p : Nat → Bool) (k : Nat) :
    (m.filterKeys p).find? k = if p k then m.find? k else none := by
  by_cases hp : p k
  · rw [if_pos hp]
    cases hf : m.find? k with
    | none =>
        rw [find?_eq_none_iff] at hf ⊢
        exact fun v hv => hf v (List.mem_of_mem_filter hv)
    | some v =>
        rw [← mem_entries_iff] at hf ⊢
        exact List.mem_filter.mpr ⟨hf, hp⟩
  · rw [if_neg hp, find?_eq_none_iff]
    intro v hv
    exact hp (List.mem_filter.mp hv).2

/-- A map is determined by its lookups. -/
theorem ext_find? {m n : SortedMap β} (h : ∀ k, m.find? k = n.find? k) : m = n := by
  have hperm : ∀ e : Nat × β, e ∈ m.entries ↔ e ∈ n.entries := by
    rintro ⟨k, v⟩
    rw [mem_entries_iff, mem_entries_iff, h]
  obtain ⟨l, hl⟩ := m
  obtain ⟨l', hl'⟩ := n
  have hnd : ∀ {t : List (Nat × β)}, t.Pairwise (fun a b => a.1 < b.1) → t.Nodup :=
    fun ht => ht.imp (fun hab he => absurd hab (by rw [he]; exact lt_irrefl _))
  have := (List.perm_ext_iff_of_nodup (hnd hl) (hnd hl')).mpr hperm
  have heq : l = l' := this.eq_of_pairwise
    (fun a b _ _ hab hba => absurd (hab.trans hba) (lt_irrefl _)) hl hl'
  subst heq
  rfl

/-- Inserted entries come before those that were there. -/
theorem find?_insertAll (m n : SortedMap β) (k : Nat) :
    (m.insertAll n).find? k = (n.find? k).or (m.find? k) := by
  obtain ⟨l, hl⟩ := n
  show (l.foldl (fun m e => m.insert e.1 e.2) m).find? k = (l.lookup k).or (m.find? k)
  induction l generalizing m with
  | nil => rfl
  | cons a l ih =>
      obtain ⟨ka, va⟩ := a
      rw [List.pairwise_cons] at hl
      rw [List.foldl_cons, ih _ hl.2, find?_insert, List.lookup_cons]
      by_cases h : k = ka
      · subst h
        have hnone : l.lookup k = none := by
          have : (⟨l, hl.2⟩ : SortedMap β).find? k = none :=
            find?_eq_none_iff.mpr fun v hv => lt_irrefl k (hl.1 (k, v) hv)
          exact this
        simp [hnone]
      · have hb : (k == ka) = false := by simpa using h
        simp [h, hb]

/-- Storing under a key above all present ones appends the entry. -/
theorem entries_insert_of_lt {m : SortedMap β} {k : Nat} (v : β)
    (h : ∀ e ∈ m.entries, e.1 < k) : (m.insert k v).entries = m.entries ++ [(k, v)] := by
  obtain ⟨l, hl⟩ := m
  show insertEntry k v l = l ++ [(k, v)]
  replace h : ∀ e ∈ l, e.1 < k := h
  clear hl
  induction l with
  | nil => rfl
  | cons a l ih =>
      obtain ⟨ka, va⟩ := a
      have hka : ka < k := h _ (List.mem_cons_self ..)
      rw [insertEntry, if_neg (by omega), if_neg (by omega),
        ih (fun e he => h e (List.mem_cons_of_mem _ he)), List.cons_append]

/-! ## The highest key -/

/-- The highest key, 0 if there is none. -/
def maxKey (m : SortedMap β) : Nat := (m.keys.getLast?).getD 0

/-- The empty map has no key above 0. -/
@[simp] theorem maxKey_empty : (empty : SortedMap β).maxKey = 0 := rfl

/-- No key exceeds the highest one. -/
theorem le_maxKey {m : SortedMap β} {k : Nat} (h : (m.find? k).isSome) : k ≤ m.maxKey := by
  have hmem := mem_keys_iff.mpr h
  have hsorted := m.keys_sorted
  unfold maxKey
  rcases List.eq_nil_or_concat' m.keys with hnil | ⟨init, last, heq⟩
  · rw [hnil] at hmem
    cases hmem
  · rw [heq] at hmem hsorted ⊢
    rw [List.getLast?_concat, Option.getD_some]
    rcases List.mem_append.mp hmem with hk | hk
    · exact ((List.pairwise_append.mp hsorted).2.2 k hk last (List.mem_singleton_self _)).le
    · exact (List.mem_singleton.mp hk).le

/-- A map with a key has its highest key. -/
theorem find?_maxKey {m : SortedMap β} {k : Nat} (h : (m.find? k).isSome) :
    (m.find? m.maxKey).isSome := by
  have hmem := mem_keys_iff.mpr h
  refine mem_keys_iff.mp ?_
  unfold maxKey
  rcases List.eq_nil_or_concat' m.keys with hnil | ⟨init, last, heq⟩
  · rw [hnil] at hmem
    cases hmem
  · rw [heq, List.getLast?_concat, Option.getD_some]
    exact List.mem_append_right _ (List.mem_singleton_self _)

/-- A key that no other exceeds is the highest. -/
theorem maxKey_eq {m : SortedMap β} {k : Nat} (h : (m.find? k).isSome)
    (hle : ∀ k', (m.find? k').isSome → k' ≤ k) : m.maxKey = k :=
  Nat.le_antisymm (hle _ (find?_maxKey h)) (le_maxKey h)

/-- Without its highest key a map is empty. -/
theorem find?_eq_none_of_maxKey {m : SortedMap β} (h : m.find? m.maxKey = none) (k : Nat) :
    m.find? k = none := by
  cases hk : m.find? k with
  | none => rfl
  | some v =>
      have := find?_maxKey (m := m) (k := k) (by rw [hk]; rfl)
      rw [h] at this
      cases this

/-- Only an empty map has no value at its highest key. -/
theorem maxKey_eq_zero {m : SortedMap β} (h : m.find? m.maxKey = none) : m.maxKey = 0 := by
  have hkeys : m.keys = [] := by
    refine List.eq_nil_iff_forall_not_mem.mpr fun k hk => ?_
    have := mem_keys_iff.mp hk
    rw [find?_eq_none_of_maxKey h] at this
    cases this
  rw [maxKey, hkeys]
  rfl

/-- Inserting raises the highest key. -/
theorem maxKey_insert (m : SortedMap β) (k : Nat) (v : β) :
    (m.insert k v).maxKey = max m.maxKey k := by
  have hk : ((m.insert k v).find? k).isSome := by simp
  rcases Nat.le_total m.maxKey k with hle | hle
  · -- the new key becomes the largest
    rw [Nat.max_eq_right hle]
    refine maxKey_eq hk fun k' hk' => ?_
    rw [find?_insert] at hk'
    split at hk'
    · omega
    · exact (le_maxKey hk').trans hle
  · -- the largest key stays, unless the map was empty
    rw [Nat.max_eq_left hle]
    cases hmax : m.find? m.maxKey with
    | none =>
        have hzero := maxKey_eq_zero hmax
        refine maxKey_eq (by rw [find?_insert, if_pos (by omega)]; rfl) fun k' hk' => ?_
        rw [find?_insert] at hk'
        split at hk'
        · omega
        · rw [find?_eq_none_of_maxKey hmax] at hk'
          cases hk'
    | some x =>
        refine maxKey_eq ?_ fun k' hk' => ?_
        · rw [find?_insert]
          split
          · rfl
          · rw [hmax]
            rfl
        · rw [find?_insert] at hk'
          split at hk'
          · omega
          · exact le_maxKey hk'

/-- A filter that keeps the highest key keeps it the highest. -/
theorem maxKey_filterKeys {m : SortedMap β} {p : Nat → Bool} (h : p m.maxKey) :
    (m.filterKeys p).maxKey = m.maxKey := by
  cases hmax : m.find? m.maxKey with
  | none =>
      have hnone : (m.filterKeys p).find? (m.filterKeys p).maxKey = none := by
        rw [find?_filterKeys]
        split
        · exact find?_eq_none_of_maxKey hmax _
        · rfl
      rw [maxKey_eq_zero hmax, maxKey_eq_zero hnone]
  | some x =>
      refine maxKey_eq ?_ fun k' hk' => ?_
      · rw [find?_filterKeys, if_pos h, hmax]
        rfl
      · rw [find?_filterKeys] at hk'
        split at hk'
        · exact le_maxKey hk'
        · cases hk'

end SortedMap

end Liters
