import Liters.Foundation.SortedMap
import Mathlib.Data.List.DropRight

/-! # Logs with commit marks

A log is a list of entries, each with a key, a value and a commit mark (zero where the entry does
not commit). What the log says is decided by its committed part, the log cut behind its last commit:
the latest value of each key in it. A log may be cut at any commit and read in two parts. -/

namespace Liters

/-- An entry of a log: the size it commits is zero where it does not commit. -/
structure LogEntry where
  key : Nat
  value : Nat
  commit : Nat
deriving DecidableEq

namespace LogEntry

/-- The log cut behind its last commit. -/
def committed (log : List LogEntry) : List LogEntry := log.rdropWhile fun e => e.commit = 0

/-- The value of the last entry with a key. -/
def latest (log : List LogEntry) (k : Nat) : Option Nat :=
  (log.reverse.find? fun e => e.key = k).map LogEntry.value

/-! ## The latest value -/

/-- An empty log holds no value. -/
@[simp] theorem latest_nil (k : Nat) : latest [] k = none := rfl

/-- Later entries win. -/
theorem latest_append (a b : List LogEntry) (k : Nat) :
    latest (a ++ b) k = (latest b k).or (latest a k) := by
  rw [latest, List.reverse_append, List.find?_append, Option.map_or]
  rfl

/-- A new entry is the latest one of its key. -/
theorem latest_concat (log : List LogEntry) (e : LogEntry) (k : Nat) :
    latest (log ++ [e]) k = if k = e.key then some e.value else latest log k := by
  rw [latest_append]
  by_cases hk : k = e.key
  · rw [if_pos hk, hk]
    simp [latest]
  · rw [if_neg hk]
    have : ¬ e.key = k := fun h => hk h.symm
    simp [latest, this]

/-- A key that does not occur has no value. -/
theorem latest_eq_none_iff {log : List LogEntry} {k : Nat} :
    latest log k = none ↔ k ∉ log.map LogEntry.key := by
  rw [latest, Option.map_eq_none_iff, List.find?_eq_none, List.mem_map]
  constructor
  · rintro h ⟨e, he, rfl⟩
    exact h e (List.mem_reverse.mpr he) (by simp)
  · intro h e he hk
    exact h ⟨e, List.mem_reverse.mp he, by simpa using hk⟩

/-- A value is that of an entry with the key. -/
theorem exists_of_latest {log : List LogEntry} {k v : Nat} (h : latest log k = some v) :
    ∃ e ∈ log, e.key = k ∧ e.value = v := by
  obtain ⟨e, he, rfl⟩ := Option.map_eq_some_iff.mp h
  refine ⟨e, List.mem_reverse.mp (List.mem_of_find?_eq_some he), ?_, rfl⟩
  simpa using List.find?_some he

/-! ## The committed part -/

/-- An empty log has nothing committed. -/
@[simp] theorem committed_nil : committed [] = [] := rfl

/-- A commit entry commits everything up to itself. -/
theorem committed_concat_of_commit {log : List LogEntry} {e : LogEntry} (h : e.commit ≠ 0) :
    committed (log ++ [e]) = log ++ [e] :=
  List.rdropWhile_concat_neg _ _ _ (by simpa using h)

/-- Another entry commits nothing. -/
theorem committed_concat_of_not {log : List LogEntry} {e : LogEntry} (h : e.commit = 0) :
    committed (log ++ [e]) = committed log :=
  List.rdropWhile_concat_pos _ _ _ (by simpa using h)

/-- What is committed is the start of the log. -/
theorem committed_isPrefixOf (log : List LogEntry) : committed log <+: log :=
  List.rdropWhile_prefix _ log

/-- Nothing is committed exactly if no entry commits. -/
theorem committed_eq_nil_iff {log : List LogEntry} :
    committed log = [] ↔ ∀ e ∈ log, e.commit = 0 := by
  rw [committed, List.rdropWhile_eq_nil_iff]
  simp

/-- The committed part ends with a commit. -/
theorem commit_of_getLast? {log : List LogEntry} {last : LogEntry}
    (h : (committed log).getLast? = some last) : last.commit ≠ 0 := by
  induction log using List.reverseRecOn with
  | nil => cases h
  | append_singleton log e ih =>
      by_cases he : e.commit = 0
      · rw [committed_concat_of_not he] at h
        exact ih h
      · rw [committed_concat_of_commit he, List.getLast?_concat, Option.some_inj] at h
        exact h ▸ he

/-- Behind a log that ends with a commit, the committed part of what follows is appended. -/
theorem committed_append {a b : List LogEntry} (ha : committed a = a) :
    committed (a ++ b) = a ++ committed b := by
  induction b using List.reverseRecOn with
  | nil => rw [List.append_nil, ha, committed_nil, List.append_nil]
  | append_singleton b e ih =>
      rw [← List.append_assoc]
      by_cases he : e.commit = 0
      · rw [committed_concat_of_not he, committed_concat_of_not he, ih]
      · rw [committed_concat_of_commit he, committed_concat_of_commit he, List.append_assoc]

/-- Every commit is in the committed part. -/
theorem mem_committed {log : List LogEntry} {e : LogEntry} (h : e ∈ log) (he : e.commit ≠ 0) :
    e ∈ committed log := by
  induction log using List.reverseRecOn with
  | nil => cases h
  | append_singleton log x ih =>
      by_cases hx : x.commit = 0
      · rw [committed_concat_of_not hx]
        rcases List.mem_append.mp h with h | h
        · exact ih h
        · rw [List.mem_singleton.mp h] at he
          exact absurd hx he
      · rw [committed_concat_of_commit hx]
        exact h

/-- A log that has its last commit at its end is committed. -/
theorem committed_of_getLast? {log : List LogEntry} {last : LogEntry} (h : log.getLast? = some last)
    (hlast : last.commit ≠ 0) : committed log = log := by
  obtain ⟨log', rfl⟩ := List.getLast?_eq_some_iff.mp h
  exact committed_concat_of_commit hlast

/-! ## Growth -/

/-- From each commit to the next one, if the size grows, every key in between occurs but `skip`. -/
def Grows (skip : Nat) (log : List LogEntry) : Prop :=
  ∀ a x mid y b, log = a ++ x :: (mid ++ y :: b) → x.commit ≠ 0 → (∀ e ∈ mid, e.commit = 0) →
    y.commit ≠ 0 → ∀ k, x.commit < k → k ≤ y.commit → k ≠ skip → k ∈ (mid ++ [y]).map key

/-- The start of a log that grows a database grows it. -/
theorem Grows.of_append {skip : Nat} {a b : List LogEntry} (h : Grows skip (a ++ b)) :
    Grows skip a := by
  intro a' x mid y b' hlog
  refine h a' x mid y (b' ++ b) ?_
  rw [hlog]
  simp

/-- Over any number of commits, every key by which the size has grown occurs but `skip`. -/
theorem Grows.mem {skip : Nat} {log a b : List LogEntry} {x last : LogEntry} (h : Grows skip log)
    (hlog : log = a ++ x :: b) (hx : x.commit ≠ 0) (hlast : (committed b).getLast? = some last)
    {k : Nat} (hlow : x.commit < k) (hhigh : k ≤ last.commit) (hk : k ≠ skip) :
    k ∈ (committed b).map key := by
  -- along the commits of `b`: the first one at or above `k` carries it
  induction hn : b.length using Nat.strong_induction_on generalizing a x b with
  | _ n ih =>
      have hsplit := List.takeWhile_append_dropWhile
        (p := fun e : LogEntry => decide (e.commit = 0)) (l := b)
      generalize hmid : b.takeWhile (fun e => decide (e.commit = 0)) = mid at hsplit
      have hzero : ∀ e ∈ mid, e.commit = 0 := by
        intro e he
        rw [← hmid] at he
        simpa using List.mem_takeWhile_imp he
      cases hrest : b.dropWhile (fun e => decide (e.commit = 0)) with
      | nil =>
          rw [hrest, List.append_nil] at hsplit
          rw [← hsplit, committed_eq_nil_iff.mpr hzero] at hlast
          cases hlast
      | cons z rest =>
          have hz : z.commit ≠ 0 := by
            have := List.head?_dropWhile_not (fun e : LogEntry => decide (e.commit = 0)) b
            rw [hrest] at this
            simpa using this
          rw [hrest] at hsplit
          have hcom : committed b = mid ++ [z] ++ committed rest := by
            rw [← hsplit, ← List.singleton_append, ← List.append_assoc]
            exact committed_append (committed_concat_of_commit hz)
          rw [hcom, List.map_append, List.mem_append]
          by_cases hkz : k ≤ z.commit
          · refine .inl (h a x mid z rest ?_ hx hzero hz k hlow hkz hk)
            rw [hlog, hsplit]
          · refine .inr (ih rest.length ?_ (a := a ++ x :: mid) ?_ hz ?_ (by omega) rfl)
            · rw [← hn, ← hsplit]
              simp
              omega
            · rw [hlog, ← hsplit]
              simp
            · rw [hcom] at hlast
              cases hr : committed rest with
              | nil =>
                  rw [hr, List.append_nil, List.getLast?_concat, Option.some_inj] at hlast
                  rw [hlast] at hkz
                  exact absurd hhigh hkz
              | cons e es =>
                  have hsome := List.getLast?_eq_some_getLast (List.cons_ne_nil e es)
                  rw [hr, List.getLast?_append, hsome, Option.some_or] at hlast
                  rw [hsome, hlast]

end LogEntry

end Liters
