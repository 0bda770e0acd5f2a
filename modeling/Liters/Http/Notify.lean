import Mathlib.Algebra.Order.Group.Nat
import Mathlib.Data.List.Basic
import Liters.Foundation.Steps

/-! # Waking a parked stream

`Notify` (`mount.rs`) and the rounds of a `/stream` around it: whoever changes the bucket commits
the change and then calls `notify`, which counts a generation up under a mutex and wakes all
waiters; a stream reads the generation, lists the bucket, and if there is nothing to send waits for
a generation other than the one it read. The mutex makes each of `notify`'s count, the read of the
generation and the check in `wait` one step, in which a waiter parks if it does; waking the waiters
is a step of its own. What a listing shows is left open, so a round may go on in any way. -/

namespace Liters

namespace Notify

/-- Where a thread is that changes the bucket: its change, by number, is committed, or counted but
the waiters are not woken yet. A thread that only wakes the waiters (`Mount::wake`) has no
change. -/
inductive Mutator where
  | idle
  | committed (change : Option Nat)
  | counted (change : Option Nat)
deriving DecidableEq

/-- Where the stream is in a round, with the generation it read and how many changes were committed
when its listing began. -/
inductive Round where
  | top
  | read (seen : UInt64)
  | listing (seen : UInt64) (before : Nat)
  | caughtUp (seen : UInt64) (before : Nat)
  /-- In `wait`, blocked. -/
  | parked (seen : UInt64) (before : Nat)
  /-- In `wait`, woken, in front of the next check. -/
  | woken (seen : UInt64) (before : Nat)
  | ended
deriving DecidableEq

/-- How a round goes on behind its listing. -/
inductive Shown where
  /-- Something was sent, or a ping. -/
  | progress
  /-- A gap, a reset or an error. -/
  | closing
  | nothing
deriving DecidableEq

/-- The shared state and the threads. -/
structure State where
  generation : UInt64 := 0
  cancelled : Bool := false
  /-- Changes committed to the bucket so far. -/
  commits : Nat := 0
  mutator : Nat → Mutator := fun _ => .idle
  stream : Round := .top
  /-- The counts so far, with the change each is for. -/
  counts : List (Option Nat) := []
  /-- Changes whose `notify` has returned. -/
  notified : List Nat := []
  /-- How many counts there were when the stream read the generation. -/
  seenAt : Nat := 0

/-- What the threads do. -/
inductive Act where
  | commit (i : Nat)
  | wake (i : Nat)
  | count (i : Nat)
  | notifyAll (i : Nat)
  | cancel
  | readGeneration
  | list
  | shown (o : Shown)
  | check
  | timeout
  | spurious
deriving DecidableEq

/-- A mutator moves. -/
def State.moved (s : State) (i : Nat) (m : Mutator) : Nat → Mutator := Function.update s.mutator i m

/-- One step. -/
def step (s : State) : Act → Option State
  | .commit i =>
      if s.mutator i = .idle then
        some { s with commits := s.commits + 1, mutator := s.moved i (.committed (some s.commits)) }
      else none
  | .wake i =>
      if s.mutator i = .idle then some { s with mutator := s.moved i (.committed none) } else none
  | .count i =>
      match s.mutator i with
      | .committed change => some { s with
          generation := s.generation + 1, counts := s.counts ++ [change], mutator :=
            s.moved i (.counted change) }
      | _ => none
  | .notifyAll i =>
      match s.mutator i with
      | .counted change => some { s with
          notified := s.notified ++ change.toList
          mutator := s.moved i .idle
          stream := match s.stream with
            | .parked seen before => .woken seen before
            | round => round }
      | _ => none
  | .cancel => some { s with cancelled := true }
  | .readGeneration =>
      if s.stream = .top then
        if s.cancelled then some { s with stream := .ended }
        else some { s with stream := .read s.generation, seenAt := s.counts.length }
      else none
  | .list =>
      match s.stream with
      | .read seen => some { s with stream := .listing seen s.commits }
      | _ => none
  | .shown o =>
      match s.stream with
      | .listing seen before => some { s with
          stream := match o with
            | .progress => .top
            | .closing => .ended
            | .nothing => .caughtUp seen before }
      | _ => none
  | .check =>
      match s.stream with
      | .caughtUp seen before | .woken seen before => some { s with
          stream := if s.generation = seen ∧ ¬ s.cancelled then .parked seen before else .top }
      | _ => none
  | .timeout =>
      match s.stream with
      | .parked _ _ | .woken _ _ => some { s with stream := .top }
      | _ => none
  | .spurious =>
      match s.stream with
      | .parked seen before => some { s with stream := .woken seen before }
      | _ => none

/-- The states of all interleavings. -/
def Reached (s : State) : Prop := Reaches step anyStep {} s

/-! ## What every interleaving keeps -/

/-- The counts that the stream has seen are for changes that were committed before. -/
def State.Seen (s : State) (before : Nat) : Prop :=
  ∀ k, some k ∈ s.counts.take s.seenAt → k < before

/-- What holds in a round: the generation that was read is the number of counts then, and the
listing began after the changes these are for. A stream that is parked has seen the counts of all
changes whose `notify` has returned. -/
def Round.Ok (s : State) : Round → Prop
  | .top => True
  | .read seen => seen = UInt64.ofNat s.seenAt
  | .listing seen before => seen = UInt64.ofNat s.seenAt ∧ s.Seen before
  | .caughtUp seen before => seen = UInt64.ofNat s.seenAt ∧ s.Seen before
  | .woken seen before => seen = UInt64.ofNat s.seenAt ∧ s.Seen before
  | .parked seen before => (seen = UInt64.ofNat s.seenAt ∧ s.Seen before) ∧
      ∀ k ∈ s.notified, some k ∈ s.counts.take s.seenAt
  | .ended => True

/-- The invariant: counts are for changes that were committed before, a `notify` that has returned
has counted, and the round of the stream is as it should be. -/
structure Inv (s : State) : Prop where
  generation : s.generation = UInt64.ofNat s.counts.length
  counts : ∀ k, some k ∈ s.counts → k < s.commits
  committed : ∀ i k, s.mutator i = .committed (some k) → k < s.commits
  counted : ∀ i k, s.mutator i = .counted (some k) → some k ∈ s.counts
  notified : ∀ k ∈ s.notified, some k ∈ s.counts
  seenAt : s.seenAt ≤ s.counts.length
  round : s.stream.Ok s

/-- The invariant holds before the first request. -/
theorem inv_start : Inv {} where
  generation := rfl
  counts _ h := absurd h (List.not_mem_nil)
  committed _ _ h := by cases h
  counted _ _ h := by cases h
  notified _ h := absurd h (List.not_mem_nil)
  seenAt := Nat.le_refl 0
  round := trivial

/-- A round depends on the counts seen and on the changes notified only. -/
theorem Round.Ok.congr {s s' : State} {round : Round} (h : round.Ok s)
    (hseen : s'.seenAt = s.seenAt) (hcounts : s'.counts.take s.seenAt = s.counts.take s.seenAt)
    (hnotified : s'.notified = s.notified) :
    round.Ok s' := by
  have hSeen : ∀ before, s.Seen before → s'.Seen before := by
    intro before hbefore k hk
    rw [hseen, hcounts] at hk
    exact hbefore k hk
  cases round with
  | top => exact trivial
  | ended => exact trivial
  | read seen =>
      show seen = UInt64.ofNat s'.seenAt
      rw [hseen]
      exact h
  | listing seen before => exact ⟨by rw [hseen]; exact h.1, hSeen before h.2⟩
  | caughtUp seen before => exact ⟨by rw [hseen]; exact h.1, hSeen before h.2⟩
  | woken seen before => exact ⟨by rw [hseen]; exact h.1, hSeen before h.2⟩
  | parked seen before =>
      refine ⟨⟨by rw [hseen]; exact h.1.1, hSeen before h.1.2⟩, fun k hk => ?_⟩
      rw [hnotified] at hk
      rw [hseen, hcounts]
      exact h.2 k hk

section
variable {s s' : State}

/-- What a mutator is after a move is its new place or an old one. -/
theorem mutator_moved {i j : Nat} {m m' : Mutator} (h : s.moved i m j = m') :
    m' = m ∨ s.mutator j = m' := by
  unfold State.moved at h
  by_cases hij : j = i
  · rw [hij, Function.update_self] at h
    exact .inl h.symm
  · rw [Function.update_of_ne hij] at h
    exact .inr h

/-- A stream that reads the current number of counts in its generation has seen them all. -/
theorem eq_of_generation (hinv : Inv s) (hlt : s.counts.length < 2 ^ 64) {seen : UInt64}
    (hseen : seen = UInt64.ofNat s.seenAt) (hgen : s.generation = seen) :
    s.seenAt = s.counts.length := by
  have heq := congrArg UInt64.toNat (hinv.generation.symm.trans (hgen.trans hseen))
  have hle := hinv.seenAt
  rw [UInt64.toNat_ofNat_of_lt' hlt, UInt64.toNat_ofNat_of_lt' (Nat.lt_of_le_of_lt hle hlt)] at heq
  exact heq.symm

/-- **A step keeps the invariant**, as long as the generation has not come round. -/
theorem inv_step (hinv : Inv s) (hlt : s.counts.length < 2 ^ 64) {a : Act}
    (hstep : step s a = some s') : Inv s' := by
  cases a with
  | commit i =>
      simp only [step] at hstep
      split at hstep
      · cases hstep
        refine ⟨hinv.generation, fun k hk => Nat.lt_succ_of_lt (hinv.counts k hk), fun j k hj => ?_,
          fun j k hj => ?_, hinv.notified, hinv.seenAt, hinv.round.congr rfl rfl rfl⟩
        · rcases mutator_moved hj with heq | hold
          · cases heq
            exact Nat.lt_succ_self _
          · exact Nat.lt_succ_of_lt (hinv.committed j k hold)
        · rcases mutator_moved hj with heq | hold
          · cases heq
          · exact hinv.counted j k hold
      · cases hstep
  | wake i =>
      simp only [step] at hstep
      split at hstep
      · cases hstep
        refine ⟨hinv.generation, hinv.counts, fun j k hj => ?_, fun j k hj => ?_, hinv.notified,
          hinv.seenAt, hinv.round.congr rfl rfl rfl⟩
        · rcases mutator_moved hj with heq | hold
          · cases heq
          · exact hinv.committed j k hold
        · rcases mutator_moved hj with heq | hold
          · cases heq
          · exact hinv.counted j k hold
      · cases hstep
  | count i =>
      simp only [step] at hstep
      split at hstep
      · rename_i change hi
        cases hstep
        refine ⟨?_, fun k hk => ?_, fun j k hj => ?_, fun j k hj => ?_, fun k hk => ?_, ?_, ?_⟩
        · show s.generation + 1 = UInt64.ofNat (s.counts ++ [change]).length
          rw [List.length_append, List.length_singleton, UInt64.ofNat_add, ← hinv.generation]
          rfl
        · -- the change that is counted was committed
          rcases List.mem_append.mp hk with hk | hk
          · exact hinv.counts k hk
          · rw [List.mem_singleton] at hk
            exact hinv.committed i k (hk ▸ hi)
        · rcases mutator_moved hj with heq | hold
          · cases heq
          · exact hinv.committed j k hold
        · rcases mutator_moved hj with heq | hold
          · cases heq
            exact List.mem_append_right _ (List.mem_singleton_self _)
          · exact List.mem_append_left _ (hinv.counted j k hold)
        · exact List.mem_append_left _ (hinv.notified k hk)
        · exact Nat.le_trans hinv.seenAt (by rw [List.length_append]; exact Nat.le_add_right _ _)
        · exact hinv.round.congr rfl (List.take_append_of_le_length hinv.seenAt) rfl
      · cases hstep
  | notifyAll i =>
      simp only [step] at hstep
      split at hstep
      · rename_i change hi
        cases hstep
        refine ⟨hinv.generation, hinv.counts, fun j k hj => ?_, fun j k hj => ?_, fun k hk => ?_,
          hinv.seenAt, ?_⟩
        · rcases mutator_moved hj with heq | hold
          · cases heq
          · exact hinv.committed j k hold
        · rcases mutator_moved hj with heq | hold
          · cases heq
          · exact hinv.counted j k hold
        · rcases List.mem_append.mp hk with hk | hk
          · exact hinv.notified k hk
          · have hchange : change = some k := Option.mem_toList.mp hk
            exact hinv.counted i k (hchange ▸ hi)
        · -- whoever was parked is not any more
          have hround := hinv.round
          cases hstream : s.stream with
          | top => exact trivial
          | ended => exact trivial
          | read seen => rw [hstream] at hround; exact hround
          | listing seen before => rw [hstream] at hround; exact hround
          | caughtUp seen before => rw [hstream] at hround; exact hround
          | woken seen before => rw [hstream] at hround; exact hround
          | parked seen before => rw [hstream] at hround; exact hround.1
      · cases hstep
  | cancel =>
      cases hstep
      exact ⟨hinv.generation, hinv.counts, hinv.committed, hinv.counted, hinv.notified, hinv.seenAt,
        hinv.round.congr rfl rfl rfl⟩
  | readGeneration =>
      simp only [step] at hstep
      split at hstep
      · split at hstep
        · cases hstep
          exact ⟨hinv.generation, hinv.counts, hinv.committed, hinv.counted, hinv.notified,
            hinv.seenAt, trivial⟩
        · cases hstep
          exact ⟨hinv.generation, hinv.counts, hinv.committed, hinv.counted, hinv.notified,
            Nat.le_refl _, hinv.generation⟩
      · cases hstep
  | list =>
      simp only [step] at hstep
      split at hstep
      · rename_i seen hstream
        cases hstep
        have hround := hinv.round
        rw [hstream] at hround
        -- all counts are for changes committed by now
        refine ⟨hinv.generation, hinv.counts, hinv.committed, hinv.counted, hinv.notified,
          hinv.seenAt, hround, fun k hk => ?_⟩
        exact hinv.counts k (List.mem_of_mem_take hk)
      · cases hstep
  | shown o =>
      simp only [step] at hstep
      split at hstep
      · rename_i seen before hstream
        cases hstep
        have hround := hinv.round
        rw [hstream] at hround
        refine ⟨hinv.generation, hinv.counts, hinv.committed, hinv.counted, hinv.notified,
          hinv.seenAt, ?_⟩
        cases o with
        | progress => exact trivial
        | closing => exact trivial
        | nothing => exact hround
      · cases hstep
  | check =>
      have hkeep : ∀ {seen : UInt64} {before : Nat}, seen = UInt64.ofNat s.seenAt ∧ s.Seen before →
          Inv { s with
            stream :=
              if s.generation = seen ∧ ¬ s.cancelled then .parked seen before else .top } := by
        intro seen before hround
        refine ⟨hinv.generation, hinv.counts, hinv.committed, hinv.counted, hinv.notified,
          hinv.seenAt, ?_⟩
        show Round.Ok _ (if s.generation = seen ∧ ¬ s.cancelled then .parked seen before else .top)
        split
        · rename_i hgen
          -- nothing was counted since the read, so all that was notified has been seen
          refine ⟨hround, fun k hk => ?_⟩
          show some k ∈ s.counts.take s.seenAt
          rw [eq_of_generation hinv hlt hround.1 hgen.1, List.take_length]
          exact hinv.notified k hk
        · exact trivial
      have hround := hinv.round
      simp only [step] at hstep
      split at hstep
      · rename_i seen before hstream
        cases hstep
        rw [hstream] at hround
        exact hkeep hround
      · rename_i seen before hstream
        cases hstep
        rw [hstream] at hround
        exact hkeep hround
      · cases hstep
  | timeout =>
      simp only [step] at hstep
      split at hstep
      · cases hstep
        exact ⟨hinv.generation, hinv.counts, hinv.committed, hinv.counted, hinv.notified,
          hinv.seenAt, trivial⟩
      · cases hstep
        exact ⟨hinv.generation, hinv.counts, hinv.committed, hinv.counted, hinv.notified,
          hinv.seenAt, trivial⟩
      · cases hstep
  | spurious =>
      simp only [step] at hstep
      split at hstep
      · rename_i seen before hstream
        cases hstep
        have hround := hinv.round
        rw [hstream] at hround
        exact ⟨hinv.generation, hinv.counts, hinv.committed, hinv.counted, hinv.notified,
          hinv.seenAt, hround.1⟩
      · cases hstep

/-- Counts are never taken back. -/
theorem counts_length_le {a : Act} (hstep : step s a = some s') :
    s.counts.length ≤ s'.counts.length := by
  cases a with
  | count i =>
      simp only [step] at hstep
      split at hstep
      · cases hstep
        rw [List.length_append]
        exact Nat.le_add_right _ _
      · cases hstep
  | _ =>
      simp only [step] at hstep
      repeat' split at hstep
      all_goals cases hstep <;> exact Nat.le_refl _

/-- **The invariant of the stream's wake-ups** holds in every state reached. -/
theorem Reached.inv (h : Reached s) (hlt : s.counts.length < 2 ^ 64) : Inv s := by
  have hrun : s.counts.length < 2 ^ 64 → Inv s := by
    refine Reaches.invariant (P := fun s => s.counts.length < 2 ^ 64 → Inv s)
      (fun _ => inv_start) ?_ h
    intro s a s' ih _ hstep hlt
    have hbefore := Nat.lt_of_le_of_lt (counts_length_le hstep) hlt
    exact inv_step (ih hbefore) hbefore hstep
  exact hrun hlt

end

/-- **No wakeup is lost.** While a stream is in `wait` and the generation is the one it read, every
change whose `notify` has returned was committed before the listing of the round began. And a stream
that is blocked there has no such change to be woken for: only a `notify` that has not returned yet
can bring it something new. -/
theorem no_lost_wakeup {s : State} (h : Reached s) (hlt : s.counts.length < 2 ^ 64) (seen : UInt64)
    (before : Nat) :
    (s.stream = .caughtUp seen before ∨ s.stream = .parked seen before ∨
      s.stream = .woken seen before →
        s.generation = seen → ∀ k ∈ s.notified, k < before) ∧
      (s.stream = .parked seen before → ∀ k ∈ s.notified, k < before) := by
  have hinv := h.inv hlt
  have hround := hinv.round
  constructor
  · intro hstream hgen k hk
    have hok : seen = UInt64.ofNat s.seenAt ∧ s.Seen before := by
      rcases hstream with hstream | hstream | hstream
      · rw [hstream] at hround
        exact hround
      · rw [hstream] at hround
        exact hround.1
      · rw [hstream] at hround
        exact hround
    refine hok.2 k ?_
    rw [eq_of_generation hinv hlt hok.1 hgen, List.take_length]
    exact hinv.notified k hk
  · intro hstream k hk
    rw [hstream] at hround
    exact hround.1.2 k (hround.2 k hk)

/-- A change that is notified between the read of the generation and the listing, and one behind
it. -/
def pushDuringRound : List Act :=
  [.readGeneration, .commit 0, .count 0, .notifyAll 0, .list, .shown .nothing, .check,
    .readGeneration, .list, .shown .nothing, .check, .commit 1, .count 1]

/-- A change that is notified during a round is not what the stream then sleeps on. -/
theorem no_lost_wakeup_during_round :
    ∃ s, Reached s ∧ s.stream = .parked 1 1 ∧ s.notified = [0] ∧ s.generation = 2 ∧
      ∀ k ∈ s.notified, k < 1 := by
  have hrun : (takeSteps step {} pushDuringRound).isSome := by decide
  obtain ⟨s, hs⟩ := Option.isSome_iff_exists.mp hrun
  have hreached : Reached s := reaches_of_takeSteps .refl allowedSteps_any hs
  have hfacts : ∀ s ∈ takeSteps step {} pushDuringRound,
      s.stream = .parked 1 1 ∧ s.notified = [0] ∧ s.generation = 2 ∧ s.counts.length < 2 ^ 64 := by
        decide
  obtain ⟨hstream, hnotified, hgen, hlt⟩ := hfacts s hs
  exact ⟨s, hreached, hstream, hnotified, hgen, (no_lost_wakeup hreached hlt 1 1).2 hstream⟩

end Notify

end Liters
