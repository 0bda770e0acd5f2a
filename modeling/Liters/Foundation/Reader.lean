import Liters.Foundation.Bytes

/-! # Interruptible readers

A reader is asked for up to so many bytes and answers with some of them, with a timeout, with the
end or with an error. What a reader has still to deliver does not depend on how it is asked or on
how often it times out: `Delivers` says so, for a predicate `Holds` that tells the bytes to come and
whether they end cleanly. -/

namespace Liters

universe u v

/-- What a read comes to. -/
inductive ReadResult (ε : Type u) where
  | bytes (b : Bytes)
  | eof
  | timeout
  | failed (e : ε)

variable {σ : Type v} {ε : Type u}

/-- An answer to a read of up to `want` bytes when `data` is still to be delivered and then a clean
end or an error: `Holds s data clean` says the same of the state after it. Bytes and timeouts use up
`weight`, of which there was `n`. -/
def Delivered (Holds : σ → Bytes → Bool → Prop) (weight : σ → Nat) (n : Nat) (data : Bytes)
    (clean : Bool) (want : Nat) (r : ReadResult ε × σ) : Prop :=
  (∃ b rest s, r = (.bytes b, s) ∧ b ≠ [] ∧ b.length ≤ want ∧ data = b ++ rest ∧
      Holds s rest clean ∧
      weight s < n) ∨
    (∃ s, r = (.timeout, s) ∧ Holds s data clean ∧ weight s < n) ∨
    (∃ s, r = (.eof, s) ∧ data = [] ∧ clean = true ∧ Holds s [] true ∧ weight s ≤ n) ∨
    ∃ e s, r = (.failed e, s) ∧ data = [] ∧ clean = false ∧ Holds s [] false

/-- A reader that has fewer steps left has no more of them. -/
theorem Delivered.mono {Holds : σ → Bytes → Bool → Prop} {weight : σ → Nat} {n m : Nat}
    {data : Bytes} {clean : Bool} {want : Nat} {r : ReadResult ε × σ}
    (h : Delivered Holds weight n data clean want r)
    (hle : n ≤ m) : Delivered Holds weight m data clean want r := by
  rcases h with ⟨b, rest, s, hr, hne, hlen, hdata, hs, hw⟩ | ⟨s, hr, hs, hw⟩ |
    ⟨s, hr, hdata, hclean, hs, hw⟩ | hfailed
  · exact .inl ⟨b, rest, s, hr, hne, hlen, hdata, hs, hw.trans_le hle⟩
  · exact .inr (.inl ⟨s, hr, hs, hw.trans_le hle⟩)
  · exact .inr (.inr (.inl ⟨s, hr, hdata, hclean, hs, hw.trans hle⟩))
  · exact .inr (.inr (.inr hfailed))

/-- A reader that delivers what its state holds. -/
structure Delivers (read : σ → Nat → ReadResult ε × σ) (Holds : σ → Bytes → Bool → Prop)
    (weight : σ → Nat) : Prop where
  step : ∀ {s data clean want}, Holds s data clean → 0 < want →
    Delivered Holds weight (weight s) data clean want (read s want)

/-! ## Many reads -/

/-- Successive reads with buffers of the given sizes: their answers, and the state after them. -/
def reads (read : σ → Nat → ReadResult ε × σ) : List Nat → σ → List (ReadResult ε) × σ
  | [], s => ([], s)
  | want :: wants, s =>
      ((read s want).1 :: (reads read wants (read s want).2).1,
        (reads read wants (read s want).2).2)

namespace ReadResult

/-- The bytes of an answer. -/
def received : ReadResult ε → Bytes
  | .bytes b => b
  | _ => []

/-- An answer before the end: some bytes, or a timeout. -/
def GoesOn (r : ReadResult ε) : Prop := (∃ b, b ≠ [] ∧ r = .bytes b) ∨ r = .timeout

/-- An answer that is an error, a timeout being one. -/
def IsErr (r : ReadResult ε) : Prop := (∃ e, r = .failed e) ∨ r = .timeout

end ReadResult

section ManyReads

open ReadResult

variable {read : σ → Nat → ReadResult ε × σ} {Holds : σ → Bytes → Bool → Prop} {weight : σ → Nat}

/-- Where nothing is left and the end is not clean, every further read is an error. -/
theorem Delivers.reads_isErr (hd : Delivers read Holds weight) {wants : List Nat}
    (hwants : ∀ n ∈ wants, 0 < n) {s : σ} (h : Holds s [] false) :
    ∀ r ∈ (reads read wants s).1, r.IsErr := by
  induction wants generalizing s with
  | nil => simp [reads]
  | cons want wants ih =>
      have ih : ∀ {s' : σ}, Holds s' [] false → ∀ r ∈ (reads read wants s').1, r.IsErr :=
        fun h' => ih (fun n hn => hwants n (List.mem_cons_of_mem _ hn)) h'
      simp only [reads, List.mem_cons, forall_eq_or_imp]
      rcases hd.step h (hwants want (List.mem_cons_self ..)) with
        ⟨b, rest, s', hr, hne, -, hdata, -⟩ | ⟨s', hr, hs, -⟩ | ⟨s', hr, -, hclean, -⟩ |
        ⟨e, s', hr, -, -, hs⟩
      · exact absurd (List.append_eq_nil_iff.mp hdata.symm).1 hne
      · rw [hr]
        exact ⟨.inr rfl, ih hs⟩
      · cases hclean
      · rw [hr]
        exact ⟨.inl ⟨e, rfl⟩, ih hs⟩

/-- What does not end cleanly is delivered up to some point, and then comes an error. -/
theorem Delivers.reads_cut (hd : Delivers read Holds weight) {wants : List Nat}
    (hwants : ∀ n ∈ wants, 0 < n) {s : σ} {data : Bytes} (h : Holds s data false) :
    ∃ before after, (reads read wants s).1 = before ++ after ∧ (∀ r ∈ before, r.GoesOn) ∧
      before.flatMap received <+: data ∧ (∀ r ∈ after, r.IsErr) ∧
      (weight s < wants.length → ∃ e, after.head? = some (.failed e)) := by
  induction wants generalizing s data with
  | nil =>
      exact ⟨[], [], rfl, by simp, List.nil_prefix, by simp, fun h => absurd h (Nat.not_lt_zero _)⟩
  | cons want wants ih =>
      have hwants' : ∀ n ∈ wants, 0 < n := fun n hn => hwants n (List.mem_cons_of_mem _ hn)
      simp only [reads, List.length_cons]
      rcases hd.step h (hwants want (List.mem_cons_self ..)) with
        ⟨b, rest, s', hr, hne, -, rfl, hs, hw⟩ | ⟨s', hr, hs, hw⟩ | ⟨s', hr, -, hclean, -⟩ |
        ⟨e, s', hr, rfl, -, hs⟩
      · -- bytes, and the reads after them
        obtain ⟨before, after, heq, hbefore, hfront, hafter, hend⟩ := ih hwants' hs
        refine ⟨.bytes b :: before, after, by rw [hr, heq, List.cons_append], ?_, ?_, hafter, ?_⟩
        · exact List.forall_mem_cons.mpr ⟨.inl ⟨b, hne, rfl⟩, hbefore⟩
        · rw [List.flatMap_cons]
          exact (List.prefix_append_right_inj b).mpr hfront
        · exact fun hlt => hend (by omega)
      · -- a timeout uses up one read
        obtain ⟨before, after, heq, hbefore, hfront, hafter, hend⟩ := ih hwants' hs
        refine ⟨.timeout :: before, after, by rw [hr, heq, List.cons_append], ?_, ?_, hafter, ?_⟩
        · exact List.forall_mem_cons.mpr ⟨.inr rfl, hbefore⟩
        · exact hfront
        · exact fun hlt => hend (by omega)
      · -- the end cannot come before the error
        cases hclean
      · -- the error, and errors from there on
        refine ⟨[], .failed e :: (reads read wants s').1,
          by rw [hr]; rfl, by simp, List.nil_prefix, ?_, ?_⟩
        · exact List.forall_mem_cons.mpr ⟨.inl ⟨e, rfl⟩, hd.reads_isErr hwants' hs⟩
        · exact fun _ => ⟨e, rfl⟩

/-- Reads that do not time out, from states with a property. -/
structure Steady (read : σ → Nat → ReadResult ε × σ) (Q : σ → Prop) : Prop where
  step : ∀ s want, Q s → (read s want).1 ≠ .timeout ∧ Q (read s want).2

/-- What ends cleanly is delivered, and then comes the end for good. -/
theorem Delivers.reads_clean (hd : Delivers read Holds weight) {Q : σ → Prop} (hq : Steady read Q)
    {wants : List Nat} (hwants : ∀ n ∈ wants, 0 < n) {s : σ} {data : Bytes} (h : Holds s data true)
    (hs : Q s) :
    ∃ before m, (reads read wants s).1 = before ++ List.replicate m .eof ∧
      (∀ r ∈ before, ∃ b, b ≠ [] ∧ r = .bytes b) ∧ before.flatMap received <+: data ∧
      (0 < m → before.flatMap received = data) ∧ (weight s < wants.length → 0 < m) := by
  induction wants generalizing s data with
  | nil =>
      exact ⟨[], 0, rfl, by simp, List.nil_prefix, fun h => absurd h (Nat.lt_irrefl _),
        fun h => absurd h (Nat.not_lt_zero _)⟩
  | cons want wants ih =>
      have hwants' : ∀ n ∈ wants, 0 < n := fun n hn => hwants n (List.mem_cons_of_mem _ hn)
      obtain ⟨hno, hs'⟩ := hq.step s want hs
      simp only [reads, List.length_cons]
      rcases hd.step h (hwants want (List.mem_cons_self ..)) with
        ⟨b, rest, s', hr, hne, -, rfl, hholds, hw⟩ | ⟨s', hr, -⟩ | ⟨s', hr, rfl, -, hholds, hw⟩ |
        ⟨e, s', -, -, hclean, -⟩
      · -- bytes: what comes after starts where they end
        rw [hr] at hs'
        obtain ⟨before, m, heq, hbefore, hfront, hend, hmany⟩ := ih hwants' hholds hs'
        refine ⟨.bytes b :: before, m, by rw [hr, heq, List.cons_append], ?_, ?_, fun hm => ?_, ?_⟩
        · exact List.forall_mem_cons.mpr ⟨⟨b, hne, rfl⟩, hbefore⟩
        · rw [List.flatMap_cons]
          exact (List.prefix_append_right_inj b).mpr hfront
        · rw [List.flatMap_cons, hend hm]
          rfl
        · exact fun hlt => hmany (Nat.lt_of_lt_of_le hw (Nat.le_of_lt_succ hlt))
      · -- a timeout: the state is a steady one
        rw [hr] at hno
        exact absurd rfl hno
      · -- from the end on there is nothing else
        rw [hr] at hs'
        obtain ⟨before, m, heq, hbefore, hfront, -, -⟩ := ih hwants' hholds hs'
        have hnil : before = [] := by
          rcases before with _ | ⟨r, before⟩
          · rfl
          · obtain ⟨b, hne, rfl⟩ := hbefore r (List.mem_cons_self ..)
            rw [List.flatMap_cons] at hfront
            exact absurd (List.append_eq_nil_iff.mp (List.prefix_nil.mp hfront)).1 hne
        subst hnil
        refine ⟨[], m + 1, ?_, by simp, List.nil_prefix, fun _ => rfl, fun _ => Nat.succ_pos m⟩
        rw [hr, heq]
        rfl
      · -- an error: the data is cut off, here it is whole
        cases hclean

/-- Read to the end in buffers of `want` bytes, behind what is there already. A timeout is an
error. -/
def readToEnd (read : σ → Nat → ReadResult ε × σ) (want : Nat) :
    Nat → σ → Bytes → Except (Option ε) Bytes
  | 0, _, _ => .error none
  | fuel + 1, s, got =>
      match read s want with
      | (.eof, _) => .ok got
      | (.bytes b, s') => readToEnd read want fuel s' (got ++ b)
      | (.timeout, _) => .error none
      | (.failed e, _) => .error (some e)

/-- Reading to the end returns all there is if it ends cleanly, or fails. -/
theorem Delivers.readToEnd (hd : Delivers read Holds weight) {want fuel : Nat} (hwant : 0 < want)
    {s : σ} {data : Bytes} {clean : Bool} (h : Holds s data clean) (hfuel : weight s < fuel)
    (got : Bytes) :
    (clean = true ∧ Liters.readToEnd read want fuel s got = .ok (got ++ data)) ∨
      ∃ e, Liters.readToEnd read want fuel s got = .error e := by
  induction fuel generalizing s data got with
  | zero => exact absurd hfuel (Nat.not_lt_zero _)
  | succ fuel ih =>
      rw [Liters.readToEnd]
      rcases hd.step h hwant with ⟨b, rest, s', hr, -, -, rfl, hholds, hw⟩ | ⟨s', hr, -⟩ |
        ⟨s', hr, rfl, hclean, -⟩ | ⟨e, s', hr, -⟩
      · rw [hr, ← List.append_assoc]
        exact ih hholds (by omega) (got ++ b)
      · rw [hr]
        exact .inr ⟨_, rfl⟩
      · rw [hr, List.append_nil]
        exact .inl ⟨hclean, rfl⟩
      · rw [hr]
        exact .inr ⟨_, rfl⟩

/-- Without timeouts what ends cleanly is read to the end. -/
theorem Delivers.readToEnd_clean (hd : Delivers read Holds weight) {Q : σ → Prop}
    (hq : Steady read Q) {want fuel : Nat} (hwant : 0 < want) {s : σ} {data : Bytes}
    (h : Holds s data true) (hs : Q s)
    (hfuel : weight s < fuel) (got : Bytes) :
    Liters.readToEnd read want fuel s got = .ok (got ++ data) := by
  induction fuel generalizing s data got with
  | zero => exact absurd hfuel (Nat.not_lt_zero _)
  | succ fuel ih =>
      obtain ⟨hno, hs'⟩ := hq.step s want hs
      rw [Liters.readToEnd]
      rcases hd.step h hwant with ⟨b, rest, s', hr, -, -, rfl, hholds, hw⟩ | ⟨s', hr, -⟩ |
        ⟨s', hr, rfl, -⟩ | ⟨e, s', -, -, hclean, -⟩
      · rw [hr] at hs' ⊢
        rw [← List.append_assoc]
        exact ih hholds hs' (by omega) (got ++ b)
      · rw [hr] at hno
        exact absurd rfl hno
      · rw [hr, List.append_nil]
      · cases hclean

end ManyReads

/-! ## Readers over readers -/

/-- A reader that wraps the states of another one. -/
theorem Delivered.map {τ : Type v} {Holds : σ → Bytes → Bool → Prop}
    {Holds' : τ → Bytes → Bool → Prop} {weight : σ → Nat} {weight' : τ → Nat} (f : σ → τ)
    (hholds : ∀ s data clean, Holds s data clean →
      Holds' (f s) data clean) (hweight : ∀ s, weight' (f s) = weight s) {n : Nat} {data : Bytes}
        {clean : Bool}
    {want : Nat} {r : ReadResult ε × σ} (h : Delivered Holds weight n data clean want r) :
    Delivered Holds' weight' n data clean want (r.1, f r.2) := by
  rcases h with ⟨b, rest, s, rfl, hne, hle, hdata, hs, hw⟩ | ⟨s, rfl, hs, hw⟩ |
    ⟨s, rfl, hdata, hclean, hs, hw⟩ | ⟨e, s, rfl, hdata, hclean, hs⟩
  · exact .inl ⟨b, rest, f s, rfl, hne, hle, hdata, hholds _ _ _ hs, (hweight s).trans_lt hw⟩
  · exact .inr (.inl ⟨f s, rfl, hholds _ _ _ hs, (hweight s).trans_lt hw⟩)
  · exact .inr (.inr (.inl ⟨f s, rfl, hdata, hclean, hholds _ _ _ hs, (hweight s).trans_le hw⟩))
  · exact .inr (.inr (.inr ⟨e, f s, rfl, hdata, hclean, hholds _ _ _ hs⟩))

/-- A reader that is allowed so many more bytes. -/
structure TakeReader (σ : Type v) where
  inner : σ
  left : Nat

/-- `Take::read`: with nothing left the inner reader is not asked. -/
def readTake (read : σ → Nat → ReadResult ε × σ) (r : TakeReader σ) (want : Nat) :
    ReadResult ε × TakeReader σ :=
  if r.left = 0 then (.eof, r)
  else
    match read r.inner (min want r.left) with
    | (.bytes b, inner) => (.bytes b, ⟨inner, r.left - b.length⟩)
    | (other, inner) => (other, { r with inner })

/-- What is left for a bounded reader: no more than it is allowed, and it ends cleanly if all of
that comes. -/
def TakeHolds (Holds : σ → Bytes → Bool → Prop) (r : TakeReader σ) (p : Bytes) (clean : Bool) :
    Prop :=
  ∃ data innerClean, Holds r.inner data innerClean ∧ p = data.take r.left ∧
    (clean = true ↔ r.left ≤ data.length ∨ innerClean = true)

/-- A reader that is limited delivers what the limit lets through. -/
theorem readTake_delivers {read : σ → Nat → ReadResult ε × σ} {Holds : σ → Bytes → Bool → Prop}
    {weight : σ → Nat} (hd : Delivers read Holds weight) :
    Delivers (readTake read) (TakeHolds Holds) fun r => weight r.inner where
  step := by
    rintro ⟨inner, left⟩ p clean want ⟨data, innerClean, hin, rfl, hclean⟩ hwant
    unfold readTake
    dsimp only at hin hclean ⊢
    by_cases hleft : left = 0
    · subst hleft
      rw [if_pos rfl]
      -- the limit is used up, so the end is read without asking the inner reader
      have htrue : clean = true := hclean.mpr (.inl (Nat.zero_le _))
      exact .inr (.inr (.inl ⟨_, rfl, rfl, htrue, ⟨data, innerClean, hin, rfl, htrue ▸ hclean⟩,
        Nat.le_refl _⟩))
    · rw [if_neg hleft]
      rcases hd.step hin (by omega : 0 < min want left) with
        ⟨b, rest, s, hr, hne, hle, rfl, hs, hw⟩ | ⟨s, hr, hs, hw⟩ | ⟨s, hr, rfl, rfl, hs, hw⟩ |
        ⟨e, s, hr, rfl, rfl, hs⟩
      · -- bytes: the limit goes down by as many
        rw [hr]
        have htake : (b ++ rest).take left = b ++ rest.take (left - b.length) := by
          rw [List.take_append, List.take_of_length_le (by omega)]
        refine .inl ⟨b, rest.take (left - b.length), _, rfl, hne, by omega, htake, ?_, hw⟩
        refine ⟨rest, innerClean, hs, rfl, hclean.trans ?_⟩
        rw [List.length_append]
        exact or_congr_left (by dsimp only; omega)
      · -- a timeout changes nothing but the inner reader
        rw [hr]
        exact .inr (.inl ⟨_, rfl, ⟨data, innerClean, hs, rfl, hclean⟩, hw⟩)
      · -- the inner end comes before the limit does
        rw [hr]
        have htrue : clean = true := hclean.mpr (.inr rfl)
        exact .inr (.inr (.inl ⟨_, rfl, List.take_nil, htrue,
          ⟨[], true, hs, List.take_nil.symm, by simp⟩, hw⟩))
      · -- an inner error, with the limit not yet reached
        rw [hr]
        have hfalse : clean = false := by
          rw [← Bool.not_eq_true, hclean]
          simpa using hleft
        refine .inr (.inr (.inr ⟨e, _, rfl, List.take_nil, hfalse, [], false, hs,
          List.take_nil.symm, ?_⟩))
        simpa using hleft

/-- A reader that is limited keeps what its source keeps. -/
theorem readTake_steady {read : σ → Nat → ReadResult ε × σ} {Q : σ → Prop} (hq : Steady read Q) :
    Steady (readTake read) fun r => Q r.inner where
  step := by
    rintro ⟨inner, left⟩ want h
    unfold readTake
    dsimp only at h ⊢
    by_cases hleft : left = 0
    · rw [if_pos hleft]
      exact ⟨(fun heq => by cases heq), h⟩
    · rw [if_neg hleft]
      obtain ⟨hno, hs⟩ := hq.step inner (min want left) h
      generalize read inner (min want left) = r at hno hs
      obtain ⟨answer, s⟩ := r
      cases answer with
      | bytes b => exact ⟨(fun heq => by cases heq), hs⟩
      | eof => exact ⟨(fun heq => by cases heq), hs⟩
      | timeout => exact absurd rfl hno
      | failed e => exact ⟨(fun heq => by cases heq), hs⟩

/-! ## A byte source in pieces -/

/-- Something arrives: a piece of at least one byte, or nothing for too long. -/
inductive Arrival where
  | piece (first : UInt8) (more : Bytes)
  | silence

/-- What arrives, and how it ends: by the peer's close, or by an error. -/
structure Source (ε : Type u) where
  arrivals : List Arrival
  ending : Option ε

namespace Source

/-- A read takes up to `want` bytes of the piece that has arrived. -/
def read (s : Source ε) (want : Nat) : ReadResult ε × Source ε :=
  match s.arrivals with
  | [] =>
      match s.ending with
      | none => (.eof, s)
      | some e => (.failed e, s)
  | .silence :: rest => (.timeout, { s with arrivals := rest })
  | .piece first more :: rest =>
      match more.drop (want - 1) with
      | [] => (.bytes ((first :: more).take want), { s with arrivals := rest })
      | x :: xs => (.bytes ((first :: more).take want), { s with arrivals := .piece x xs :: rest })

/-- The bytes of an arrival. -/
def bytesOf : Arrival → Bytes
  | .piece first more => first :: more
  | .silence => []

/-- The bytes that arrive. -/
def data (s : Source ε) : Bytes := s.arrivals.flatMap bytesOf

/-- Bytes and arrivals still to come. -/
def weight (s : Source ε) : Nat := s.data.length + s.arrivals.length

/-- A source delivers what arrives. -/
def Holds (s : Source ε) (data : Bytes) (clean : Bool) : Prop :=
  s.data = data ∧ (clean = true ↔ s.ending = none)

/-- A fragmented transfer delivers its data. -/
theorem delivers : Delivers (read (ε := ε)) Holds weight where
  step := by
    rintro s d clean want ⟨hdata, hclean⟩ hwant
    unfold read
    cases harr : s.arrivals with
    -- nothing more arrives: the source ends, or it fails
    | nil =>
        have hnil : d = [] := by rw [← hdata, data, harr, List.flatMap_nil]
        cases hend : s.ending with
        | none =>
            refine .inr (.inr (.inl ⟨s, rfl, hnil, hclean.mpr hend, ⟨hdata.trans hnil, ?_⟩,
              Nat.le_refl _⟩))
            exact ⟨fun _ => hend, fun _ => rfl⟩
        | some e =>
            have hdirty : clean = false := by
              cases clean with
              | false => rfl
              | true => rw [hclean.mp rfl] at hend; cases hend
            exact .inr (.inr (.inr ⟨e, s, rfl, hnil, hdirty, hdata.trans hnil, hdirty ▸ hclean⟩))
    | cons a rest =>
        cases a with
        -- a timeout uses up one arrival and no data
        | silence =>
            have hsame : ({ s with arrivals := rest } : Source ε).data = d := by
              rw [← hdata, data, data, harr, List.flatMap_cons]
              rfl
            refine .inr (.inl ⟨_, rfl, ⟨hsame, hclean⟩, ?_⟩)
            unfold weight
            rw [hsame, hdata, harr, List.length_cons]
            exact Nat.lt_succ_self _
        -- a piece: as much of it as is asked for, the rest stays in front
        | piece first more =>
            have hd : d = first :: more ++ rest.flatMap bytesOf := by
              rw [← hdata, data, harr, List.flatMap_cons]
              rfl
            have htake : (first :: more).take want = first :: more.take (want - 1) := by
              obtain ⟨n, rfl⟩ := Nat.exists_eq_succ_of_ne_zero (Nat.ne_of_gt hwant)
              rfl
            have hne : (first :: more).take want ≠ [] := by
              rw [htake]
              exact List.cons_ne_nil _ _
            have hle : ((first :: more).take want).length ≤ want := List.length_take_le _ _
            have hweight : s.weight = d.length + (rest.length + 1) := by
              rw [weight, hdata, harr, List.length_cons]
            dsimp only
            cases hdrop : more.drop (want - 1) with
            -- the whole piece is read
            | nil =>
                have hall : (first :: more).take want = first :: more := by
                  have := List.drop_eq_nil_iff.mp hdrop
                  rw [htake, List.take_of_length_le this]
                refine .inl ⟨_, rest.flatMap bytesOf, _, rfl, hne, hle,
                  by rw [hall]; exact hd, ⟨rfl, hclean⟩, ?_⟩
                rw [hweight, hd]
                simp only [weight, data, List.length_append, List.length_cons]
                omega
            -- the front of the piece is read
            | cons x xs =>
                have hsplit : first :: more = (first :: more).take want ++ (x :: xs) := by
                  rw [htake, ← hdrop, List.cons_append, List.take_append_drop]
                have hrest : d = (first :: more).take want ++
                    (x :: xs ++ rest.flatMap bytesOf) := by
                  rw [hd, ← List.append_assoc, ← hsplit]
                refine .inl ⟨_, x :: xs ++ rest.flatMap bytesOf, _, rfl, hne, hle, hrest,
                  ⟨by simp [data, bytesOf], hclean⟩, ?_⟩
                have hpos : 0 < ((first :: more).take want).length := List.length_pos_iff.mpr hne
                rw [hweight, hrest]
                simp only [weight, data, bytesOf, List.flatMap_cons, List.length_append,
                  List.length_cons]
                omega

/-- Nothing is too long in coming. -/
def Prompt (s : Source ε) : Prop := Arrival.silence ∉ s.arrivals

/-- It stays prompt. -/
theorem steady : Steady (read (ε := ε)) Prompt where
  step := by
    intro s want h
    unfold read
    unfold Prompt at h ⊢
    cases harr : s.arrivals with
    | nil =>
        cases s.ending with
        | none => exact ⟨(fun heq => by cases heq), h⟩
        | some e => exact ⟨(fun heq => by cases heq), h⟩
    | cons a rest =>
        rw [harr] at h
        have hrest : Arrival.silence ∉ rest := fun hmem => h (List.mem_cons_of_mem _ hmem)
        cases a with
        | silence => exact absurd (List.mem_cons_self ..) h
        | piece first more =>
            dsimp only
            cases more.drop (want - 1) with
            | nil => exact ⟨(fun heq => by cases heq), hrest⟩
            | cons x xs =>
                refine ⟨(fun heq => by cases heq), fun hmem => ?_⟩
                rcases List.mem_cons.mp hmem with heq | hmem
                · cases heq
                · exact hrest hmem

end Source

end Liters
