import Liters.Http.Wire

/-! # The chunked body codec

A body of chunks is written by `ChunkedWriter::chunk` and `finish` and read back by `ChunkedReader`
over a connection that fragments it, falls silent anywhere and carries more bytes behind it. However
it is read, the reader returns the bytes of the writes and then the end, for good, and stands right
behind the last chunk; of a body that is cut off it returns a part and then an error. -/

namespace Liters

open ReadResult

variable {σ : Type} {read : σ → Nat → ReadResult IoError × σ} {Holds : σ → Bytes → Bool → Prop}
  {weight : σ → Nat}

/-- The end is told from the state behind the last chunk only. -/
theorem chunkedLoop_eof {fuel : Nat} {r r' : ChunkedReader σ} {want : Nat}
    (h : chunkedLoop read fuel r want = (.eof, r')) : r'.state = .eof := by
  -- along the rounds: every other way out is bytes or an error
  induction fuel generalizing r with
  | zero => cases h
  | succ fuel ih =>
      rw [chunkedLoop] at h
      cases hstate : r.state with
      | size =>
          rw [hstate] at h
          dsimp only at h
          split at h
          · cases h
          · cases h
          · cases h
          · split at h
            · cases h
            · exact ih h
      | data n =>
          rw [hstate] at h
          dsimp only at h
          split at h <;> cases h
      | dataEnd =>
          rw [hstate] at h
          dsimp only at h
          split at h
          · cases h
          · cases h
          · cases h
          · split at h
            · exact ih h
            · cases h
      | trailer =>
          rw [hstate] at h
          dsimp only at h
          split at h
          · cases h
          · cases h
          · cases h
          · exact ih h
      | eof =>
          rw [hstate] at h
          cases h
          exact hstate

/-- Behind the last chunk every read is the end and nothing is read. -/
theorem reads_of_eof (weight : σ → Nat) (wants : List Nat) {r : ChunkedReader σ}
    (h : r.state = .eof) :
    reads (readChunked read weight) wants r = (List.replicate wants.length .eof, r) := by
  have hread : ∀ want, readChunked read weight r want = (.eof, r) := by
    intro want
    rw [readChunked, chunkedLoop, h]
  induction wants with
  | nil => rfl
  | cons want wants ih =>
      rw [reads, hread, ih]
      rfl

/-- A whole body is delivered, and then the end, from which nothing more is read. -/
theorem reads_whole (hd : Delivers read Holds weight) {tail : Bytes} {wants : List Nat}
    (hwants : ∀ n ∈ wants, 0 < n) {r : ChunkedReader σ} {p : Bytes}
    (h : ChunkedHolds Holds tail r p true) :
    ∃ before m, (reads (readChunked read weight) wants r).1 = before ++ List.replicate m .eof ∧
      (∀ r ∈ before, r.GoesOn) ∧ before.flatMap received <+: p ∧
      (0 < m → before.flatMap received = p ∧
        ∃ clean, Holds (reads (readChunked read weight) wants r).2.inner tail clean) ∧
      (weight r.inner < wants.length → 0 < m) := by
  have hdc := readChunked_delivers tail hd
  induction wants generalizing r p with
  | nil =>
      exact ⟨[], 0, rfl, by simp, List.nil_prefix, fun h => absurd h (Nat.lt_irrefl _),
        fun h => absurd h (Nat.not_lt_zero _)⟩
  | cons want wants ih =>
      have hwants' : ∀ n ∈ wants, 0 < n := fun n hn => hwants n (List.mem_cons_of_mem _ hn)
      simp only [reads, List.length_cons]
      rcases hdc.step h (hwants want (List.mem_cons_self ..)) with
        ⟨b, rest, r', hr, hne, -, rfl, hs, hw⟩ | ⟨r', hr, hs, hw⟩ | ⟨r', hr, rfl, -, hs, hw⟩ |
        ⟨e, r', -, -, hclean, -⟩
      · -- bytes: the reads after them give the rest
        obtain ⟨before, m, heq, hbefore, hfront, hend, hmany⟩ := ih hwants' hs
        refine ⟨.bytes b :: before, m, by rw [hr, heq, List.cons_append], ?_, ?_, ?_, ?_⟩
        · exact List.forall_mem_cons.mpr ⟨.inl ⟨b, hne, rfl⟩, hbefore⟩
        · rw [List.flatMap_cons]
          exact (List.prefix_append_right_inj b).mpr hfront
        · intro hm
          rw [hr, List.flatMap_cons, (hend hm).1]
          exact ⟨rfl, (hend hm).2⟩
        · exact fun hlt => hmany (Nat.lt_of_lt_of_le hw (Nat.le_of_lt_succ hlt))
      · -- a timeout delivers nothing and uses up one read
        obtain ⟨before, m, heq, hbefore, hfront, hend, hmany⟩ := ih hwants' hs
        refine ⟨.timeout :: before, m, by rw [hr, heq, List.cons_append], ?_, hfront, ?_, ?_⟩
        · exact List.forall_mem_cons.mpr ⟨.inr rfl, hbefore⟩
        · rw [hr]
          exact hend
        · exact fun hlt => hmany (Nat.lt_of_lt_of_le hw (Nat.le_of_lt_succ hlt))
      · -- the last chunk and the trailer have been read: every further read is the end
        have hstate : r'.state = .eof := chunkedLoop_eof hr
        obtain ⟨data, clean, hin, -, hat⟩ := hs
        rw [hstate] at hat
        obtain ⟨-, -, rfl⟩ := hat
        rw [hr, reads_of_eof weight wants hstate]
        exact ⟨[], wants.length + 1, rfl, by simp, List.nil_prefix, fun _ => ⟨rfl, clean, hin⟩,
          fun _ => Nat.succ_pos _⟩
      · -- an error: the data is cut off, here it is whole
        cases hclean

/-- Reads of a body from a connection, with buffers of the given sizes. -/
def readsOf (src : Source IoError) (wants : List Nat) :
    List (ReadResult IoError) × ChunkedReader (Source IoError) :=
  reads (readChunked Source.read Source.weight) wants { inner := src }

/-- However a connection fragments a body and falls silent, and whatever the sizes of the buffers,
the reads return the bytes of the writes and then the end for good, with all that stands behind the
body still to be read; when the body is cut off, they return a part of those bytes and then an
error, and never the end. -/
theorem readsOf_chunkedBody {writes : List Bytes} (hlen : ∀ c ∈ writes, c.length < 2 ^ 64)
    (src : Source IoError) (tail : Bytes) {wants : List Nat} (hwants : ∀ n ∈ wants, 0 < n) :
    (src.data = chunkedBody writes ++ tail →
      ∃ before m, (readsOf src wants).1 = before ++ List.replicate m .eof ∧
        (∀ r ∈ before, r.GoesOn) ∧
        before.flatMap received <+: writes.flatten ∧
        (0 < m → before.flatMap received = writes.flatten ∧
          (readsOf src wants).2.inner.data = tail) ∧
        (src.weight < wants.length → 0 < m)) ∧
    (src.data <+: chunkedBody writes → src.data ≠ chunkedBody writes →
      ∃ before after, (readsOf src wants).1 = before ++ after ∧ (∀ r ∈ before, r.GoesOn) ∧
        before.flatMap received <+: writes.flatten ∧ (∀ r ∈ after, r.IsErr) ∧
        (src.weight < wants.length → ∃ e, after.head? = some (.failed e))) := by
  have hd := Source.delivers (ε := IoError)
  -- the connection in terms of the chunks, whichever way it ends
  have hholds : ∀ {p : Bytes} {clean : Bool}, AtSize tail src.data p clean →
      ChunkedHolds Source.Holds tail { inner := src } p clean := by
    intro p clean hsize
    exact ⟨src.data, src.ending.isNone, ⟨rfl, by simp⟩, by simp, by simpa using hsize⟩
  constructor
  · intro hdata
    have hsize := atSize_chunkedBody hlen tail
    rw [← hdata] at hsize
    obtain ⟨before, m, heq, hbefore, hfront, hend, hmany⟩ := reads_whole hd hwants (hholds hsize)
    refine ⟨before, m, heq, hbefore, hfront, fun hm => ?_, hmany⟩
    obtain ⟨hall, clean, hleft⟩ := hend hm
    exact ⟨hall, hleft.1⟩
  · intro hcut hne
    obtain ⟨p, hp, hsize⟩ := exists_atSize_of_cut hlen tail hcut hne
    obtain ⟨before, after, heq, hbefore, hfront, hafter, hend⟩ :=
      (readChunked_delivers tail hd).reads_cut hwants (hholds hsize)
    exact ⟨before, after, heq, hbefore, hfront.trans hp, hafter, hend⟩

/-- A body in three pieces with a silence in the middle of a line, and a byte behind it. -/
def greeting : Source IoError :=
  ⟨[.piece 50 [13], .silence, .piece 10 [104, 105, 13], .piece 10 [48, 13, 10, 13, 10, 71]], none⟩

/-- The same connection closed in the middle of the chunk. -/
def shortGreeting : Source IoError := ⟨[.piece 50 [13], .silence, .piece 10 [104]], none⟩

/-- A chunked greeting, read in twenty calls of one byte each. -/
theorem readsOf_chunkedBody_greeting :
    (∃ before m, (readsOf greeting (List.replicate 20 1)).1 = before ++ List.replicate m .eof ∧
      (∀ r ∈ before, r.GoesOn) ∧ before.flatMap received <+: [[104, 105], []].flatten ∧
      (0 < m → before.flatMap received = [[104, 105], []].flatten ∧
        (readsOf greeting (List.replicate 20 1)).2.inner.data = [71]) ∧
      (greeting.weight < 20 → 0 < m)) ∧
    ∃ before after, (readsOf shortGreeting (List.replicate 20 1)).1 = before ++ after ∧
      (∀ r ∈ before, r.GoesOn) ∧ before.flatMap received <+: [[104, 105], []].flatten ∧
      (∀ r ∈ after, r.IsErr) ∧ (shortGreeting.weight < 20 → ∃ e, after.head? = some (.failed e)) :=
  ⟨(@readsOf_chunkedBody [[104, 105], []] (by decide) greeting [71] (List.replicate 20 1)
      (by decide)).1
      (by decide),
    (@readsOf_chunkedBody [[104, 105], []] (by decide) shortGreeting [] (List.replicate 20 1)
      (by decide)).2
      (by decide) (by decide)⟩

end Liters
