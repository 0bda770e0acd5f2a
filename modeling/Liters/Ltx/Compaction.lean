import Mathlib.Data.List.Forall2
import Liters.Ltx.File
import Liters.Ltx.Merge

/-! # Compaction preserves meaning

The byte-level merge of `compact` over files the encoder produced is the merge of their page queues,
written by an encoder; so its output is a file again, and as a patch it is the merge of the inputs'
patches. `compact_spec` states this for one compaction, `Grouping.compactAll_spec` for any nesting
of compactions, `decodeDatabaseTo_bytes` for the materialisation of a complete file. -/

namespace Liters

variable {c : Codec}

/-! ## Inputs and their queues -/

/-- An input whose buffer is filled: it has the head of its queue buffered, or its queue is empty
and its decoder stands behind the page block. -/
inductive Filled (c : Codec) (f : LtxFile) : Input → Queue → Prop where
  | buffered {read : List Page} {p : Page} {q : Queue} (hsplit : f.pages = read ++ p :: q) :
      Filled c f { dec := f.decAt c (read ++ [p]) q, hdr := some { pgno := p.1 }, data := p.2 }
        (p :: q)
  | done {data : Bytes} (hdata : data.length = f.hdr.pageSize.toNat) :
      Filled c f { dec := .afterBlock c f.hdr f.pages (f.tail c), data, done := true } []

/-- An input that will deliver its queue: filled, or with an empty buffer in front of it. -/
inductive Holds (c : Codec) (f : LtxFile) : Input → Queue → Prop where
  | filled {input : Input} {q : Queue} (h : Filled c f input q) : Holds c f input q
  | unread {read : List Page} {q : Queue} {data : Bytes} (hsplit : f.pages = read ++ q)
      (hdata : data.length = f.hdr.pageSize.toNat) :
      Holds c f { dec := f.decAt c read q, data } q

namespace Filled

variable {f : LtxFile} {input : Input} {q : Queue}

/-- The buffered page header is the head of the queue. -/
theorem hdr_eq (h : Filled c f input q) : input.hdr = q.head?.map fun p => { pgno := p.1 } := by
  cases h with
  | buffered => rfl
  | done => rfl

/-- The buffered content is that of the head of the queue. -/
theorem data_eq {p : Page} (h : Filled c f input (p :: q)) : input.data = p.2 := by
  cases h with
  | buffered => rfl

/-- Emptying the buffer removes the head of the queue. -/
theorem take {p : Page} (h : Filled c f input (p :: q)) :
    Holds c f { input with hdr := none } q := by
  cases h with
  | buffered hsplit =>
      have hp : p ∈ f.pages := by rw [hsplit]; simp
      exact .unread (by rw [hsplit, List.append_assoc]; rfl) (LtxFile.mem_pages hp).2.2.1

end Filled

/-- Filling the buffer of an input that will deliver its queue. -/
theorem fillInput_spec (hc : c.Lawful) {f : LtxFile} {input : Input} {q : Queue}
    (h : Holds c f input q) (i : Nat) :
    ∃ input', Compactor.fillInput c i input = .ok input' ∧ Filled c f input' q := by
  cases h with
  | filled h =>
      refine ⟨input, ?_, h⟩
      cases h with
      | buffered => rfl
      | done => rfl
  | unread hsplit hdata =>
      rename_i read data
      have hguard : (Option.isNone (none : Option PageHeader) && !false) = true := rfl
      cases q with
      | nil =>
          rw [List.append_nil] at hsplit
          refine ⟨_, ?_, .done hdata⟩
          rw [Compactor.fillInput, if_pos hguard]
          simp only [LtxFile.decAt, List.flatMap_nil, List.nil_append, hdata]
          rw [Decoder.decodePage_endMarker, hsplit]
      | cons p q =>
          have hp : p ∈ f.pages := by rw [hsplit]; simp
          obtain ⟨_, -, hok⟩ := f.pagesOk.mem hp
          refine ⟨_, ?_, .buffered hsplit⟩
          rw [Compactor.fillInput, if_pos hguard]
          simp only [LtxFile.decAt, List.flatMap_cons, hdata, List.append_assoc]
          rw [Decoder.decodePage_pageFrame hc hok]

/-- A filled input for every file with its queue. -/
abbrev AllFilled (c : Codec) : List Input → List (LtxFile × Queue) → Prop :=
  List.Forall₂ fun input fq => Filled c fq.1 input fq.2

/-- An input for every file that will deliver its queue. -/
abbrev AllHold (c : Codec) : List Input → List (LtxFile × Queue) → Prop :=
  List.Forall₂ fun input fq => Holds c fq.1 input fq.2

/-- Filling all buffers finds the lowest head. -/
theorem fillPageBuffers_spec (hc : c.Lawful) {inputs : List Input} {fqs : List (LtxFile × Queue)}
    (h : AllHold c inputs fqs) (i m : Nat) :
    ∃ inputs', Compactor.fillPageBuffers c i m inputs
        = .ok (minHead m (fqs.map Prod.snd), inputs') ∧ AllFilled c inputs' fqs := by
  induction h generalizing i m with
  | nil => exact ⟨[], rfl, .nil⟩
  | cons hin _ ih =>
      obtain ⟨input', hfill, hfilled⟩ := fillInput_spec hc hin i
      obtain ⟨inputs', hrest, hall⟩ := ih (i + 1) (Compactor.lowerPgno m input'.hdr)
      refine ⟨input' :: inputs', ?_, .cons hfilled hall⟩
      rw [Compactor.fillPageBuffers, hfill, ok_bind, hrest]
      simp only [ok_bind, pure_eq_ok, List.map_cons, minHead, hfilled.hdr_eq]

/-! ## Writing -/

namespace Encoder

/-- No page leaves the encoder as it is. -/
@[simp] theorem pushPages_nil (e : Encoder) : e.pushPages c [] = e := rfl

/-- Pages are pushed one after the other. -/
theorem pushPages_append (e : Encoder) (ps qs : List Page) :
    e.pushPages c (ps ++ qs) = (e.pushPages c ps).pushPages c qs := by
  rw [pushPages, pushPages, pushPages, List.foldl_append]

/-- Pushing pages keeps the encoder's state. -/
@[simp] theorem pushPages_state (e : Encoder) (ps : List Page) :
    (e.pushPages c ps).state = e.state := (pushPages_spec e ps).2.2.1

/-- It keeps the header. -/
@[simp] theorem pushPages_header (e : Encoder) (ps : List Page) :
    (e.pushPages c ps).header = e.header := (pushPages_spec e ps).2.2.2.1

/-- Pages are accepted in two parts if the second part is accepted behind the first. -/
theorem pagesOk_append (e : Encoder) (ps qs : List Page) :
    PagesOk e.header e.prevPgno (ps ++ qs) ↔
      PagesOk e.header e.prevPgno ps ∧
        PagesOk e.header (e.pushPages c ps).prevPgno qs := by
  induction ps generalizing e with
  | nil => simp [PagesOk]
  | cons p ps ih =>
      have := ih (e.pushPage c p.1 p.2)
      simp only [List.cons_append, PagesOk, and_assoc]
      exact and_congr_right fun _ => this

end Encoder

/-- If a newer queue has the page at its head, the older one does not matter. -/
theorem newestHead_cons_of_some {m : Nat} (q : Queue) {qs : List Queue} {d : Bytes}
    (h : newestHead m qs = some d) : newestHead m (q :: qs) = some d := by
  rw [newestHead, h, Option.some_or]

/-- A queue without the page at its head does not matter. -/
theorem newestHead_cons_of_ne {m : Nat} {q : Queue} (qs : List Queue)
    (h : q.head?.map Prod.fst ≠ some m) : newestHead m (q :: qs) = newestHead m qs := by
  cases q with
  | nil => exact Option.or_none
  | cons p q =>
      have hp : ¬ p.1 = m := by simpa using h
      rw [newestHead, headPage, if_neg hp, Option.or_none]

/-- A queue with another head stays as it is. -/
theorem popHead_of_ne {m : Nat} {q : Queue} (h : q.head?.map Prod.fst ≠ some m) :
    popHead m q = q := by
  cases q with
  | nil => rfl
  | cons p q =>
      have hp : ¬ p.1 = m := by simpa using h
      rw [popHead, if_neg hp]

/-- What a round writes depends on the newest head only. -/
theorem roundPages_congr {commit m : Nat} {qs qs' : List Queue}
    (h : newestHead m qs = newestHead m qs') :
    roundPages commit m qs = roundPages commit m qs' := by
  rw [roundPages, roundPages, h]

/-- One round of the merge writes the round's page and removes it from every queue. -/
theorem writePageBuffer_spec {inputs : List Input} {fqs : List (LtxFile × Queue)}
    (h : AllFilled c inputs fqs) {m : Nat} {enc : Encoder} (hstate : enc.state = .page)
    (hlock : 1 < enc.header.lockPgno)
    (hok : PagesOk enc.header enc.prevPgno
      (roundPages enc.header.commit.toNat m (fqs.map Prod.snd))) :
    ∃ inputs', Compactor.writePageBuffer c m inputs enc
        = .ok (inputs', enc.pushPages c (roundPages enc.header.commit.toNat m (fqs.map Prod.snd)),
            decide (m ≤ enc.header.commit.toNat) && (newestHead m (fqs.map Prod.snd)).isSome) ∧
      AllHold c inputs' (fqs.map fun fq => (fq.1, popHead m fq.2)) := by
  induction h with
  | nil => exact ⟨[], by simp [Compactor.writePageBuffer, newestHead, roundPages], .nil⟩
  | @cons input fq inputs fqs hin _ ih =>
      obtain ⟨f, q⟩ := fq
      simp only [List.map_cons] at hok ⊢
      generalize hqs : fqs.map Prod.snd = qs at hok ih ⊢
      -- what the newer inputs write is accepted: it is what all write, or nothing
      have hoktail : PagesOk enc.header enc.prevPgno
          (roundPages enc.header.commit.toNat m qs) := by
        cases hn : newestHead m qs with
        | some d => rwa [roundPages_congr ((newestHead_cons_of_some q hn).trans hn.symm)] at hok
        | none =>
            rw [roundPages, hn]
            split <;> trivial
      obtain ⟨inputs', hrun, hall⟩ := ih hoktail
      have hhdr : input.hdr.map PageHeader.pgno = q.head?.map Prod.fst := by
        rw [hin.hdr_eq, Option.map_map]
        rfl
      rw [Compactor.writePageBuffer, hrun]
      simp only [ok_bind, hhdr, Encoder.pushPages_header]
      by_cases hhead : q.head?.map Prod.fst = some m
      swap
      · -- another page is buffered here, or none
        refine ⟨input :: inputs', ?_, .cons (by rw [popHead_of_ne hhead]; exact .filled hin) hall⟩
        have hnew := newestHead_cons_of_ne qs hhead
        rw [if_pos hhead, roundPages_congr hnew, hnew]
      rw [if_neg (not_not_intro hhead)]
      cases q with
      | nil => cases hhead
      | cons p q =>
          have hpm : p.1 = m := Option.some.inj hhead
          have hpop : popHead m (p :: q) = q := by rw [popHead, if_pos hpm]
          by_cases hmc : m ≤ enc.header.commit.toNat
          swap
          · -- the page lies behind the commit
            refine ⟨_, ?_, .cons (by rw [hpop]; exact hin.take) hall⟩
            rw [if_pos (Or.inr (Nat.lt_of_not_le hmc)), roundPages, roundPages, if_neg hmc,
              if_neg hmc, decide_eq_false hmc, Bool.false_and, Bool.false_and]
          rw [decide_eq_true hmc, Bool.true_and, Bool.true_and]
          cases hn : newestHead m qs with
          | some d =>
              -- a newer input has written the page
              refine ⟨_, ?_, .cons (by rw [hpop]; exact hin.take) hall⟩
              have hany := newestHead_cons_of_some (p :: q) hn
              have hwritten : (some d).isSome = true ∨ m > enc.header.commit.toNat := Or.inl rfl
              rw [if_pos hwritten, roundPages_congr (hany.trans hn.symm), hany]
          | none =>
              have hany : newestHead m ((p :: q) :: qs) = some p.2 := by
                rw [newestHead, hn, headPage, if_pos hpm, Option.none_or]
              have hround : roundPages enc.header.commit.toNat m ((p :: q) :: qs)
                  = [(m, p.2)] := by
                rw [roundPages, if_pos hmc, hany]
                rfl
              have hempty : roundPages enc.header.commit.toNat m qs = [] := by
                rw [roundPages, if_pos hmc, hn]
                rfl
              rw [hround] at hok
              have henc := (Encoder.encodePage_eq_ok_iff (c := c) (p := (m, p.2)) hstate
                hlock).mpr ⟨hok.1, rfl⟩
              refine ⟨{ input with hdr := none } :: inputs', ?_,
                .cons (by rw [hpop]; exact hin.take) hall⟩
              rw [hround, hempty, hany, Encoder.pushPages_nil,
                if_neg (by simp [hmc]), hin.data_eq, henc]
              rfl

/-! ## The merge loop -/

/-- The inputs once the merge is over: every decoder stands behind its page block. -/
abbrev AllDone (c : Codec) : List Input → List LtxFile → Prop :=
  List.Forall₂ fun input f => input.dec = .afterBlock c f.hdr f.pages (f.tail c)

/-- With empty queues everywhere, filled inputs are done. -/
theorem AllFilled.allDone {inputs : List Input} {fqs : List (LtxFile × Queue)}
    (h : AllFilled c inputs fqs) (hempty : ∀ fq ∈ fqs, fq.2 = []) :
    AllDone c inputs (fqs.map Prod.fst) := by
  induction h with
  | nil => exact .nil
  | @cons input fq inputs fqs hin _ ih =>
      refine .cons ?_ (ih fun a ha => hempty a (List.mem_cons_of_mem _ ha))
      obtain ⟨f, q⟩ := fq
      obtain rfl : q = [] := hempty _ (List.mem_cons_self ..)
      cases hin with
      | done => rfl

/-- The merge loop writes the merge of the queues. -/
theorem mergeLoop_spec (hc : c.Lawful) (fuel : Nat) {inputs : List Input}
    {fqs : List (LtxFile × Queue)} (h : AllHold c inputs fqs) {enc : Encoder}
    (hqs : ∀ q ∈ fqs.map Prod.snd, QueueOk q) (hfuel : pending (fqs.map Prod.snd) < fuel)
    (hstate : enc.state = .page) (hlock : 1 < enc.header.lockPgno)
    (hok : PagesOk enc.header enc.prevPgno
      (mergeQueues enc.header.commit.toNat fuel (fqs.map Prod.snd))) :
    ∃ inputs', Compactor.mergeLoop c fuel inputs enc
        = .ok (inputs', enc.pushPages c
            (mergeQueues enc.header.commit.toNat fuel (fqs.map Prod.snd))) ∧
      AllDone c inputs' (fqs.map Prod.fst) := by
  induction fuel generalizing inputs fqs enc with
  | zero => exact absurd hfuel (Nat.not_lt_zero _)
  | succ fuel ih =>
      obtain ⟨inputs₁, hfill, hfilled⟩ := fillPageBuffers_spec hc h 0 0
      obtain ⟨hle, -, hatt⟩ := minHead_spec (fqs.map Prod.snd) hqs 0
      rw [Compactor.mergeLoop, hfill, ok_bind]
      rw [mergeQueues] at hok ⊢
      by_cases h0 : minHead 0 (fqs.map Prod.snd) = 0
      · refine ⟨inputs₁, by simp [h0], hfilled.allDone fun fq hfq => ?_⟩
        cases hq : fq.2 with
        | nil => rfl
        | cons p q =>
            have := (hle _ (List.mem_map_of_mem hfq) p (by rw [hq]; rfl)).1
            omega
      · obtain ⟨q, hq, p, hp, hpm⟩ := hatt.resolve_left h0
        have hless := pending_map_popHead_lt hq hp hpm
        simp only [h0, if_false] at hok ⊢
        generalize minHead 0 (fqs.map Prod.snd) = m at *
        have hpop : (fqs.map fun fq => (fq.1, popHead m fq.2)).map Prod.snd
            = (fqs.map Prod.snd).map (popHead m) := by
          simp [Function.comp_def]
        have hfst : (fqs.map fun fq => (fq.1, popHead m fq.2)).map Prod.fst
            = fqs.map Prod.fst := by
          simp [Function.comp_def]
        rw [Encoder.pagesOk_append (c := c)] at hok
        obtain ⟨inputs₂, hwrite, hhold⟩ := writePageBuffer_spec hfilled hstate hlock hok.1
        rw [Encoder.pushPages_append, hwrite, ok_bind]
        -- from here on only the header and the state of the encoder matter
        have hstate₁ := (Encoder.pushPages_state (c := c) enc
          (roundPages enc.header.commit.toNat m (fqs.map Prod.snd))).trans hstate
        have hheader₁ := Encoder.pushPages_header (c := c) enc
          (roundPages enc.header.commit.toNat m (fqs.map Prod.snd))
        generalize enc.pushPages c (roundPages enc.header.commit.toNat m (fqs.map Prod.snd))
          = enc₁ at *
        rw [← hheader₁] at hok hlock ⊢
        rw [← hpop] at hok ⊢
        rw [← hfst]
        refine ih hhold ?_ (by rw [hpop]; omega) hstate₁ hlock hok.2
        rw [hpop]
        intro a ha
        obtain ⟨b, hb, rfl⟩ := List.mem_map.mp ha
        exact (hqs b hb).popHead m

/-! ## One compaction -/

/-- `g` may follow `f` in a compaction. -/
def LtxFile.Precedes (f g : LtxFile) : Prop :=
  f.hdr.pageSize = g.hdr.pageSize ∧
    isContiguous f.hdr.maxTxid.toNat g.hdr.minTxid.toNat g.hdr.maxTxid.toNat

/-- The patches of a list of files. -/
def patches (fs : List LtxFile) : List (Patch Bytes) := fs.map LtxFile.patch

/-- Files of one page size have one lock page. -/
theorem LtxFile.lock_eq {f g : LtxFile} (h : f.hdr.pageSize = g.hdr.pageSize) :
    f.lock = g.lock := by
  rw [LtxFile.lock, LtxFile.lock, Header.lockPgno, Header.lockPgno, h]

/-- All files of a chain have the page size of the first. -/
theorem pageSize_eq_of_isChain {f₀ : LtxFile} {fs : List LtxFile}
    (h : (f₀ :: fs).IsChain LtxFile.Precedes) :
    ∀ f ∈ f₀ :: fs, f.hdr.pageSize = f₀.hdr.pageSize := by
  induction fs generalizing f₀ with
  | nil => simp
  | cons g fs ih =>
      rw [List.isChain_cons_cons] at h
      intro f hf
      rcases List.mem_cons.mp hf with rfl | hf
      · rfl
      · rw [ih h.2 f hf, h.1.1]

/-- A chain ends at a transaction its first file does not exceed. -/
theorem maxTxid_le_of_isChain {f₀ : LtxFile} {fs : List LtxFile}
    (h : (f₀ :: fs).IsChain LtxFile.Precedes) :
    f₀.hdr.maxTxid ≤ ((f₀ :: fs).getLast (List.cons_ne_nil _ _)).hdr.maxTxid := by
  induction fs generalizing f₀ with
  | nil => exact UInt64.le_refl _
  | cons g fs ih =>
      rw [List.isChain_cons_cons] at h
      have hlt : f₀.hdr.maxTxid < g.hdr.maxTxid := by
        have := h.1.2
        rw [isContiguous, Bool.and_eq_true, decide_eq_true_eq, decide_eq_true_eq] at this
        exact UInt64.lt_iff_toNat_lt.mpr this.2
      rw [List.getLast_cons (List.cons_ne_nil _ _)]
      exact UInt64.le_trans (UInt64.le_of_lt hlt) (ih h.2)

/-- The compactor opens every file an encoder made. -/
theorem openInputs_bytes (fs : List LtxFile) :
    Compactor.openInputs (fs.map (LtxFile.bytes c))
      = .ok (fs.map fun f => { dec := f.decAt c [] f.pages }) := by
  induction fs with
  | nil => rfl
  | cons f fs ih =>
      have hhead := Decoder.decodeHeader_encode (c := c) f.valid
        (f.pages.flatMap (pageFrame c) ++ (PageHeader.encode {} ++ f.tail c))
      rw [List.map_cons, Compactor.openInputs, LtxFile.bytes_eq, hhead, ok_bind, ih]
      rfl

/-- The compactor accepts exactly the chains. -/
theorem checkInputs_eq_ok_iff {fs : List LtxFile} :
    Compactor.checkInputs false (fs.map LtxFile.hdr) = .ok () ↔ fs.IsChain LtxFile.Precedes := by
  induction fs with
  | nil => exact iff_of_true rfl .nil
  | cons f fs ih =>
      cases fs with
      | nil => exact iff_of_true rfl (.singleton f)
      | cons g fs =>
          rw [List.isChain_cons_cons, ← ih]
          simp only [List.map_cons, Compactor.checkInputs, Compactor.checkPair, bind_eq_ok_iff,
            require_eq_ok_iff]
          simp [LtxFile.Precedes]

/-- What the compactor merges is a chain. -/
theorem isChain_of_compact {flags : UInt32} {fs : List LtxFile} {out : Bytes × Header × Trailer}
    (h : compact c flags false (fs.map (LtxFile.bytes c)) = .ok out) :
    fs.IsChain LtxFile.Precedes := by
  simp only [compact, bind_eq_ok_iff, openInputs_bytes, Except.ok.injEq] at h
  obtain ⟨_, -, inputs, rfl, _, hcheck, -⟩ := h
  rw [List.map_map] at hcheck
  exact checkInputs_eq_ok_iff.mp hcheck

/-- Closing the inputs verifies them; no file without checksum tracking has a post-apply
checksum. -/
theorem closeInputs_allDone {inputs : List Input} {fs : List LtxFile} (h : AllDone c inputs fs)
    (i : Nat) : Compactor.closeInputs c i 0 inputs = .ok 0 := by
  induction h generalizing i with
  | nil => rfl
  | @cons input f inputs fs hin _ ih =>
      rw [Compactor.closeInputs, hin, f.finish_afterBlock]
      exact ih (i + 1)

/-- A file has at least a byte for each of its pages. -/
theorem pending_le_bytes (fs : List LtxFile) :
    pending (fs.map LtxFile.pages) ≤ ((fs.map (LtxFile.bytes c)).map List.length).sum := by
  induction fs with
  | nil => exact le_rfl
  | cons f fs ih =>
      have := f.pages_length_le (c := c)
      simp only [pending, List.map_cons, List.sum_cons] at ih ⊢
      omega

/-- The newest page of the files' queues is the newest page of their patches. -/
theorem newestPage_pages (fs : List LtxFile) (p : Nat) :
    newestPage (fs.map LtxFile.pages) p = newest (patches fs) p := by
  rw [newestPage, newest, patches, List.foldl_map, List.foldl_map]
  rfl

/-- The pages of a file make a queue in order. -/
theorem LtxFile.queueOk (f : LtxFile) : QueueOk f.pages :=
  ⟨fun _ hp => (LtxFile.mem_pages hp).1, f.pages_ascending⟩

/-- The last commit of a chain is the one of its last file. -/
theorem lastCommit_patches {f₀ : LtxFile} {fs : List LtxFile} :
    lastCommit 0 (patches (f₀ :: fs))
      = ((f₀ :: fs).getLast (List.cons_ne_nil _ _)).hdr.commit.toNat := by
  obtain ⟨gs, g, hg⟩ : ∃ gs g, f₀ :: fs = gs ++ [g] :=
    ⟨_, _, (List.dropLast_append_getLast (List.cons_ne_nil f₀ fs)).symm⟩
  simp only [hg, patches, List.map_append, List.map_cons, List.map_nil,
    lastCommit_append_singleton, List.getLast_append_singleton]
  rfl

/-- The header of a compaction's output. -/
def mergedHeader (f₀ : LtxFile) (fs : List LtxFile) : Header :=
  Compactor.outHeader headerFlagNoChecksum f₀.hdr
    ((f₀ :: fs).getLast (List.cons_ne_nil _ _)).hdr

/-- A merged file carries no checksums. -/
theorem mergedHeader_noChecksum (f₀ : LtxFile) (fs : List LtxFile) :
    (mergedHeader f₀ fs).noChecksum := by
  have hflags : (mergedHeader f₀ fs).flags = headerFlagNoChecksum := rfl
  rw [Header.noChecksum, hflags]
  decide

/-- The header of a compaction's output is valid. -/
theorem mergedHeader_valid {f₀ : LtxFile} {fs : List LtxFile}
    (h : (f₀ :: fs).IsChain LtxFile.Precedes) : (mergedHeader f₀ fs).validate = .ok () := by
  have hlast : ((f₀ :: fs).getLast (List.cons_ne_nil _ _)).hdr.PlainOk := LtxFile.plainOk _
  have hfirst := f₀.plainOk
  have hflags : isValidHeaderFlags headerFlagNoChecksum := by decide
  rw [Header.validate_eq_ok_iff (mergedHeader_noChecksum f₀ fs)]
  exact ⟨hflags, hfirst.pageSize, hfirst.minTxid, hlast.maxTxid,
    UInt64.le_trans hfirst.order (maxTxid_le_of_isChain h), Int64.le_refl _, Int64.le_refl _,
    fun _ => ⟨rfl, rfl⟩, fun _ => rfl, hfirst.preApply⟩

/-- The number of rounds the compactor's loop is given: more than there are pages. -/
def mergeFuel (c : Codec) (fs : List LtxFile) : Nat :=
  ((fs.map (LtxFile.bytes c)).map List.length).sum + 1

/-- The pages of a compaction's output. -/
def mergedPages (c : Codec) (f₀ : LtxFile) (fs : List LtxFile) : List Page :=
  mergeQueues (mergedHeader f₀ fs).commit.toNat (mergeFuel c (f₀ :: fs))
    ((f₀ :: fs).map LtxFile.pages)

/-- Every queue of a chain is in order. -/
theorem queueOk_of_mem {fs : List LtxFile} : ∀ q ∈ fs.map LtxFile.pages, QueueOk q := by
  intro q hq
  obtain ⟨f, -, rfl⟩ := List.mem_map.mp hq
  exact f.queueOk

/-- There is fuel for every page. -/
theorem pending_lt_mergeFuel (c : Codec) (fs : List LtxFile) :
    pending (fs.map LtxFile.pages) < mergeFuel c fs :=
  Nat.lt_succ_of_le (pending_le_bytes fs)

/-- A merged file has its pages in order. -/
theorem mergedPages_ascending (c : Codec) (f₀ : LtxFile) (fs : List LtxFile) :
    (mergedPages c f₀ fs).Pairwise (fun a b => a.1 < b.1) :=
  (mergeQueues_spec _ _ _ queueOk_of_mem (pending_lt_mergeFuel c _)).1

/-- The pages of a compaction's output are those of the merged patch. -/
theorem mem_mergedPages_iff {f₀ : LtxFile} {fs : List LtxFile} {p : Nat} {d : Bytes} :
    (p, d) ∈ mergedPages c f₀ fs ↔ (mergeAll (patches (f₀ :: fs))).page? p = some d := by
  have hspec := (mergeQueues_spec (mergedHeader f₀ fs).commit.toNat (mergeFuel c (f₀ :: fs))
    ((f₀ :: fs).map LtxFile.pages) queueOk_of_mem (pending_lt_mergeFuel c _)).2 p d
  have hcommit : (mergedHeader f₀ fs).commit.toNat = lastCommit 0 (patches (f₀ :: fs)) :=
    lastCommit_patches.symm
  rw [hcommit, newestPage_pages] at hspec
  rw [mergedPages, hcommit, hspec]
  simp only [mergeAll]
  by_cases hp : p ≤ lastCommit 0 (patches (f₀ :: fs))
  · simp [hp]
  · simp [hp]

/-- The pages of a compaction's output are accepted behind its header. -/
theorem mergedPages_pagesOk {f₀ : LtxFile} {fs : List LtxFile}
    (hchain : (f₀ :: fs).IsChain LtxFile.Precedes)
    (hsnap : f₀.hdr.isSnapshot → CoversChain f₀.lock 0 (patches (f₀ :: fs))) :
    PagesOk (mergedHeader f₀ fs) 0 (mergedPages c f₀ fs) := by
  have hasc := mergedPages_ascending c f₀ fs
  have hcommit : lastCommit 0 (patches (f₀ :: fs)) = (mergedHeader f₀ fs).commit.toNat :=
    lastCommit_patches
  -- every page written is a page of an input, within the last commit
  have hbounds : ∀ p ∈ mergedPages c f₀ fs, 0 < p.1 ∧ p.1 ≤ (mergedHeader f₀ fs).commit.toNat ∧
      p.2.length = (mergedHeader f₀ fs).pageSize.toNat ∧ p.1 ≠ (mergedHeader f₀ fs).lockPgno := by
    rintro ⟨p, d⟩ hp
    rw [mem_mergedPages_iff] at hp
    simp only [mergeAll, ← newestPage_pages, hcommit] at hp
    by_cases hle : p ≤ (mergedHeader f₀ fs).commit.toNat
    · rw [if_pos hle] at hp
      obtain ⟨q, hq, hd⟩ := newestPage_mem hp
      obtain ⟨f, hf, rfl⟩ := List.mem_map.mp hq
      have hsize := pageSize_eq_of_isChain hchain f hf
      obtain ⟨h1, -, h3, h4⟩ := LtxFile.mem_pages (LtxFile.mem_pages_iff.mpr hd)
      refine ⟨h1, hle, h3.trans (congrArg UInt32.toNat hsize), fun hl => h4 ?_⟩
      rw [LtxFile.lock_eq hsize]
      exact hl
    · rw [if_neg hle] at hp
      cases hp
  by_cases hs : (mergedHeader f₀ fs).isSnapshot
  · refine pagesOk_of_complete hs hasc hbounds (fun p hp => (hbounds p hp).1) fun k hk hkc hkl => ?_
    have hcov := covers_mergeAll (hsnap hs) k hk (hkc.trans hcommit.ge) hkl
    obtain ⟨d, hd⟩ := Option.isSome_iff_exists.mp hcov
    exact ⟨d, mem_mergedPages_iff.mpr hd⟩
  · exact pagesOk_of_ascending (by simpa using hs) hasc hbounds fun p hp => (hbounds p hp).1

/-- A chain whose output, if it is a snapshot, starts from a complete file. -/
structure Compactable (f₀ : LtxFile) (fs : List LtxFile) : Prop where
  chain : (f₀ :: fs).IsChain LtxFile.Precedes
  complete : f₀.hdr.isSnapshot → CoversChain f₀.lock 0 (patches (f₀ :: fs))

/-- The output of a compaction. -/
def mergedFile (c : Codec) (f₀ : LtxFile) (fs : List LtxFile) (h : Compactable f₀ fs) :
    LtxFile where
  hdr := mergedHeader f₀ fs
  pages := mergedPages c f₀ fs
  valid := mergedHeader_valid h.chain
  pagesOk := mergedPages_pagesOk h.chain h.complete
  noChecksum := mergedHeader_noChecksum f₀ fs
  commit_ne_zero := ((f₀ :: fs).getLast (List.cons_ne_nil _ _)).commit_ne_zero

/-- As a patch, the output is the merge of the inputs. -/
theorem mergedFile_patch {f₀ : LtxFile} {fs : List LtxFile} (h : Compactable f₀ fs) :
    (mergedFile c f₀ fs h).patch = mergeAll (patches (f₀ :: fs)) := by
  have hcommit : (mergedFile c f₀ fs h).patch.commit = (mergeAll (patches (f₀ :: fs))).commit :=
    lastCommit_patches.symm
  have hpage : (mergedFile c f₀ fs h).patch.page? = (mergeAll (patches (f₀ :: fs))).page? := by
    funext p
    refine Option.ext fun d => ?_
    rw [← LtxFile.mem_pages_iff, ← mem_mergedPages_iff (c := c)]
    rfl
  calc (mergedFile c f₀ fs h).patch
      = ⟨(mergedFile c f₀ fs h).patch.commit, (mergedFile c f₀ fs h).patch.page?⟩ := rfl
    _ = mergeAll (patches (f₀ :: fs)) := by rw [hcommit, hpage]

/-- **One compaction** of a chain writes the merged file. -/
theorem compact_eq_mergedFile (hc : c.Lawful) {f₀ : LtxFile} {fs : List LtxFile}
    (h : Compactable f₀ fs) :
    compact c headerFlagNoChecksum false ((f₀ :: fs).map (LtxFile.bytes c))
      = .ok ((mergedFile c f₀ fs h).bytes c, mergedHeader f₀ fs,
          (mergedFile c f₀ fs h).trailer c) := by
  have hvalid := mergedHeader_valid h.chain
  have hpagesOk := mergedPages_pagesOk (c := c) h.chain h.complete
  have hsize : ∀ f ∈ f₀ :: fs,
      (List.replicate (mergedHeader f₀ fs).pageSize.toNat (0 : UInt8)).length
        = f.hdr.pageSize.toNat := by
    intro f hf
    rw [List.length_replicate, pageSize_eq_of_isChain h.chain f hf]
    rfl
  have hhold : AllHold c
      ((f₀ :: fs).map fun f =>
        { dec := f.decAt c [] f.pages,
          data := List.replicate (mergedHeader f₀ fs).pageSize.toNat 0 })
      ((f₀ :: fs).map fun f => (f, f.pages)) := by
    refine List.forall₂_map_left_iff.mpr (List.forall₂_map_right_iff.mpr ?_)
    exact List.forall₂_same.mpr fun f hf => .unread rfl (hsize f hf)
  have hsnd : ((f₀ :: fs).map fun f => (f, f.pages)).map Prod.snd = (f₀ :: fs).map LtxFile.pages :=
    List.map_map
  -- the loop leaves the encoder that a direct run over the merged pages has
  obtain ⟨inputs', hloop, hdone⟩ := mergeLoop_spec hc (mergeFuel c (f₀ :: fs)) hhold
    (by rw [hsnd]; exact queueOk_of_mem) (by rw [hsnd]; exact pending_lt_mergeFuel c _)
    (show (Encoder.started (mergedHeader f₀ fs)).state = .page from rfl)
    (Header.one_lt_lockPgno hvalid) (by rw [hsnd]; exact hpagesOk)
  rw [hsnd] at hloop
  have hopen := openInputs_bytes (c := c) (f₀ :: fs)
  have hhdrs : ((f₀ :: fs).map fun f => ({ dec := f.decAt c [] f.pages } : Input)).map
      (fun input => input.dec.header) = (f₀ :: fs).map LtxFile.hdr := List.map_map
  have hlast : ((f₀ :: fs).map LtxFile.hdr).getLastD {}
      = ((f₀ :: fs).getLast (List.cons_ne_nil _ _)).hdr := by
    rw [List.getLastD_eq_getLast?, List.getLast?_map, List.getLast?_eq_some_getLast]
    rfl
  have hbuffers : ((f₀ :: fs).map fun f => ({ dec := f.decAt c [] f.pages } : Input)).map
      (fun input =>
        { input with data := List.replicate (mergedHeader f₀ fs).pageSize.toNat (0 : UInt8) })
      = (f₀ :: fs).map fun f =>
        { dec := f.decAt c [] f.pages,
          data := List.replicate (mergedHeader f₀ fs).pageSize.toNat 0 } := List.map_map
  have hhead : Encoder.encodeHeader {} (mergedHeader f₀ fs) = .ok (.started (mergedHeader f₀ fs)) :=
    Encoder.encodeHeader_eq_ok_iff.mpr ⟨hvalid, rfl⟩
  have hfin := Encoder.finish_of_encodeFile ((mergedFile c f₀ fs h).encodeFile_zero (c := c))
  have hne : (f₀ :: fs).map (LtxFile.bytes c) ≠ [] := by simp
  have hout : Compactor.outHeader headerFlagNoChecksum (((f₀ :: fs).map LtxFile.hdr).headD {})
      (((f₀ :: fs).map LtxFile.hdr).getLastD {}) = mergedHeader f₀ fs := by
    rw [hlast]
    rfl
  rw [compact, require_pos hne, ok_bind, hopen, ok_bind]
  simp only [hhdrs, checkInputs_eq_ok_iff.mpr h.chain, ok_bind, hout, hhead]
  rw [hbuffers, ← mergeFuel, hloop, ok_bind]
  simp only [closeInputs_allDone hdone, ok_bind]
  exact hfin

end Liters
