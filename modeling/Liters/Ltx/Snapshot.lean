import Liters.Ltx.RoundTrip

/-! # Finished snapshots

The calls of an encoder in any order, with any of them refused on the way. The page order of a
snapshot is checked page by page, so what was written are the pages from 1 on without a hole;
`finish` does not look how far they go. A finished snapshot is complete exactly if the last page
written is the last page of the database (`finish_covers_iff`). -/

namespace Liters

variable {c : Codec}

/-! ## Runs of encoder calls -/

/-- A call of the encoder before `finish`. -/
inductive EncoderCall where
  | header (hdr : Header)
  | page (pgno : Nat) (data : Bytes)
  | postApply (chksum : UInt64)

namespace Encoder

/-- One call. -/
def call (c : Codec) (e : Encoder) : EncoderCall → Except LtxError Encoder
  | .header hdr => e.encodeHeader hdr
  | .page pgno data => e.encodePage c pgno data
  | .postApply chksum => .ok (e.setPostApplyChecksum chksum)

/-- The encoder after a call: every check comes before the first write, so a call that is refused
leaves it as it was. -/
def afterCall (c : Codec) (e : Encoder) (k : EncoderCall) : Encoder :=
  match e.call c k with
  | .ok e' => e'
  | .error _ => e

/-- The encoder after some calls. -/
def afterCalls (c : Codec) (calls : List EncoderCall) : Encoder := calls.foldl (afterCall c) {}

/-- The page that a call writes. -/
def writes (c : Codec) (e : Encoder) (k : EncoderCall) : List Page :=
  match k, e.call c k with
  | .page pgno data, .ok _ => [(pgno, data)]
  | _, _ => []

/-- The pages that some calls write, in order. -/
def written (c : Codec) : Encoder → List EncoderCall → List Page
  | _, [] => []
  | e, k :: calls => e.writes c k ++ written c (e.afterCall c k) calls

/-- The encoder is at the last page of the database, which comes before the lock page if that is the
last number. -/
def AtEnd (e : Encoder) : Prop :=
  e.prevPgno = if e.header.commit.toNat = e.header.lockPgno then e.header.commit.toNat - 1
    else e.header.commit.toNat

/-- The encoders that calls lead to: no header yet, or behind a valid header and pages in order. -/
inductive Reached (c : Codec) : List Page → Encoder → Prop where
  | fresh (post : UInt64) : Reached c [] { trailer := { postApplyChecksum := post } }
  | started {hdr : Header} {pages : List Page} (post : UInt64) (hv : hdr.validate = .ok ())
      (hpages : PagesOk hdr 0 pages) :
      Reached c pages (((started hdr).pushPages c pages).setPostApplyChecksum post)

/-- The number of the last page. -/
def lastPgno : Nat → List Page → Nat
  | prevPgno, [] => prevPgno
  | _, p :: pages => lastPgno p.1 pages

/-- The encoder remembers the last page it was given. -/
theorem pushPages_prevPgno (e : Encoder) (pages : List Page) :
    (e.pushPages c pages).prevPgno = lastPgno e.prevPgno pages := by
  induction pages generalizing e with
  | nil => rfl
  | cons p pages ih => exact ih (e.pushPage c p.1 p.2)

/-- One more page is pushed last. -/
theorem pushPages_concat (e : Encoder) (pages : List Page) (p : Page) :
    e.pushPages c (pages ++ [p]) = (e.pushPages c pages).pushPage c p.1 p.2 := by
  rw [pushPages, pushPages, List.foldl_append]
  rfl

/-- One more page is accepted behind those before. -/
theorem pagesOk_concat {hdr : Header} {prevPgno : Nat} {pages : List Page} {p : Page}
    (h : PagesOk hdr prevPgno pages) (hp : PageOk hdr (lastPgno prevPgno pages) p) :
    PagesOk hdr prevPgno (pages ++ [p]) := by
  induction pages generalizing prevPgno with
  | nil => exact ⟨hp, trivial⟩
  | cons q pages ih => exact ⟨h.1, ih h.2 hp⟩

/-- A call that is refused. -/
theorem refused {e : Encoder} {k : EncoderCall} {err : LtxError} (h : e.call c k = .error err) :
    e.writes c k = [] ∧ e.afterCall c k = e := by
  unfold writes afterCall
  rw [h]
  cases k with
  | header hdr => exact ⟨rfl, rfl⟩
  | page pgno data => exact ⟨rfl, rfl⟩
  | postApply chksum => exact ⟨rfl, rfl⟩

/-- What an encoder without a header accepts. -/
theorem call_fresh {post : UInt64} {k : EncoderCall} {e' : Encoder}
    (h : call c { trailer := { postApplyChecksum := post } } k = .ok e') :
    (∃ hdr, k = .header hdr ∧ hdr.validate = .ok () ∧
        e' = (started hdr).setPostApplyChecksum post) ∨
      ∃ chksum, k = .postApply chksum ∧ e' = { trailer := { postApplyChecksum := chksum } } := by
  cases k with
  | header hdr =>
      refine .inl ⟨hdr, rfl, ?_⟩
      simp only [call, encodeHeader, bind_eq_ok_iff, require_eq_ok_iff, pure_eq_ok,
        Except.ok.injEq] at h
      obtain ⟨-, -, -, -, u, hv, rfl⟩ := h
      exact ⟨hv, rfl⟩
  | page pgno data =>
      simp only [call, encodePage, bind_eq_ok_iff, require_eq_ok_iff] at h
      obtain ⟨-, -, -, hstate, -⟩ := h
      exact absurd rfl hstate
  | postApply chksum => exact .inr ⟨chksum, rfl, (Except.ok.inj h).symm⟩

/-- What an encoder behind its header accepts. -/
theorem call_started {e e' : Encoder} {k : EncoderCall} (hstate : e.state = .page)
    (hlock : 1 < e.header.lockPgno) (h : e.call c k = .ok e') :
    (∃ pgno data, k = .page pgno data ∧ PageOk e.header e.prevPgno (pgno, data) ∧
        e' = e.pushPage c pgno data) ∨
      ∃ chksum, k = .postApply chksum ∧ e' = e.setPostApplyChecksum chksum := by
  cases k with
  | header hdr =>
      simp only [call, encodeHeader, bind_eq_ok_iff, require_eq_ok_iff] at h
      obtain ⟨-, -, -, hpage, -⟩ := h
      exact absurd hstate hpage
  | page pgno data =>
      obtain ⟨hok, heq⟩ := (encodePage_eq_ok_iff (p := (pgno, data)) hstate hlock).mp h
      exact .inl ⟨pgno, data, rfl, hok, heq⟩
  | postApply chksum => exact .inr ⟨chksum, rfl, (Except.ok.inj h).symm⟩

/-- One call keeps the shape, and adds the page that it writes. -/
theorem Reached.call {pages : List Page} {e : Encoder} (h : Reached c pages e) (k : EncoderCall) :
    Reached c (pages ++ e.writes c k) (e.afterCall c k) := by
  cases hcall : e.call c k with
  -- a refused call changes nothing, and the encoder has written nothing
  | error err =>
      obtain ⟨hwrites, hafter⟩ := refused hcall
      rw [hwrites, hafter, List.append_nil]
      exact h
  | ok e' =>
      have hafter : e.afterCall c k = e' := by
        unfold afterCall
        rw [hcall]
      rw [hafter]
      cases h with
      -- before the header only the header or the checksum can be accepted
      | fresh post =>
          rcases call_fresh hcall with ⟨hdr, rfl, hv, rfl⟩ | ⟨chksum, rfl, rfl⟩
          · exact .started post hv trivial
          · exact .fresh chksum
      -- after it, a page or the checksum
      | @started hdr _ post hv hpages =>
          obtain ⟨-, -, hstate, hheader, -⟩ := pushPages_spec (c := c) (Encoder.started hdr) pages
          have hheader' : ((Encoder.started hdr).pushPages c pages).header = hdr := hheader
          have hprev := pushPages_prevPgno (c := c) (Encoder.started hdr) pages
          have hlock : 1 < ((Encoder.started hdr).pushPages c pages).header.lockPgno := by
            rw [hheader']
            exact Header.one_lt_lockPgno hv
          rcases call_started (e :=
            ((Encoder.started hdr).pushPages c pages).setPostApplyChecksum post)
            hstate hlock hcall with ⟨pgno, data, rfl, hok, rfl⟩ | ⟨chksum, rfl, rfl⟩
          · -- a page goes behind those written
            have hwrites : (((Encoder.started hdr).pushPages c pages).setPostApplyChecksum
                post).writes c
                (.page pgno data) = [(pgno, data)] := by
              unfold writes
              rw [hcall]
            have hpush := pushPages_concat (c := c) (Encoder.started hdr) pages (pgno, data)
            have hok' : PageOk hdr (lastPgno 0 pages) (pgno, data) := by
              have : PageOk ((Encoder.started hdr).pushPages c pages).header
                ((Encoder.started hdr).pushPages c pages).prevPgno (pgno, data) := hok
              rwa [hheader', hprev] at this
            have hstep := Reached.started (c := c) post hv (pagesOk_concat hpages hok')
            rw [hpush] at hstep
            rw [hwrites]
            exact hstep
          · -- the checksum writes no page
            have hwrites : (((Encoder.started hdr).pushPages c pages).setPostApplyChecksum
                post).writes c
                (.postApply chksum) = [] := rfl
            rw [hwrites, List.append_nil]
            exact .started chksum hv hpages

/-- **The encoder after any calls.** -/
theorem reached_afterCalls (c : Codec) (calls : List EncoderCall) :
    Reached c (written c {} calls) (afterCalls c calls) := by
  have hrun : ∀ (calls : List EncoderCall) (pages : List Page) (e : Encoder), Reached c pages e →
      Reached c (pages ++ written c e calls) (calls.foldl (afterCall c) e) := by
    intro calls
    induction calls with
    | nil =>
        intro pages e h
        rw [written, List.append_nil]
        exact h
    | cons k calls ih =>
        intro pages e h
        rw [written, ← List.append_assoc]
        exact ih _ _ (h.call k)
  exact hrun calls [] {} (.fresh 0)

end Encoder

/-! ## How far the pages of a snapshot go -/

open Encoder (lastPgno)

section
variable {hdr : Header} {prevPgno : Nat} {pages : List Page}

/-- The page numbers of a database, without the lock page. -/
def snapshotPgnos (lock commit : Nat) : List Nat := (List.range' 1 commit).filter (· ≠ lock)

/-- The last page number is no smaller than the first. -/
theorem PagesOk.le_lastPgno (h : PagesOk hdr prevPgno pages) :
    prevPgno ≤ lastPgno prevPgno pages := by
  induction pages generalizing prevPgno with
  | nil => exact le_rfl
  | cons p pages ih => exact h.1.seq.lt.le.trans (ih h.2)

/-- The last page is a page of the database. -/
theorem PagesOk.lastPgno_ok (h : PagesOk hdr prevPgno pages) (hprev : prevPgno ≤ hdr.commit.toNat)
    (hlock : prevPgno ≠ hdr.lockPgno) :
    lastPgno prevPgno pages ≤ hdr.commit.toNat ∧ lastPgno prevPgno pages ≠ hdr.lockPgno := by
  induction pages generalizing prevPgno with
  | nil => exact ⟨hprev, hlock⟩
  | cons p pages ih => exact ih h.2 h.1.le_commit h.1.ne_lock

/-- **The pages of a snapshot have no hole.** -/
theorem PagesOk.pgnos (h : PagesOk hdr prevPgno pages) (hs : hdr.isSnapshot) :
    pages.map Prod.fst
      = (List.range' (prevPgno + 1) (lastPgno prevPgno pages - prevPgno)).filter
        (· ≠ hdr.lockPgno) := by
  induction pages generalizing prevPgno with
  | nil => rw [lastPgno, Nat.sub_self, List.range'_zero, List.filter_nil, List.map_nil]
  | cons p pages ih =>
      obtain ⟨hp, hrest⟩ := h
      have hseq : p.1 = nextPgno hdr.lockPgno prevPgno := by
        have := hp.seq
        rwa [SeqOk, if_pos hs] at this
      have hle := hrest.le_lastPgno
      have hne := hp.ne_lock
      rw [List.map_cons, ih hrest, lastPgno]
      generalize lastPgno p.1 pages = last at *
      rw [nextPgno] at hseq
      split at hseq
      · -- the lock page is passed over
        rename_i hlock
        obtain ⟨d, hd⟩ : ∃ d, last - prevPgno = d + 2 := ⟨last - prevPgno - 2, by omega⟩
        have hd' : last - p.1 = d := by omega
        rw [hd, hd', List.range'_succ, List.range'_succ,
          List.filter_cons_of_neg (by simpa using hlock),
          List.filter_cons_of_pos (by simp; omega), hseq]
      · obtain ⟨d, hd⟩ : ∃ d, last - prevPgno = d + 1 := ⟨last - prevPgno - 1, by omega⟩
        have hd' : last - p.1 = d := by omega
        rw [hd, hd', List.range'_succ, List.filter_cons_of_pos (by simp; omega), hseq]

/-- The pages of a snapshot are all pages exactly if the last one is. -/
theorem PagesOk.pgnos_eq_iff (h : PagesOk hdr 0 pages) (hs : hdr.isSnapshot)
    (hlock : 1 < hdr.lockPgno) :
    pages.map Prod.fst = snapshotPgnos hdr.lockPgno hdr.commit.toNat ↔
      lastPgno 0 pages = if hdr.commit.toNat = hdr.lockPgno then hdr.commit.toNat - 1
        else hdr.commit.toNat := by
  obtain ⟨hle, hne⟩ := h.lastPgno_ok (Nat.zero_le _) (by omega)
  rw [h.pgnos hs, snapshotPgnos, Nat.sub_zero, Nat.zero_add]
  generalize lastPgno 0 pages = last at *
  generalize hdr.commit.toNat = commit at *
  generalize hdr.lockPgno = lock at *
  constructor
  · -- all pages are there, so the last one is the last that may be
    intro heq
    have hmem : ∀ p, 1 ≤ p → p ≤ commit → p ≠ lock → p ≤ last := by
      intro p hpos hp hpl
      have hin : p ∈ (List.range' 1 commit).filter (· ≠ lock) :=
        List.mem_filter.mpr ⟨List.mem_range'_1.mpr ⟨hpos, by omega⟩, by simpa using hpl⟩
      rw [← heq] at hin
      have := (List.mem_range'_1.mp (List.mem_filter.mp hin).1).2
      omega
    -- the lock page is left out, also at the very end
    split
    · rename_i hcommit
      have := hmem (commit - 1) (by omega) (by omega) (by omega)
      omega
    · rename_i hcommit
      rcases Nat.eq_zero_or_pos commit with rfl | hpos
      · omega
      · exact le_antisymm hle (hmem commit hpos le_rfl hcommit)
  · -- the pages up to the last one are all that may be
    intro heq
    split at heq
    · rename_i hcommit
      obtain ⟨d, rfl⟩ : ∃ d, commit = d + 1 := ⟨commit - 1, by omega⟩
      obtain rfl : last = d := heq
      rw [List.range'_concat, List.filter_append, List.filter_cons_of_neg (by simpa using by omega),
        List.filter_nil, List.append_nil]
    · rw [heq]

/-- Past the lock page a snapshot goes on as in front of it. -/
theorem PagesOk.skipLock (h : PagesOk hdr prevPgno pages) (hs : hdr.isSnapshot)
    (hlock : prevPgno + 1 = hdr.lockPgno) : PagesOk hdr (prevPgno + 1) pages := by
  cases pages with
  | nil => trivial
  | cons p pages =>
      refine ⟨⟨h.1.pos, h.1.le_commit, h.1.size, h.1.ne_lock, ?_⟩, h.2⟩
      have hseq := h.1.seq
      rw [SeqOk, if_pos hs, nextPgno] at hseq ⊢
      rw [if_pos hlock] at hseq
      rw [if_neg (by omega)]
      exact hseq

/-- Pages that go on to the end of the database. -/
def ToEnd (hdr : Header) (prevPgno : Nat) (pages : List Page) : Prop :=
  lastPgno prevPgno pages = hdr.commit.toNat ∨
    (lastPgno prevPgno pages + 1 = hdr.commit.toNat ∧ hdr.commit.toNat = hdr.lockPgno)

/-- A sequence of pages reaches the end if its last page is the last one beside the lock page. -/
theorem toEnd_zero_iff (h : PagesOk hdr 0 pages) (hlock : 1 < hdr.lockPgno) :
    ToEnd hdr 0 pages ↔ lastPgno 0 pages = if hdr.commit.toNat = hdr.lockPgno
      then hdr.commit.toNat - 1 else hdr.commit.toNat := by
  obtain ⟨hle, hne⟩ := h.lastPgno_ok (Nat.zero_le _) (by omega)
  unfold ToEnd
  split <;> omega

/-- The page loop over the pages of a snapshot behind `prevPgno`: it ends with all pages of the
database, or where the file does. -/
theorem decodeImage_pages (hc : c.Lawful) (hs : hdr.isSnapshot) {count : Nat}
    (h : PagesOk hdr prevPgno pages) (hcount : prevPgno + count = hdr.commit.toNat)
    (before : List Page) (rest w : Bytes) :
    (ToEnd hdr prevPgno pages → ∃ image, image.length = count * hdr.pageSize.toNat ∧
      (Decoder.afterPages c hdr before
          (pages.flatMap (pageFrame c) ++ (PageHeader.encode {} ++ rest))).decodeImage c
            hdr.lockPgno
            hdr.pageSize.toNat count (prevPgno + 1) w
        = .ok (w ++ image, .afterPages c hdr (before ++ pages) (PageHeader.encode {} ++ rest))) ∧
      (¬ ToEnd hdr prevPgno pages → ∃ err,
        (Decoder.afterPages c hdr before
          (pages.flatMap (pageFrame c) ++ (PageHeader.encode {} ++ rest))).decodeImage c
            hdr.lockPgno
            hdr.pageSize.toNat count (prevPgno + 1) w = .error err) := by
  induction count generalizing prevPgno pages before w with
  | zero =>
      -- no page is left, so the end is the one of the commit
      have hnil : pages = [] := by
        cases pages with
        | nil => rfl
        | cons p pages =>
            have hlt := h.1.seq.lt
            have hle := h.1.le_commit
            omega
      subst hnil
      refine ⟨fun _ => ⟨[], by simp, ?_⟩, fun hno => absurd (.inl ?_) hno⟩
      · simp [Decoder.decodeImage]
      · exact hcount
  | succ count ih =>
      by_cases hlock : prevPgno + 1 = hdr.lockPgno
      · -- zeros in the place of the lock page
        have hend : ToEnd hdr prevPgno pages ↔ ToEnd hdr (prevPgno + 1) pages := by
          cases pages with
          | nil =>
              unfold ToEnd
              simp only [lastPgno]
              omega
          | cons p pages => exact Iff.rfl
        obtain ⟨hok, herr⟩ := ih (h.skipLock hs hlock) (by omega) before
          (w ++ List.replicate hdr.pageSize.toNat 0)
        rw [Decoder.decodeImage, if_pos hlock, hend]
        refine ⟨fun hto => ?_, herr⟩
        obtain ⟨image, hlen, hrun⟩ := hok hto
        refine ⟨List.replicate hdr.pageSize.toNat 0 ++ image, ?_, ?_⟩
        · rw [List.length_append, List.length_replicate, hlen, Nat.succ_mul, Nat.add_comm]
        · rw [hrun, List.append_assoc]
      · -- decode_page is asked for page prevPgno + 1
        rw [Decoder.decodeImage, if_neg hlock]
        cases pages with
        -- the end marker comes too early
        | nil =>
            refine ⟨fun hto => ?_, fun _ => ?_⟩
            · exfalso
              unfold ToEnd at hto
              simp only [lastPgno] at hto
              omega
            · rw [List.flatMap_nil, List.nil_append, Decoder.decodePage_endMarker, ok_bind]
              exact ⟨_, rfl⟩
        -- in a snapshot the next page is the one after the last
        | cons p pages =>
            obtain ⟨hp, hrest⟩ := h
            have hseq : p.1 = prevPgno + 1 := by
              have := hp.seq
              rwa [SeqOk, if_pos hs, nextPgno, if_neg hlock] at this
            have hend : ToEnd hdr prevPgno (p :: pages) ↔ ToEnd hdr p.1 pages := Iff.rfl
            obtain ⟨hok, herr⟩ := ih hrest (by omega) (before ++ [p]) (w ++ p.2)
            rw [hseq] at hok herr
            rw [List.flatMap_cons, List.append_assoc, Decoder.decodePage_pageFrame hc hp, ok_bind]
            dsimp only
            rw [require_pos hseq, ok_bind, hend, hseq]
            refine ⟨fun hto => ?_, herr⟩
            obtain ⟨image, hlen, hrun⟩ := hok hto
            refine ⟨p.2 ++ image, ?_, ?_⟩
            · rw [List.length_append, hp.size, hlen, Nat.succ_mul, Nat.add_comm]
            · rw [hrun, List.append_assoc, List.append_assoc, List.singleton_append]

/-- **Which snapshots are materialised.** -/
theorem decodeDatabaseTo_snapshot_iff (hc : c.Lawful) (hv : hdr.validate = .ok ())
    (hs : hdr.isSnapshot) (h : PagesOk hdr 0 pages) {post : UInt64}
    (hpost : ¬ hdr.noChecksum → post = rollingChecksum c pages) :
    (∃ image, decodeDatabaseTo c (fileBytes c hdr pages post) = .ok image ∧
        image.length = hdr.commit.toNat * hdr.pageSize.toNat) ↔ ToEnd hdr 0 pages := by
  have hshape : fileBytes c hdr pages post
      = hdr.encode ++ (pages.flatMap (pageFrame c) ++ (PageHeader.encode {}
        ++ (encodePageIndex (fileIndex c pages) ++ (fileTrailer c hdr pages post).encode))) := by
    simp [fileBytes, fileBody]
  obtain ⟨hok, herr⟩ := decodeImage_pages hc hs h (Nat.zero_add _) []
    (encodePageIndex (fileIndex c pages) ++ (fileTrailer c hdr pages post).encode) []
  rw [hshape, decodeDatabaseTo, Decoder.decodeHeader_encode (c := c) hv, ok_bind]
  have hheader : ∀ r, (Decoder.afterPages c hdr [] r).header = hdr := fun _ => rfl
  simp only [hheader]
  rw [require_pos hs, ok_bind]
  constructor
  · rintro ⟨image, hrun, -⟩
    by_contra hno
    obtain ⟨err, hfail⟩ := herr hno
    rw [hfail] at hrun
    cases hrun
  · intro hto
    obtain ⟨image, hlen, hrun⟩ := hok hto
    refine ⟨image, ?_, hlen⟩
    rw [hrun, ok_bind]
    simp only [List.nil_append, Decoder.decodePage_endMarker, ok_bind,
      Decoder.finish_afterBlock hv h fun _ => hpost, pure_eq_ok]

end

/-! ## Finished snapshots -/

/-- What `finish` returns after some calls is the file of the pages they wrote. -/
theorem Encoder.finish_eq_ok {calls : List EncoderCall} {bytes : Bytes} {hdr : Header}
    {trailer : Trailer} (h : (afterCalls c calls).finish c = .ok (bytes, hdr, trailer)) :
    hdr.validate = .ok () ∧ PagesOk hdr 0 (written c {} calls) ∧
      bytes = fileBytes c hdr (written c {} calls) trailer.postApplyChecksum ∧
      (afterCalls c calls).header = hdr ∧
      (afterCalls c calls).prevPgno = lastPgno 0 (written c {} calls) := by
  have hreached := reached_afterCalls c calls
  generalize written c {} calls = pages at *
  generalize afterCalls c calls = e at *
  cases hreached with
  -- without a header finish refuses
  | fresh post =>
      simp only [finish, bind_eq_ok_iff, require_eq_ok_iff] at h
      obtain ⟨-, -, -, hstate, -⟩ := h
      exact absurd rfl hstate
  -- what was written so far is what encode_file writes at once
  | @started hdr' _ post hv hpages =>
      have hlock := Header.one_lt_lockPgno hv
      have hfile : encodeFile c hdr' pages (some post) = .ok (bytes, hdr, trailer) := by
        rw [encodeFile, encodeHeader_eq_ok_iff.mpr ⟨hv, rfl⟩, ok_bind,
          (encodePages_eq_ok_iff rfl hlock).mpr ⟨hpages, rfl⟩, ok_bind]
        exact h
      have heq := (encodeFile_eq_ok_iff.mp hfile).2.2.2
      have hbytes := congrArg Prod.fst heq
      have hhdr : hdr = hdr' := congrArg (fun r => r.2.1) heq
      have hpost : trailer.postApplyChecksum = post :=
        congrArg (fun r => r.2.2.postApplyChecksum) heq
      have hheader := (pushPages_spec (c := c) (started hdr') pages).2.2.2.1
      rw [hhdr, hpost]
      exact ⟨hv, hpages, hbytes, hheader, pushPages_prevPgno (c := c) (started hdr') pages⟩

/-- **When a finished snapshot covers the database.** For any calls of an encoder after which
`finish` succeeds on a file that starts at transaction 1: the pages written are all pages of the
database without the lock page, in order, exactly if the encoder was at the last of them; and, with
a post-apply checksum that is right if there is one, exactly then the file is materialised to an
image of that many pages. -/
theorem finish_covers_iff (hc : c.Lawful) {calls : List EncoderCall} {bytes : Bytes} {hdr : Header}
    {trailer : Trailer} (hfin : (Encoder.afterCalls c calls).finish c = .ok (bytes, hdr, trailer))
    (hs : hdr.minTxid = 1) :
    ((Encoder.written c {} calls).map Prod.fst = snapshotPgnos hdr.lockPgno hdr.commit.toNat ↔
        (Encoder.afterCalls c calls).AtEnd) ∧
      ((¬ hdr.noChecksum →
          trailer.postApplyChecksum = rollingChecksum c (Encoder.written c {} calls)) →
        ((∃ image, decodeDatabaseTo c bytes = .ok image ∧
            image.length = hdr.commit.toNat * hdr.pageSize.toNat) ↔
          (Encoder.afterCalls c calls).AtEnd)) := by
  obtain ⟨hv, hpages, hbytes, hheader, hprev⟩ := Encoder.finish_eq_ok hfin
  have hlock := Header.one_lt_lockPgno hv
  have hsnap : hdr.isSnapshot := by
    rw [Header.isSnapshot, hs]
    rfl
  have hatEnd : (Encoder.afterCalls c calls).AtEnd ↔ ToEnd hdr 0 (Encoder.written c {} calls) := by
    rw [Encoder.AtEnd, hheader, hprev, toEnd_zero_iff hpages hlock]
  refine ⟨?_, fun hpost => ?_⟩
  · rw [hatEnd, toEnd_zero_iff hpages hlock]
    exact hpages.pgnos_eq_iff hsnap hlock
  · rw [hatEnd, hbytes]
    exact decodeDatabaseTo_snapshot_iff hc hv hsnap hpages hpost

namespace Encoder

/-- The calls that write a file. -/
def callsOf (hdr : Header) (pages : List Page) : List EncoderCall :=
  .header hdr :: pages.map fun p => .page p.1 p.2

/-- Calls that each encode an accepted page write all of them. -/
theorem foldl_afterCall_pages {pages : List Page} {e : Encoder} (hstate : e.state = .page)
    (hlock : 1 < e.header.lockPgno) (h : PagesOk e.header e.prevPgno pages) :
    (pages.map fun p => EncoderCall.page p.1 p.2).foldl (afterCall c) e = e.pushPages c pages ∧
      written c e (pages.map fun p => .page p.1 p.2) = pages := by
  induction pages generalizing e with
  | nil => exact ⟨rfl, rfl⟩
  | cons p pages ih =>
      have hcall : e.call c (.page p.1 p.2) = .ok (e.pushPage c p.1 p.2) :=
        (encodePage_eq_ok_iff hstate hlock).mpr ⟨h.1, rfl⟩
      have hafter : e.afterCall c (.page p.1 p.2) = e.pushPage c p.1 p.2 := by
        unfold afterCall
        rw [hcall]
      have hwrites : e.writes c (.page p.1 p.2) = [p] := by
        unfold writes
        rw [hcall]
      obtain ⟨hrun, hwritten⟩ := ih (e := e.pushPage c p.1 p.2) hstate hlock h.2
      rw [List.map_cons, List.foldl_cons, written, hafter, hwrites, hrun, hwritten]
      exact ⟨rfl, rfl⟩

/-- The calls that write a file do so. -/
theorem afterCalls_callsOf {hdr : Header} {pages : List Page} (hv : hdr.validate = .ok ())
    (h : PagesOk hdr 0 pages) (hfin : FinishOk c hdr pages 0) :
    (afterCalls c (callsOf hdr pages)).finish c
        = .ok (fileBytes c hdr pages 0, hdr, fileTrailer c hdr pages 0) ∧
      written c {} (callsOf hdr pages) = pages := by
  have hlock := Header.one_lt_lockPgno hv
  have hheader : encodeHeader {} hdr = .ok (started hdr) := encodeHeader_eq_ok_iff.mpr ⟨hv, rfl⟩
  have hcall : Encoder.call c {} (.header hdr) = .ok (started hdr) := hheader
  have hafter : Encoder.afterCall c {} (.header hdr) = started hdr := by
    unfold afterCall
    rw [hcall]
  obtain ⟨hrun, hwritten⟩ := foldl_afterCall_pages (c := c) (e := started hdr) rfl hlock h
  have hfile : encodeFile c hdr pages none = .ok _ := encodeFile_eq_ok_iff.mpr ⟨hv, h, hfin, rfl⟩
  rw [encodeFile, hheader, ok_bind, (encodePages_eq_ok_iff rfl hlock).mpr ⟨h, rfl⟩,
    ok_bind] at hfile
  refine ⟨?_, ?_⟩
  · rw [afterCalls, callsOf, List.foldl_cons, hafter, hrun]
    exact hfile
  · rw [callsOf, written, hafter, hwritten]
    rfl

end Encoder

/-- The header of a snapshot of two pages. -/
def twoPageHeader : Header :=
  { flags := headerFlagNoChecksum, pageSize := 512, commit := 2, minTxid := 1, maxTxid := 1,
    timestamp := 1700000000000 }

/-- The header of two pages is valid. -/
theorem twoPageHeader_valid : twoPageHeader.validate = .ok () := by decide

/-- Its commit is not zero. -/
theorem twoPageHeader_commit : twoPageHeader.commit ≠ 0 := by decide

/-- Two sample pages are accepted under it. -/
theorem twoPages_ok {page : Bytes} (h : page.length = 512) :
    PagesOk twoPageHeader 0 [(1, page), (2, page)] := by
  have hcommit : twoPageHeader.commit.toNat = 2 := rfl
  have hlock : twoPageHeader.lockPgno = 2097153 := by decide
  refine ⟨⟨Nat.one_pos, ?_, h, ?_, rfl⟩, ⟨Nat.two_pos, ?_, h, ?_, rfl⟩, trivial⟩
  · rw [hcommit]
    exact Nat.le_succ 1
  · rw [hlock]
    show (1 : Nat) ≠ 2097153
    decide
  · rw [hcommit]
  · rw [hlock]
    show (2 : Nat) ≠ 2097153
    decide

/-- Both pages written: the snapshot is complete, and materialised. -/
theorem finish_covers_iff_twoPages :
    ∃ bytes trailer,
      (Encoder.afterCalls literalCodec (Encoder.callsOf twoPageHeader
        [(1, unrepeatedPage), (2, unrepeatedPage)])).finish literalCodec
          = .ok (bytes, twoPageHeader, trailer) ∧
      (Encoder.written literalCodec {} (Encoder.callsOf twoPageHeader
        [(1, unrepeatedPage), (2, unrepeatedPage)])).map Prod.fst
          = snapshotPgnos twoPageHeader.lockPgno twoPageHeader.commit.toNat ∧
      ∃ image, decodeDatabaseTo literalCodec bytes = .ok image ∧
        image.length = twoPageHeader.commit.toNat * twoPageHeader.pageSize.toNat := by
  have hlength := unrepeatedPage_length
  generalize unrepeatedPage = page at hlength ⊢
  have hpages := twoPages_ok hlength
  obtain ⟨hfin, hwritten⟩ := Encoder.afterCalls_callsOf (c := literalCodec) twoPageHeader_valid
    hpages (finishOk_of_noChecksum _ rfl twoPageHeader_commit)
  have hcovers := finish_covers_iff literalCodec_lawful hfin rfl
  have hpgnos : (Encoder.written literalCodec {} (Encoder.callsOf twoPageHeader
      [(1, page), (2, page)])).map Prod.fst
        = snapshotPgnos twoPageHeader.lockPgno twoPageHeader.commit.toNat := by
    rw [hwritten]
    show [1, 2] = _
    decide
  have hend := hcovers.1.mp hpgnos
  exact ⟨_, _, hfin, hpgnos, (hcovers.2 fun h => absurd rfl h).mpr hend⟩

/-- One of two pages written: the snapshot is finished all the same, and not materialised. -/
theorem finish_incomplete_snapshot :
    ∃ bytes trailer,
      (Encoder.afterCalls literalCodec (Encoder.callsOf twoPageHeader [(1, unrepeatedPage)])).finish
          literalCodec = .ok (bytes, twoPageHeader, trailer) ∧
      twoPageHeader.minTxid = 1 ∧
      (Encoder.written literalCodec {} (Encoder.callsOf twoPageHeader
          [(1, unrepeatedPage)])).map Prod.fst
        ≠ snapshotPgnos twoPageHeader.lockPgno twoPageHeader.commit.toNat ∧
      ¬ ∃ image, decodeDatabaseTo literalCodec bytes = .ok image ∧
        image.length = twoPageHeader.commit.toNat * twoPageHeader.pageSize.toNat := by
  have hlength := unrepeatedPage_length
  generalize unrepeatedPage = page at hlength ⊢
  have hpages : PagesOk twoPageHeader 0 [(1, page)] := ⟨(twoPages_ok hlength).1, trivial⟩
  obtain ⟨hfin, hwritten⟩ := Encoder.afterCalls_callsOf (c := literalCodec) twoPageHeader_valid
    hpages (finishOk_of_noChecksum _ rfl twoPageHeader_commit)
  have hshort : ¬ ToEnd twoPageHeader 0 [(1, page)] := by
    show ¬ (1 = twoPageHeader.commit.toNat ∨ (1 + 1 = twoPageHeader.commit.toNat ∧
      twoPageHeader.commit.toNat = twoPageHeader.lockPgno))
    decide
  refine ⟨_, _, hfin, rfl, ?_, fun h => hshort ?_⟩
  · rw [hwritten]
    show [1] ≠ _
    decide
  · exact (decodeDatabaseTo_snapshot_iff literalCodec_lawful twoPageHeader_valid rfl hpages
      fun h => absurd rfl h).mp h

end Liters
