import Liters.Foundation.Checked
import Liters.Wal.State
import Liters.Writer.Verify

/-! # The arithmetic of the WAL reader

The reader of `reader.rs` once more, with every computation of an offset in `u64` checked and every
loop given as many rounds as the file has bytes. The page size is whatever the WAL header says, and
the file any file: an offset of a file fits in 63 bits. Nothing leaves its range and every loop
ends, so that the reader is the plain one. -/

namespace Liters

namespace Checked

open WalReader

/-- The size of a frame. -/
def frameSize {ε : Type} (pageSize : Nat) : Except (Stop ε) Nat :=
  addU64 walFrameHeaderSize pageSize

/-- Where the next frame starts. -/
def nextStart {ε : Type} (rd : WalReader) (frameSize : Nat) : Except (Stop ε) Nat := do
  let slots ← mulU64 rd.frameN frameSize
  addU64 walHeaderSize slots

/-- `read_frame_inner`. -/
def readFrameInner {ε : Type} (rd : WalReader) (verifyChecksum : Bool) :
    Except (Stop ε) (Option WalFrame × WalReader) := do
  let frameSize ← frameSize rd.pageSize
  let offset ← nextStart rd frameSize
  let hdr := readAt rd.r offset walFrameHeaderSize
  if hdr.length ≠ walFrameHeaderSize then return (none, rd)
  else
    let dataStart ← addU64 offset walFrameHeaderSize
    let data := readAt rd.r dataStart rd.pageSize
    if data.length ≠ rd.pageSize then return (none, rd)
    else if rd.salt1 ≠ beField hdr 8 ∨ rd.salt2 ≠ beField hdr 12 then return (none, rd)
    else
      let chksum :=
        if verifyChecksum then
          walChecksum rd.bigEndian (walChecksum rd.bigEndian rd.chksum (hdr.take 8)) data
        else storedChecksum hdr 16
      if chksum ≠ storedChecksum hdr 16 then return (none, { rd with chksum })
      else
        let frameN ← addU64 rd.frameN 1
        return (some ⟨beField hdr 0, beField hdr 4⟩, { rd with chksum, frameN })

/-- `with_offset`. -/
def withOffset (r : Bytes) (offset salt1 salt2 : Nat) : Except (Stop WalError) WalReader := do
  plain (require (¬ offset ≤ walHeaderSize) (.offsetTooSmall offset))
  let rd ← plain (new r)
  let frameSize ← frameSize rd.pageSize
  let behind ← subU64 offset walHeaderSize
  plain (require (behind % frameSize = 0) (.unalignedOffset offset rd.pageSize))
  let frameN ← subU64 (behind / frameSize) 1
  match ← readFrameInner { rd with salt1, salt2, frameN } false with
  | (some _, rd) => .ok rd
  | (none, _) => .error (.typed .prevFrameMismatch)

/-- `offset`. -/
def offset {ε : Type} (rd : WalReader) : Except (Stop ε) Nat :=
  if rd.frameN = 0 then .ok 0
  else do
    let before ← subU64 rd.frameN 1
    let frameSize ← frameSize rd.pageSize
    let slots ← mulU64 before frameSize
    addU64 walHeaderSize slots

/-- The loop of `page_map_until`, of which the rounds left may not be used up. -/
def scanLoop {ε : Type} (endOffset frameSize : Nat) :
    Nat → WalReader → Scan → Except (Stop ε) (Scan × WalReader)
  | 0, _, _ => .error (.fault .endless)
  | fuel + 1, rd, s => do
      let start ← nextStart rd frameSize
      if endOffset ≤ start then return (s, rd)
      else
        match ← readFrameInner rd true with
        | (none, rd) => return (s, rd)
        | (some frame, rd) => do
            let start ← offset rd
            scanLoop endOffset frameSize fuel rd (s.frame frame start)

/-- What `page_map_until` makes of a finished scan. -/
def finishScan {ε : Type} (s : Scan) (pageSize : Nat) : Except (Stop ε) PageMap :=
  let m := s.m.filterKeys fun pgno => pgno ≤ s.commit
  if m.entries = [] then .ok {}
  else do
    let hdrEnd ← addU64 (maxValue m) walFrameHeaderSize
    let maxOffset ← addU64 hdrEnd pageSize
    return { pages := m, maxOffset, commit := s.commit }

/-- `page_map`. -/
def pageMap {ε : Type} (rd : WalReader) : Except (Stop ε) PageMap := do
  let frameSize ← frameSize rd.pageSize
  let (s, _) ← scanLoop maxOffset frameSize (rd.r.length + 1) rd {}
  finishScan s rd.pageSize

/-- The loop of `frame_salts_until`. -/
def frameSaltsLoop {ε : Type} (rd : WalReader) (until' : Nat × Nat) (frameSize : Nat) :
    Nat → Nat → List (Nat × Nat) → Except (Stop ε) (List (Nat × Nat))
  | 0, _, _ => .error (.fault .endless)
  | fuel + 1, offset, m =>
      let hdr := readAt rd.r offset walFrameHeaderSize
      if hdr.length ≠ walFrameHeaderSize then .ok m
      else if saltsAt hdr 8 = until' then .ok (saltsAt hdr 8 :: m)
      else do
        let offset ← addU64 offset frameSize
        frameSaltsLoop rd until' frameSize fuel offset (saltsAt hdr 8 :: m)

/-- `frame_salts_until`. -/
def frameSaltsUntil {ε : Type} (rd : WalReader) (until' : Nat × Nat) :
    Except (Stop ε) (List (Nat × Nat)) := do
  let frameSize ← frameSize rd.pageSize
  frameSaltsLoop rd until' frameSize (rd.r.length + 1) walHeaderSize []

/-! ## Nothing leaves its range -/

section
variable {ε : Type}

/-- A reader over a file, with the next frame to be read not behind its end. -/
structure Within (rd : WalReader) : Prop where
  length : rd.r.length < 2 ^ 63
  pageSize : rd.pageSize < 2 ^ 32
  start : rd.nextStart ≤ rd.r.length

/-- The size of a frame does not overflow. -/
theorem frameSize_eq {rd : WalReader} (hpage : rd.pageSize < 2 ^ 32) :
    (frameSize rd.pageSize : Except (Stop ε) Nat) = .ok rd.frameSize :=
  addU64_eq (by
    rw [walFrameHeaderSize]
    omega)

/-- The start of the next frame does not overflow. -/
theorem nextStart_eq {rd : WalReader} (hstart : rd.nextStart < 2 ^ 63) :
    (nextStart rd rd.frameSize : Except (Stop ε) Nat) = .ok rd.nextStart := by
  have hle : rd.frameN * rd.frameSize ≤ rd.nextStart := Nat.le_add_left _ _
  rw [nextStart, mulU64_eq (by omega), ok_bind]
  exact addU64_eq (Nat.lt_trans hstart (by decide))

/-- The slots before an offset are fewer than its bytes. -/
theorem frameN_le_nextStart (rd : WalReader) : rd.frameN ≤ rd.nextStart := by
  have hmul : rd.frameN * 1 ≤ rd.frameN * rd.frameSize := Nat.mul_le_mul_left _ frameSize_pos
  rw [WalReader.nextStart]
  omega

/-- **Reading a frame** of a WAL within 63 bits does not overflow. -/
theorem readFrameInner_eq {rd : WalReader} (hpage : rd.pageSize < 2 ^ 32)
    (hstart : rd.nextStart < 2 ^ 63) (verifyChecksum : Bool) :
    (readFrameInner rd verifyChecksum : Except (Stop ε) _) =
      .ok (rd.readFrameInner verifyChecksum) := by
  have hdata : rd.nextStart + walFrameHeaderSize < 2 ^ 64 := by
    rw [walFrameHeaderSize]
    omega
  have hcount : rd.frameN + 1 < 2 ^ 64 := by
    have := frameN_le_nextStart rd
    omega
  rw [readFrameInner, frameSize_eq hpage, ok_bind, nextStart_eq hstart, ok_bind,
    WalReader.readFrameInner]
  dsimp only
  split
  · rfl
  rw [addU64_eq hdata, ok_bind]
  split
  · rfl
  split
  · rfl
  generalize (if verifyChecksum = true then _ else _ : UInt32 × UInt32) = chksum
  split
  · rfl
  rw [addU64_eq hcount, ok_bind]
  rfl

/-- What is known of a frame that was read: it lies within the file, and the reader stands behind
it. -/
structure Advanced (rd : WalReader) (frame : WalFrame) (rd' : WalReader) : Prop where
  r : rd'.r = rd.r
  pageSize : rd'.pageSize = rd.pageSize
  frameN : rd'.frameN = rd.frameN + 1
  start : rd'.nextStart = rd.nextStart + rd.frameSize
  within : rd.nextStart + rd.frameSize ≤ rd.r.length
  pgno : frame.pgno < 2 ^ 32
  commit : frame.commit < 2 ^ 32

/-- A frame that is read moves the reader behind it. -/
theorem advanced_of_readFrameInner {rd rd' : WalReader} {verifyChecksum : Bool} {frame : WalFrame}
    (h : rd.readFrameInner verifyChecksum = (some frame, rd')) : Advanced rd frame rd' := by
  unfold WalReader.readFrameInner at h
  dsimp only at h
  split at h
  · cases h
  rename_i hhdr
  split at h
  · cases h
  rename_i hdata
  split at h
  · cases h
  generalize (if verifyChecksum = true then _ else _ : UInt32 × UInt32) = chksum at h
  split at h
  · cases h
  cases h
  have hwithin : rd.nextStart + rd.frameSize ≤ rd.r.length := by
    rw [not_not, readAt_length, walFrameHeaderSize] at hhdr
    rw [not_not, readAt_length, walFrameHeaderSize] at hdata
    rw [WalReader.frameSize, walFrameHeaderSize]
    omega
  refine ⟨rfl, rfl, rfl, ?_, hwithin, beField_lt _ _, beField_lt _ _⟩
  show walHeaderSize + (rd.frameN + 1) * rd.frameSize =
    walHeaderSize + rd.frameN * rd.frameSize + rd.frameSize
  rw [Nat.succ_mul, Nat.add_assoc]

/-- A reader at the top of a file. -/
theorem within_of_new {wal : Bytes} {rd : WalReader} (hlen : wal.length < 2 ^ 63)
    (h : new wal = .ok rd) :
    Within rd := by
  have hr := r_of_new h
  unfold new at h
  obtain ⟨_, hshort, h⟩ := bind_eq_ok_iff.mp h
  obtain ⟨bigEndian, -, h⟩ := bind_eq_ok_iff.mp h
  obtain ⟨_, -, h⟩ := bind_eq_ok_iff.mp h
  obtain ⟨_, -, h⟩ := bind_eq_ok_iff.mp h
  cases h
  refine ⟨hlen, beField_lt _ _, ?_⟩
  rw [require_eq_ok_iff, readAt_length, walHeaderSize] at hshort
  show walHeaderSize + 0 * _ ≤ wal.length
  rw [walHeaderSize]
  omega

/-- A reader behind a frame that was read. -/
theorem Advanced.within_next {rd rd' : WalReader} {frame : WalFrame} (h : Advanced rd frame rd')
    (hlen : rd.r.length < 2 ^ 63) (hpage : rd.pageSize < 2 ^ 32) : Within rd' := by
  refine ⟨h.r ▸ hlen, h.pageSize ▸ hpage, ?_⟩
  rw [h.start, h.r]
  exact h.within

/-- Opening a reader in the middle of a WAL does not overflow. -/
theorem withOffset_eq {wal : Bytes} {offset salt1 salt2 : Nat} (hlen : wal.length < 2 ^ 63)
    (hoffset : offset < 2 ^ 63) :
    withOffset wal offset salt1 salt2 = plain (WalReader.withOffset wal offset salt1 salt2) := by
  rw [withOffset, WalReader.withOffset]
  -- an offset inside the header is refused by both
  by_cases hlow : offset ≤ walHeaderSize
  · rw [require_neg (not_not.mpr hlow)]
    rfl
  rw [require_pos hlow, plain_ok, ok_bind, ok_bind]
  cases hnew : new wal with
  | error e => rfl
  -- with a header read, every product and difference stays below 2^63
  | ok rd =>
      have hwithin := within_of_new hlen hnew
      rw [plain_ok, ok_bind, ok_bind, frameSize_eq hwithin.pageSize, ok_bind, subU64_eq (by omega),
        ok_bind]
      by_cases haligned : (offset - walHeaderSize) % rd.frameSize = 0
      · -- there is a whole frame in front of the offset
        obtain ⟨k, hk⟩ := Nat.dvd_of_mod_eq_zero haligned
        have hpos : 0 < rd.frameSize := frameSize_pos
        have hdiv : (offset - walHeaderSize) / rd.frameSize = k := by
          rw [hk, Nat.mul_div_cancel_left _ hpos]
        have hk0 : 1 ≤ k := by
          by_contra hzero
          have hzero' : k = 0 := by omega
          rw [hzero', Nat.mul_zero] at hk
          omega
        rw [require_pos haligned, plain_ok, ok_bind, ok_bind, hdiv, subU64_eq hk0, ok_bind]
        have hstart : ({ rd with salt1, salt2, frameN := k - 1 } : WalReader).nextStart <
            2 ^ 63 := by
          have hle : (k - 1) * rd.frameSize ≤ k * rd.frameSize :=
            Nat.mul_le_mul_right _ (Nat.sub_le _ _)
          rw [Nat.mul_comm k] at hle
          show walHeaderSize + (k - 1) * rd.frameSize < 2 ^ 63
          omega
        rw [@readFrameInner_eq _ { rd with salt1, salt2, frameN := k - 1 } hwithin.pageSize hstart,
          ok_bind]
        dsimp only
        generalize WalReader.readFrameInner _ false = read
        obtain ⟨frame, rd'⟩ := read
        cases frame with
        | none => rfl
        | some frame => rfl
      · -- an offset between frames is refused by both
        rw [require_neg haligned]
        rfl

/-- A reader that resumed stands behind a frame. -/
theorem within_of_withOffset {wal : Bytes} {rd : WalReader} {offset salt1 salt2 : Nat}
    (hlen : wal.length < 2 ^ 63) (h : WalReader.withOffset wal offset salt1 salt2 = .ok rd) :
    Within rd := by
  unfold WalReader.withOffset at h
  obtain ⟨_, -, h⟩ := bind_eq_ok_iff.mp h
  obtain ⟨rd0, hnew, h⟩ := bind_eq_ok_iff.mp h
  obtain ⟨_, -, h⟩ := bind_eq_ok_iff.mp h
  have hwithin := within_of_new hlen hnew
  dsimp only at h
  split at h
  · rename_i frame rd' hread
    cases h
    exact (advanced_of_readFrameInner hread).within_next hwithin.length hwithin.pageSize
  · cases h

/-- The offset of a reader within its WAL does not overflow. -/
theorem offset_eq {rd : WalReader} (h : Within rd) :
    (offset rd : Except (Stop ε) Nat) = .ok rd.offset := by
  have hlen := h.length
  have hstart := h.start
  rw [offset, WalReader.offset]
  split
  · rfl
  rename_i hpos
  have hle : (rd.frameN - 1) * rd.frameSize ≤ rd.frameN * rd.frameSize :=
    Nat.mul_le_mul_right _ (Nat.sub_le _ _)
  have hnext : walHeaderSize + rd.frameN * rd.frameSize = rd.nextStart := rfl
  rw [subU64_eq (by omega), ok_bind, frameSize_eq h.pageSize, ok_bind, mulU64_eq (by omega),
    ok_bind]
  exact addU64_eq (by omega)

/-- The offsets of a scan are those of frames within the file, and its size has 32 bits. -/
structure ScanWithin (rd : WalReader) (s : Scan) : Prop where
  m : ∀ p v, s.m.find? p = some v → v + rd.frameSize ≤ rd.r.length
  txMap : ∀ p v, s.txMap.find? p = some v → v + rd.frameSize ≤ rd.r.length
  commit : s.commit < 2 ^ 32

/-- One more frame keeps the scan within the WAL. -/
theorem ScanWithin.frame {rd rd' : WalReader} {s : Scan} {frame : WalFrame} (h : ScanWithin rd s)
    (hadv : Advanced rd frame rd') : ScanWithin rd' (s.frame frame rd'.offset) := by
  -- the frame just read lies inside the WAL
  have hoffset : rd'.offset = rd.nextStart := by
    rw [WalReader.offset, hadv.frameN, if_neg (Nat.succ_ne_zero _), Nat.add_sub_cancel,
      WalReader.frameSize, hadv.pageSize]
    rfl
  have hframe : rd'.frameSize = rd.frameSize := by
    rw [WalReader.frameSize, hadv.pageSize]
    rfl
  have htx : ∀ p v, (s.txMap.insert frame.pgno rd'.offset).find? p = some v →
      v + rd'.frameSize ≤ rd'.r.length := by
    intro p v hfind
    rw [SortedMap.find?_insert] at hfind
    rw [hframe, hadv.r]
    split at hfind
    · cases hfind
      rw [hoffset]
      exact hadv.within
    · exact h.txMap p v hfind
  unfold Scan.frame
  dsimp only
  -- at a commit the pages of the transaction go over into the map
  split
  · refine ⟨fun p v hfind => ?_, htx, hadv.commit⟩
    rw [SortedMap.find?_insertAll] at hfind
    rcases Option.or_eq_some_iff.mp hfind with hnew | ⟨-, hold⟩
    · exact htx p v hnew
    · rw [hframe, hadv.r]
      exact h.m p v hold
  · refine ⟨fun p v hfind => ?_, htx, h.commit⟩
    rw [hframe, hadv.r]
    exact h.m p v hfind

/-- The bound depends on the WAL and the page size only. -/
theorem ScanWithin.congr {rd rd' : WalReader} {s : Scan} (h : ScanWithin rd' s) (hr : rd'.r = rd.r)
    (hpage : rd'.pageSize = rd.pageSize) : ScanWithin rd s := by
  have hframe : rd'.frameSize = rd.frameSize := by
    rw [WalReader.frameSize, hpage]
    rfl
  exact ⟨by rw [← hr, ← hframe]; exact h.m, by rw [← hr, ← hframe]; exact h.txMap, h.commit⟩

/-- The scan ends before its rounds are used up: every round moves a frame on in the file. -/
theorem scanLoop_eq {endOffset fuel : Nat} {rd : WalReader} {s : Scan} (h : Within rd)
    (hs : ScanWithin rd s) (hfuel : rd.r.length - rd.nextStart < fuel) :
    (scanLoop endOffset rd.frameSize fuel rd s : Except (Stop ε) _) =
      .ok (WalReader.scanLoop endOffset fuel rd s) ∧
      ScanWithin rd (WalReader.scanLoop endOffset fuel rd s).1 := by
  induction fuel generalizing rd s with
  | zero => exact absurd hfuel (Nat.not_lt_zero _)
  | succ fuel ih =>
      have hstart : rd.nextStart < 2 ^ 63 := Nat.lt_of_le_of_lt h.start h.length
      -- both loops look at the same position
      rw [scanLoop, WalReader.scanLoop, nextStart_eq hstart, ok_bind]
      split
      · exact ⟨rfl, hs⟩
      rw [readFrameInner_eq h.pageSize hstart, ok_bind, readFrame]
      generalize hread : rd.readFrameInner true = read
      obtain ⟨frame, rd'⟩ := read
      cases frame with
      -- no frame: both end
      | none => exact ⟨rfl, hs⟩
      -- a frame: the reader moves on by one, and less of the WAL is left
      | some frame =>
          have hadv := advanced_of_readFrameInner hread
          have hnext := hadv.within_next h.length h.pageSize
          have hframe : rd'.frameSize = rd.frameSize := by
            rw [WalReader.frameSize, hadv.pageSize]
            rfl
          have hpos : 0 < rd.frameSize := frameSize_pos
          have hwithin := hadv.within
          have hfuel' : rd'.r.length - rd'.nextStart < fuel := by
            rw [hadv.r, hadv.start]
            omega
          obtain ⟨heq, hscan⟩ := ih hnext (hs.frame hadv) hfuel'
          dsimp only
          rw [offset_eq hnext, ok_bind, ← hframe]
          exact ⟨heq, hscan.congr hadv.r hadv.pageSize⟩

/-- A bound on every value bounds the largest. -/
theorem maxValue_le {m : SortedMap Nat} {bound : Nat} (h : ∀ p v, m.find? p = some v → v ≤ bound) :
    maxValue m ≤ bound := by
  have hfold : ∀ (l : List Nat) (a : Nat), a ≤ bound → (∀ v ∈ l, v ≤ bound) →
      l.foldl max a ≤ bound := by
    intro l
    induction l with
    | nil => exact fun _ ha _ => ha
    | cons v l ih =>
        intro a ha hl
        exact ih _ (Nat.max_le.mpr ⟨ha, hl v List.mem_cons_self⟩) fun w hw =>
          hl w (List.mem_cons_of_mem _ hw)
  refine hfold _ 0 (Nat.zero_le _) fun v hv => ?_
  obtain ⟨⟨p, v'⟩, hmem, rfl⟩ := List.mem_map.mp hv
  exact h p v' (SortedMap.mem_entries_iff.mp hmem)

/-- What is known of a page map: its frames and its end lie within the file. -/
structure MapWithin (rd : WalReader) (pm : PageMap) : Prop where
  pages : ∀ p v, pm.pages.find? p = some v → v + rd.frameSize ≤ rd.r.length
  maxOffset : pm.maxOffset ≤ rd.r.length
  commit : pm.commit < 2 ^ 32

/-- The end of a scan does not overflow. -/
theorem finishScan_eq {rd : WalReader} {s : Scan} (hlen : rd.r.length < 2 ^ 63)
    (hs : ScanWithin rd s) :
    (finishScan s rd.pageSize : Except (Stop ε) _) = .ok (s.pageMap rd.frameSize) ∧
      MapWithin rd (s.pageMap rd.frameSize) := by
  have hfind : ∀ p v, (s.m.filterKeys fun pgno => decide (pgno ≤ s.commit)).find? p = some v →
      v + rd.frameSize ≤ rd.r.length := by
    intro p v hp
    rw [SortedMap.find?_filterKeys] at hp
    split at hp
    · exact hs.m p v hp
    · cases hp
  rw [finishScan, Scan.pageMap]
  split
  · exact ⟨rfl, (fun p v hp => by cases hp), Nat.zero_le _, by decide⟩
  · rename_i hne
    -- a map with an entry ends within the file
    obtain ⟨⟨p, v⟩, hmem⟩ := List.exists_mem_of_ne_nil _ hne
    have hfit := hfind p v (SortedMap.mem_entries_iff.mp hmem)
    have hmax : maxValue (s.m.filterKeys fun pgno => decide (pgno ≤ s.commit)) ≤
        rd.r.length - rd.frameSize :=
      maxValue_le fun p' v' hp' => by
        have := hfind p' v' hp'
        omega
    have hframe : rd.frameSize = walFrameHeaderSize + rd.pageSize := rfl
    rw [addU64_eq (by omega), ok_bind, addU64_eq (by omega), ok_bind, Nat.add_assoc, ← hframe]
    exact ⟨rfl, hfind, by dsimp only; omega, hs.commit⟩

/-- **The page map of a file** is what the plain reader finds. -/
theorem pageMap_eq {rd : WalReader} (h : Within rd) :
    (pageMap rd : Except (Stop ε) _) = .ok rd.pageMap.1 ∧ MapWithin rd rd.pageMap.1 := by
  have hscan : ScanWithin rd {} :=
    ⟨(fun p v hp => by cases hp), (fun p v hp => by cases hp), by decide⟩
  obtain ⟨heq, hwithin⟩ := @scanLoop_eq ε maxOffset (rd.r.length + 1) rd {} h hscan (by omega)
  rw [pageMap, frameSize_eq h.pageSize, ok_bind, heq, ok_bind]
  exact finishScan_eq h.length hwithin

/-- The scan of the salts ends, too. -/
theorem frameSaltsLoop_eq {rd : WalReader} {until' : Nat × Nat} {fuel offset : Nat}
    {m : List (Nat × Nat)} (hlen : rd.r.length < 2 ^ 63) (hpage : rd.pageSize < 2 ^ 32)
    (hfuel : rd.r.length + 1 - offset ≤ fuel)
    (hpos : 0 < fuel) :
    (frameSaltsLoop rd until' rd.frameSize fuel offset m : Except (Stop ε) _)
      = .ok (rd.frameSaltsLoop until' fuel offset m) := by
  induction fuel generalizing offset m with
  | zero => exact absurd hpos (Nat.lt_irrefl 0)
  | succ fuel ih =>
      rw [frameSaltsLoop, WalReader.frameSaltsLoop]
      split
      · rfl
      rename_i hhdr
      rw [not_not, readAt_length, walFrameHeaderSize] at hhdr
      split
      · rfl
      have hframe : rd.frameSize = 24 + rd.pageSize := rfl
      rw [addU64_eq (by omega), ok_bind]
      exact ih (by omega) (by omega)

/-- The scan for salts does not overflow. -/
theorem frameSaltsUntil_eq {rd : WalReader} (hlen : rd.r.length < 2 ^ 63)
    (hpage : rd.pageSize < 2 ^ 32) (until' : Nat × Nat) :
    (frameSaltsUntil rd until' : Except (Stop ε) _) = .ok (rd.frameSaltsUntil until') := by
  rw [frameSaltsUntil, frameSize_eq hpage, ok_bind]
  exact frameSaltsLoop_eq hlen hpage (by omega) (Nat.succ_pos _)

end

end Checked

end Liters
