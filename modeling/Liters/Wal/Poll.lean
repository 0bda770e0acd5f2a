import Liters.Wal.Committed

/-! # Polling at the end of the WAL

A reader that has come to the end of the valid WAL may be asked again, after SQLite has appended a
frame or written over the slot behind it. A short read and a frame of another generation leave the
reader as it was. A frame whose checksum does not match does not: the running checksum has already
moved over it. -/

namespace Liters

/-! ## The checksum runs one to one -/

/-- Over the same words, other checksums lead to other checksums. -/
theorem walChecksumStep_injective (bigEndian : Bool) (b : Bytes) :
    Function.Injective fun s => walChecksumStep bigEndian s b := by
  intro s t h
  unfold walChecksumStep at h
  dsimp only at h
  rw [Prod.mk.injEq] at h
  obtain ⟨hfst, hsnd⟩ := h
  rw [hfst, UInt32.add_left_inj] at hsnd
  rw [hsnd, UInt32.add_left_inj] at hfst
  exact Prod.ext hfst hsnd

/-- The checksum of fixed bytes determines the one it started from. -/
theorem walChecksumLoop_injective (bigEndian : Bool) (n : Nat) (b : Bytes) :
    Function.Injective fun s => walChecksumLoop bigEndian n s b := by
  induction n generalizing b with
  | zero => exact fun _ _ h => h
  | succ n ih => exact fun _ _ h => walChecksumStep_injective bigEndian (b.take 8) (ih (b.drop 8) h)

/-- So it does over all of them. -/
theorem walChecksum_injective (bigEndian : Bool) (b : Bytes) :
    Function.Injective fun s => walChecksum bigEndian s b :=
  walChecksumLoop_injective bigEndian (b.length / 8) b

namespace WalReader

/-- The frame header behind the reader. -/
def nextHdr (rd : WalReader) : Bytes := readAt rd.r rd.nextStart walFrameHeaderSize

/-- The page behind it. -/
def nextData (rd : WalReader) : Bytes := readAt rd.r (rd.nextStart + walFrameHeaderSize) rd.pageSize

/-- Where the running checksum would be behind that frame. -/
def nextChksum (rd : WalReader) : UInt32 × UInt32 :=
  walChecksum rd.bigEndian (walChecksum rd.bigEndian rd.chksum (rd.nextHdr.take 8)) rd.nextData

/-- A complete frame of the reader's generation stands behind the reader. -/
structure FrameThere (rd : WalReader) : Prop where
  hdr : rd.nextHdr.length = walFrameHeaderSize
  data : rd.nextData.length = rd.pageSize
  salt1 : rd.salt1 = beField rd.nextHdr 8
  salt2 : rd.salt2 = beField rd.nextHdr 12

/-- **What `read_frame` does**: nothing where no frame of the generation is there, else the running
checksum moves over the frame, which is returned if that is the checksum it stores. -/
theorem readFrame_cases (rd : WalReader) :
    (¬ rd.FrameThere ∧ rd.readFrame = (none, rd)) ∨
      (rd.FrameThere ∧ rd.nextChksum ≠ storedChecksum rd.nextHdr 16 ∧
        rd.readFrame = (none, { rd with chksum := rd.nextChksum })) ∨
      (rd.FrameThere ∧ rd.nextChksum = storedChecksum rd.nextHdr 16 ∧
        rd.readFrame = (some ⟨beField rd.nextHdr 0, beField rd.nextHdr 4⟩,
          { rd with chksum := rd.nextChksum, frameN := rd.frameN + 1 })) := by
  have hread : rd.readFrame = if rd.nextHdr.length ≠ walFrameHeaderSize then (none, rd)
      else if rd.nextData.length ≠ rd.pageSize then (none, rd)
      else if rd.salt1 ≠ beField rd.nextHdr 8 ∨ rd.salt2 ≠ beField rd.nextHdr 12 then (none, rd)
      else if rd.nextChksum ≠ storedChecksum rd.nextHdr 16 then
        (none, { rd with chksum := rd.nextChksum })
      else (some ⟨beField rd.nextHdr 0, beField rd.nextHdr 4⟩,
        { rd with chksum := rd.nextChksum, frameN := rd.frameN + 1 }) := rfl
  by_cases hhdr : rd.nextHdr.length = walFrameHeaderSize
  · rw [if_neg (not_not.mpr hhdr)] at hread
    by_cases hdata : rd.nextData.length = rd.pageSize
    · rw [if_neg (not_not.mpr hdata)] at hread
      -- salts of an earlier generation
      by_cases hsalts : rd.salt1 ≠ beField rd.nextHdr 8 ∨ rd.salt2 ≠ beField rd.nextHdr 12
      · rw [if_pos hsalts] at hread
        refine .inl ⟨fun h => ?_, hread⟩
        rcases hsalts with hne | hne
        · exact hne h.salt1
        · exact hne h.salt2
      · rw [if_neg hsalts] at hread
        rw [not_or, not_not, not_not] at hsalts
        have hthere : rd.FrameThere := ⟨hhdr, hdata, hsalts.1, hsalts.2⟩
        by_cases hsum : rd.nextChksum = storedChecksum rd.nextHdr 16
        · rw [if_neg (not_not.mpr hsum)] at hread
          exact .inr (.inr ⟨hthere, hsum, hread⟩)
        · -- only here the running checksum is kept although no frame is returned
          rw [if_pos hsum] at hread
          exact .inr (.inl ⟨hthere, hsum, hread⟩)
    · -- the page is not all there
      rw [if_pos hdata] at hread
      exact .inl ⟨fun h => hdata h.data, hread⟩
  · -- neither is its header
    rw [if_pos hhdr] at hread
    exact .inl ⟨fun h => hhdr h.hdr, hread⟩

/-! ## Asking again -/

/-- The reader after so many polls of the same bytes. -/
def polled (rd : WalReader) : Nat → WalReader
  | 0 => rd
  | k + 1 => (rd.polled k).readFrame.2

/-- Coming to the end leaves no trace in a reader: its position and its checksum are what they were,
however often the same bytes are polled nothing comes, and over any other bytes (the file may have
grown or the slot behind the reader may have been written over) it reads what the reader that did
not poll reads. -/
structure Undisturbed (rd : WalReader) : Prop where
  unchanged : rd.readFrame.2.frameN = rd.frameN ∧ rd.readFrame.2.chksum = rd.chksum
  again : ∀ k, (rd.polled k).readFrame.1 = none
  fresh : ∀ k r, ({ rd.polled k with r } : WalReader).readFrame =
    ({ rd with r } : WalReader).readFrame

/-- **The end leaves no trace exactly** if no complete frame of the reader's generation stands
behind it, or the checksum over that frame comes back to the running one. -/
theorem undisturbed_iff {rd : WalReader} (hend : rd.readFrame.1 = none) :
    rd.Undisturbed ↔ ¬ rd.FrameThere ∨ rd.nextChksum = rd.chksum := by
  constructor
  · intro h
    rcases readFrame_cases rd with ⟨hgone, -⟩ | ⟨-, -, hread⟩ | ⟨-, -, hread⟩
    · exact .inl hgone
    · have hsame := h.unchanged.2
      rw [hread] at hsame
      exact .inr hsame
    · rw [hread] at hend
      cases hend
  · intro h
    have hread : rd.readFrame = (none, rd) := by
      rcases readFrame_cases rd with ⟨-, hread⟩ | ⟨hthere, -, hread⟩ | ⟨-, -, hread⟩
      · exact hread
      · rcases h with hgone | hsame
        · exact absurd hthere hgone
        · rw [hread, hsame]
      · rw [hread] at hend
        cases hend
    -- so polling does nothing
    have hpolled : ∀ k, rd.polled k = rd := by
      intro k
      induction k with
      | zero => rfl
      | succ k ih => rw [polled, ih, hread]
    refine ⟨?_, fun k => ?_, fun k r => ?_⟩
    · rw [hread]
      exact ⟨rfl, rfl⟩
    · rw [hpolled, hend]
    · rw [hpolled]

/-- The sample WAL's reader at its end is undisturbed. -/
theorem undisturbed_iff_sampleWal :
    (sampleReader.atSlot 3).readFrame.1 = none ∧ (sampleReader.atSlot 3).Undisturbed := by
  have hend : (sampleReader.atSlot 3).readFrame.1 = none := by decide +kernel
  refine ⟨hend, (undisturbed_iff hend).mpr (.inl fun h => ?_)⟩
  have hshort : (sampleReader.atSlot 3).nextHdr.length ≠ walFrameHeaderSize := by decide +kernel
  exact hshort h.hdr

/-- Once the running checksum has moved, a reader accepts nothing that a fresh one accepts: no valid
next frame is read any more, whatever is written. -/
theorem readFrame_of_moved {rd : WalReader} {chksum : UInt32 × UInt32} (hmoved : chksum ≠ rd.chksum)
    (r : Bytes) {frame : WalFrame} (hfresh : ({ rd with r } : WalReader).readFrame.1 = some frame) :
    ({ rd with r, chksum } : WalReader).readFrame.1 = none := by
  rcases readFrame_cases { rd with r } with ⟨-, hread⟩ | ⟨-, -, hread⟩ | ⟨-, hsum, -⟩
  · rw [hread] at hfresh
    cases hfresh
  · rw [hread] at hfresh
    cases hfresh
  · rcases readFrame_cases { rd with r, chksum } with ⟨-, hread⟩ | ⟨-, -, hread⟩ | ⟨-, hsum', -⟩
    · rw [hread]
    · rw [hread]
    · -- both checksums would end at the stored one
      have hsame : ({ rd with r, chksum } : WalReader).nextChksum =
          ({ rd with r } : WalReader).nextChksum :=
        hsum'.trans hsum.symm
      exact absurd (walChecksum_injective _ _ (walChecksum_injective _ _ hsame)) hmoved

/-- A reader in front of a frame of which the last byte is not written yet. -/
def tornReader : WalReader := { sampleReader.atSlot 2 with r := sampleWal.take 1639 ++ [0] }

/-- A reader that was polled before the frame was complete refuses it afterwards. -/
theorem polled_refuses_frame :
    tornReader.readFrame.1 = none ∧
      ({ tornReader with r := sampleWal } : WalReader).readFrame.1 = some ⟨1, 0⟩ ∧
      ({ tornReader.polled 1 with r := sampleWal } : WalReader).readFrame.1 = none ∧
        ¬ tornReader.Undisturbed := by
  have hfresh : ({ tornReader with r := sampleWal } : WalReader).readFrame.1 = some ⟨1, 0⟩ := by
    decide +kernel
  have hpolled : ({ tornReader.polled 1 with r := sampleWal } : WalReader).readFrame.1 = none := by
    decide +kernel
  refine ⟨by decide +kernel, hfresh, hpolled, fun h => ?_⟩
  have hsame := h.fresh 1 sampleWal
  rw [hsame, hfresh] at hpolled
  cases hpolled

end WalReader

end Liters
