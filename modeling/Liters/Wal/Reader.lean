import Liters.Foundation.Bytes
import Liters.Foundation.Result
import Liters.Foundation.SortedMap

/-! # The WAL reader

The reader over a live `-wal` file (`reader.rs`, and `wal_checksum` of `lib.rs`): the header, frames
whose salts and cumulative checksum are verified, the map of the committed pages, and resuming at an
offset. The file is a byte string, of which a positioned read returns fewer bytes than asked for at
the end. -/

namespace Liters

/-- Size of the WAL file header. -/
def walHeaderSize : Nat := 32

/-- Size of a WAL frame header. -/
def walFrameHeaderSize : Nat := 24

/-- WAL magic for little-endian checksum words. -/
def walMagicLe : Nat := 0x377F0682

/-- WAL magic for big-endian checksum words. -/
def walMagicBe : Nat := 0x377F0683

/-- The only supported WAL format version. -/
def walVersion : Nat := 3007000

/-- One step of the checksum, over two words. -/
def walChecksumStep (bigEndian : Bool) (s : UInt32 × UInt32) (b : Bytes) : UInt32 × UInt32 :=
  let word := fun w => UInt32.ofNat (if bigEndian then beNat w else leNat w)
  let s0 := s.1 + (word (b.take 4) + s.2)
  (s0, s.2 + (word (b.drop 4) + s0))

/-- The running checksum over so many eight-byte chunks. -/
def walChecksumLoop (bigEndian : Bool) : Nat → UInt32 × UInt32 → Bytes → UInt32 × UInt32
  | 0, s, _ => s
  | n + 1, s, b => walChecksumLoop bigEndian n (walChecksumStep bigEndian s (b.take 8)) (b.drop 8)

/-- `wal_checksum`, over the whole eight-byte chunks of a byte string. -/
def walChecksum (bigEndian : Bool) (s : UInt32 × UInt32) (b : Bytes) : UInt32 × UInt32 :=
  walChecksumLoop bigEndian (b.length / 8) s b

/-- Errors of the WAL reader. -/
inductive WalError where
  | emptyWal
  | invalidMagic (magic : Nat)
  | unsupportedVersion (version : Nat)
  | unalignedOffset (offset pageSize : Nat)
  | offsetTooSmall (offset : Nat)
  | prevFrameMismatch
deriving DecidableEq

/-- A decoded frame header. -/
structure WalFrame where
  pgno : Nat
  /-- Database size in pages if this is a commit frame, else zero. -/
  commit : Nat
deriving DecidableEq

/-- The committed pages of a WAL: where the latest frame of each starts, the end of the last
committed frame, and the size of the database. -/
@[ext]
structure PageMap where
  pages : SortedMap Nat := .empty
  maxOffset : Nat := 0
  commit : Nat := 0
deriving DecidableEq

/-- A verifying reader over a WAL file. -/
structure WalReader where
  r : Bytes
  frameN : Nat := 0
  bigEndian : Bool := false
  pageSize : Nat := 0
  seq : Nat := 0
  salt1 : Nat := 0
  salt2 : Nat := 0
  chksum : UInt32 × UInt32 := (0, 0)
deriving DecidableEq

/-- The big-endian number in four bytes of a header. -/
def beField (b : Bytes) (pos : Nat) : Nat := beNat (readAt b pos 4)

/-- The two checksum words stored in a header. -/
def storedChecksum (b : Bytes) (pos : Nat) : UInt32 × UInt32 :=
  (UInt32.ofNat (beField b pos), UInt32.ofNat (beField b (pos + 4)))

namespace WalReader

/-- The byte order that a magic number tells. -/
def bigEndianOf (magic : Nat) : Except WalError Bool :=
  if magic = walMagicLe then .ok false
  else if magic = walMagicBe then .ok true
  else .error (.invalidMagic magic)

/-- `WalReader::new`: open a reader at the start of the WAL. -/
def new (r : Bytes) : Except WalError WalReader := do
  let hdr := readAt r 0 walHeaderSize
  require (¬ hdr.length < walHeaderSize) .emptyWal
  let bigEndian ← bigEndianOf (beField hdr 0)
  require (walChecksum bigEndian (0, 0) (hdr.take 24) = storedChecksum hdr 24) .emptyWal
  require (beField hdr 4 = walVersion) (.unsupportedVersion (beField hdr 4))
  return {
    r, bigEndian
    pageSize := beField hdr 8
    seq := beField hdr 12
    salt1 := beField hdr 16
    salt2 := beField hdr 20
    chksum := storedChecksum hdr 24 }

/-- A reader is no error. -/
theorem ok_ne_error {rd : WalReader} {e : WalError} : Except.ok rd ≠ Except.error e := by simp

instance : DecidableEq (Except WalError WalReader)
  | .ok rd, .ok rd' => decidable_of_iff (rd = rd') ⟨congrArg _, Except.ok.inj⟩
  | .error e, .error e' => decidable_of_iff (e = e') ⟨congrArg _, Except.error.inj⟩
  | .ok _, .error _ => isFalse ok_ne_error
  | .error _, .ok _ => isFalse ok_ne_error.symm

/-- Bytes of a frame in the file. -/
def frameSize (rd : WalReader) : Nat := walFrameHeaderSize + rd.pageSize

/-- Where the next frame starts. -/
def nextStart (rd : WalReader) : Nat := walHeaderSize + rd.frameN * rd.frameSize

/-- Where the frame that was read last starts; zero if none was. -/
def offset (rd : WalReader) : Nat :=
  if rd.frameN = 0 then 0 else walHeaderSize + (rd.frameN - 1) * rd.frameSize

/-- The next frame, or `none` at the end of the valid WAL: a short read, other salts or another
checksum. The running checksum moves on even where it does not match. -/
def readFrameInner (rd : WalReader) (verifyChecksum : Bool) : Option WalFrame × WalReader :=
  let hdr := readAt rd.r rd.nextStart walFrameHeaderSize
  let data := readAt rd.r (rd.nextStart + walFrameHeaderSize) rd.pageSize
  if hdr.length ≠ walFrameHeaderSize then (none, rd)
  else if data.length ≠ rd.pageSize then (none, rd)
  else if rd.salt1 ≠ beField hdr 8 ∨ rd.salt2 ≠ beField hdr 12 then (none, rd)
  else
    let chksum :=
      if verifyChecksum then
        walChecksum rd.bigEndian (walChecksum rd.bigEndian rd.chksum (hdr.take 8)) data
      else storedChecksum hdr 16
    if chksum ≠ storedChecksum hdr 16 then (none, { rd with chksum })
    else (some ⟨beField hdr 0, beField hdr 4⟩, { rd with chksum, frameN := rd.frameN + 1 })

/-- `read_frame`. -/
def readFrame (rd : WalReader) : Option WalFrame × WalReader := rd.readFrameInner true

/-- `WalReader::with_offset`: resume behind the frame that ends at `offset`, whose stored checksum
is trusted once its salts are verified. -/
def withOffset (r : Bytes) (offset salt1 salt2 : Nat) : Except WalError WalReader := do
  require (¬ offset ≤ walHeaderSize) (.offsetTooSmall offset)
  let rd ← new r
  require ((offset - walHeaderSize) % rd.frameSize = 0) (.unalignedOffset offset rd.pageSize)
  let rd := { rd with salt1, salt2, frameN := (offset - walHeaderSize) / rd.frameSize - 1 }
  match rd.readFrameInner false with
  | (some _, rd) => .ok rd
  | (none, _) => .error .prevFrameMismatch

/-- What the loop of `page_map_until` accumulates: the committed pages, the pages of all frames so
far, and the size at the last commit. -/
structure Scan where
  m : SortedMap Nat := .empty
  txMap : SortedMap Nat := .empty
  commit : Nat := 0

/-- One frame, which starts at `offset`. -/
def Scan.frame (s : Scan) (frame : WalFrame) (offset : Nat) : Scan :=
  let txMap := s.txMap.insert frame.pgno offset
  if frame.commit ≠ 0 then { m := s.m.insertAll txMap, txMap, commit := frame.commit }
  else { s with txMap }

/-- The loop of `page_map_until`. -/
def scanLoop (endOffset : Nat) : Nat → WalReader → Scan → Scan × WalReader
  | 0, rd, s => (s, rd)
  | fuel + 1, rd, s =>
      if endOffset ≤ rd.nextStart then (s, rd)
      else
        match rd.readFrame with
        | (none, rd) => (s, rd)
        | (some frame, rd) => scanLoop endOffset fuel rd (s.frame frame rd.offset)

/-- The highest of the offsets in a page map. -/
def maxValue (m : SortedMap Nat) : Nat := (m.entries.map Prod.snd).foldl max 0

/-- What `page_map_until` makes of a finished scan: pages beyond the final size are dropped. -/
def Scan.pageMap (s : Scan) (frameSize : Nat) : PageMap :=
  let m := s.m.filterKeys fun pgno => pgno ≤ s.commit
  if m.entries = [] then {}
  else { pages := m, maxOffset := maxValue m + frameSize, commit := s.commit }

/-- `page_map_until`: the latest committed version of each page in the frames that start before
`endOffset`. Every frame takes up some bytes, which bounds the loop. -/
def pageMapUntil (rd : WalReader) (endOffset : Nat) : PageMap × WalReader :=
  let (s, rd') := scanLoop endOffset (rd.r.length + 1) rd {}
  (s.pageMap rd.frameSize, rd')

/-- The largest offset. -/
def maxOffset : Nat := 2 ^ 64 - 1

/-- `page_map`. -/
def pageMap (rd : WalReader) : PageMap × WalReader := rd.pageMapUntil maxOffset

end WalReader

end Liters
