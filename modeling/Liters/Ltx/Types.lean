import Liters.Foundation.Bytes

/-! # LTX types

The header, trailer and page header of an LTX file with their validation rules and on-disk forms
(`types.rs`, `checksum.rs`, `error.rs`). Fields of the header have the source's fixed-width types;
transaction ids, page numbers and byte counts that the program computes with are natural numbers. -/

namespace Liters

/-! ## Errors -/

/-- Errors of the LTX codec. -/
inductive LtxError where
  /-- The magic bytes did not match. -/
  | invalidFile
  /-- The trailer's file checksum did not match. -/
  | checksumMismatch
  /-- A snapshot's computed post-apply checksum did not match the trailer. -/
  | postApplyChecksumMismatch (trailer computed : UInt64)
  /-- A header, trailer, page-header or state-machine rule failed. -/
  | invalid (msg : String)
  /-- A malformed LZ4 frame. -/
  | lz4 (msg : String)
  /-- A read past the end of the input. -/
  | io (msg : String)
  deriving DecidableEq, Repr

/-- The lowercase hexadecimal digits of `n`, at least `width` of them. -/
def hexPad (width n : Nat) : String :=
  let digits := Nat.toDigits 16 n
  String.ofList (List.replicate (width - digits.length) '0' ++ digits)

/-- The text of an error. -/
def LtxError.text : LtxError → String
  | .invalidFile => "invalid LTX file"
  | .checksumMismatch => "file checksum mismatch"
  | .postApplyChecksumMismatch t c =>
      "post-apply checksum in trailer (" ++ hexPad 16 t.toNat
        ++ ") does not match calculated checksum (" ++ hexPad 16 c.toNat ++ ")"
  | .invalid msg => msg
  | .lz4 msg => "lz4: " ++ msg
  | .io msg => msg

/-- The error of `read_exact` at the end of its input. -/
def LtxError.eof : LtxError := .io "failed to fill whole buffer"

/-- `read_exact` as the codec uses it: the end of the input is an I/O error. -/
def readOrEof (n : Nat) (b : Bytes) : Except LtxError (Bytes × Bytes) :=
  match readExact n b with
  | some p => .ok p
  | none => .error .eof

/-- Reading exactly a known prefix succeeds. -/
theorem readOrEof_append {n : Nat} (a b : Bytes) (h : a.length = n) :
    readOrEof n (a ++ b) = .ok (a, b) := by
  rw [readOrEof, readExact_append a b h]

/-- Reading nothing always succeeds. -/
@[simp] theorem readOrEof_zero (b : Bytes) : readOrEof 0 b = .ok ([], b) :=
  readOrEof_append [] b rfl

/-! ## Constants -/

/-- Magic bytes at the start of every LTX file: `LTX1`. -/
def magic : Bytes := [0x4C, 0x54, 0x58, 0x31]

/-- Size of the file header in bytes. -/
def headerSize : Nat := 100

/-- Size of a page header in bytes. -/
def pageHeaderSize : Nat := 6

/-- Size of the file trailer in bytes. -/
def trailerSize : Nat := 16

/-- Size of a serialized checksum in bytes. -/
def checksumSize : Nat := 8

/-- Header flag: pre- and post-apply checksums are not tracked in this file. -/
def headerFlagNoChecksum : UInt32 := 2

/-- Mask of all valid header flags. -/
def headerFlagMask : UInt32 := headerFlagNoChecksum

/-- Maximum allowed SQLite page size. -/
def maxPageSize : Nat := 65536

/-- Byte offset of SQLite's locking region. -/
def pendingByte : Nat := 0x40000000

/-- Flag set in every stored checksum, so that none is zero. -/
def checksumFlag : UInt64 := 0x8000000000000000

/-- The checksum of the empty database. -/
def checksumEmpty : UInt64 := checksumFlag

/-- True if bit 63 of a checksum is set. -/
def isFlagged (c : UInt64) : Bool := c &&& checksumFlag != 0

/-- A checksum as it is stored is flagged. -/
theorem isFlagged_checksumFlag_or (x : UInt64) : isFlagged (checksumFlag ||| x) = true := by
  have hand : (checksumFlag ||| x) &&& checksumFlag = checksumFlag := by
    apply UInt64.toBitVec_inj.mp
    ext i
    simp only [UInt64.toBitVec_and, UInt64.toBitVec_or, BitVec.getElem_and, BitVec.getElem_or]
    cases checksumFlag.toBitVec[i] <;> simp
  rw [isFlagged, hand]
  decide

/-- A flagged checksum is not zero. -/
theorem ne_zero_of_isFlagged {x : UInt64} (h : isFlagged x = true) : x ≠ 0 := by
  rintro rfl
  exact absurd h (by decide)

/-- The powers of two between 512 and 64K. -/
def isValidPageSize (sz : Nat) : Bool :=
  512 ≤ sz && sz ≤ maxPageSize && 2 ^ sz.log2 == sz

/-- A valid page size lies between 512 and 65536. -/
theorem isValidPageSize_bounds {sz : Nat} (h : isValidPageSize sz = true) :
    512 ≤ sz ∧ sz ≤ maxPageSize := by
  simp only [isValidPageSize, Bool.and_eq_true, decide_eq_true_eq] at h
  exact h.1

/-- No flag outside the mask is set. -/
def isValidHeaderFlags (flags : UInt32) : Bool := flags == flags &&& headerFlagMask

/-- The page holding SQLite's locking region; it is never stored in an LTX file. -/
def lockPgno (pageSize : Nat) : Nat := pendingByte / pageSize + 1

/-- `wrapping_add(1)` on a 64-bit transaction id. -/
def wrappingSucc (txid : Nat) : Nat := (txid + 1) % 2 ^ 64

/-- `[minTxid, maxTxid]` continues (or overlaps and extends) a database at `prevMaxTxid`. -/
def isContiguous (prevMaxTxid minTxid maxTxid : Nat) : Bool :=
  minTxid ≤ wrappingSucc prevMaxTxid && maxTxid > prevMaxTxid

/-- Below the last TXID the successor does not wrap. -/
theorem wrappingSucc_of_lt {txid : Nat} (h : txid < 2 ^ 64 - 1) : wrappingSucc txid = txid + 1 :=
  Nat.mod_eq_of_lt (by omega)

/-! ## Header -/

/-- The header frame of an LTX file. -/
structure Header where
  flags : UInt32 := 0
  pageSize : UInt32 := 0
  /-- Database size in pages after this file is applied. -/
  commit : UInt32 := 0
  minTxid : UInt64 := 0
  maxTxid : UInt64 := 0
  /-- Milliseconds since the Unix epoch. -/
  timestamp : Int64 := 0
  preApplyChecksum : UInt64 := 0
  /-- Byte offset in the source WAL. -/
  walOffset : Int64 := 0
  /-- Size of the source WAL segment. -/
  walSize : Int64 := 0
  walSalt1 : UInt32 := 0
  walSalt2 : UInt32 := 0
  nodeId : UInt64 := 0
  deriving DecidableEq, Repr, Inhabited

namespace Header

/-- A file that starts at transaction 1 holds every page of the database. -/
def isSnapshot (h : Header) : Bool := h.minTxid == 1

/-- True if checksums are not tracked. -/
def noChecksum (h : Header) : Bool := h.flags &&& headerFlagNoChecksum != 0

/-- The lock page at this header's page size. -/
def lockPgno (h : Header) : Nat := Liters.lockPgno h.pageSize.toNat

/-- Validation rules, in the order the source checks them. -/
def validate (h : Header) : Except LtxError Unit :=
  if !isValidHeaderFlags h.flags then
    .error (.invalid ("invalid flags: 0x" ++ hexPad 8 h.flags.toNat))
  else if !isValidPageSize h.pageSize.toNat then
    .error (.invalid s!"invalid page size: {h.pageSize}")
  else if h.minTxid == 0 then
    .error (.invalid "minimum transaction id required")
  else if h.maxTxid == 0 then
    .error (.invalid "maximum transaction id required")
  else if h.minTxid > h.maxTxid then
    .error (.invalid s!"transaction ids out of order: ({h.minTxid},{h.maxTxid})")
  else if h.walOffset < 0 then
    .error (.invalid s!"wal offset cannot be negative: {h.walOffset}")
  else if h.walSize < 0 then
    .error (.invalid s!"wal size cannot be negative: {h.walSize}")
  else if (h.walSalt1 != 0 || h.walSalt2 != 0) && h.walOffset == 0 then
    .error (.invalid "wal offset required if salt exists")
  else if h.walOffset == 0 && h.walSize != 0 then
    .error (.invalid "wal offset required if wal size exists")
  else if h.isSnapshot then
    if h.preApplyChecksum != 0 then
      .error (.invalid "pre-apply checksum must be zero on snapshots")
    else .ok ()
  else if h.noChecksum then
    if h.preApplyChecksum != 0 then
      .error (.invalid "pre-apply checksum not allowed")
    else .ok ()
  else if h.preApplyChecksum == 0 then
    .error (.invalid "pre-apply checksum required on non-snapshot files")
  else if !isFlagged h.preApplyChecksum then
    .error (.invalid "invalid pre-apply checksum format")
  else .ok ()

/-- The 100-byte on-disk form; the last 20 bytes are reserved and zero. -/
def encode (h : Header) : Bytes :=
  magic ++ beBytes 4 h.flags.toNat ++ beBytes 4 h.pageSize.toNat ++ beBytes 4 h.commit.toNat
    ++ beBytes 8 h.minTxid.toNat ++ beBytes 8 h.maxTxid.toNat
    ++ beBytes 8 h.timestamp.toUInt64.toNat ++ beBytes 8 h.preApplyChecksum.toNat
    ++ beBytes 8 h.walOffset.toUInt64.toNat ++ beBytes 8 h.walSize.toUInt64.toNat
    ++ beBytes 4 h.walSalt1.toNat ++ beBytes 4 h.walSalt2.toNat ++ beBytes 8 h.nodeId.toNat
    ++ List.replicate 20 0

/-- Decode the on-disk form. The magic is checked, the reserved bytes are not. -/
def decode (b : Bytes) : Except LtxError Header :=
  if b.length < headerSize then .error (.io "short header buffer")
  else if readAt b 0 4 != magic then .error .invalidFile
  else .ok {
    flags := .ofNat (beNat (readAt b 4 4))
    pageSize := .ofNat (beNat (readAt b 8 4))
    commit := .ofNat (beNat (readAt b 12 4))
    minTxid := .ofNat (beNat (readAt b 16 8))
    maxTxid := .ofNat (beNat (readAt b 24 8))
    timestamp := (UInt64.ofNat (beNat (readAt b 32 8))).toInt64
    preApplyChecksum := .ofNat (beNat (readAt b 40 8))
    walOffset := (UInt64.ofNat (beNat (readAt b 48 8))).toInt64
    walSize := (UInt64.ofNat (beNat (readAt b 56 8))).toInt64
    walSalt1 := .ofNat (beNat (readAt b 64 4))
    walSalt2 := .ofNat (beNat (readAt b 68 4))
    nodeId := .ofNat (beNat (readAt b 72 8)) }

/-- An encoded header has its fixed size. -/
@[simp] theorem encode_length (h : Header) : h.encode.length = headerSize := by
  simp [encode, magic, headerSize]

/-- The on-disk form of a header decodes to it. -/
theorem decode_encode (h : Header) : decode h.encode = .ok h := by
  have hlen : ¬ h.encode.length < headerSize := by rw [encode_length]; exact lt_irrefl _
  rw [decode, if_neg hlen]
  have hmagic : magic.length = 4 := rfl
  simp only [encode, List.append_assoc]
  rw [readAt_start magic _ hmagic, if_neg (by simp)]
  simp only [Except.ok.injEq]
  cases h
  simp (disch := simp [hmagic]) only [readAt_append_of_le, hmagic, beBytes_length, Nat.reduceSub,
    readAt_start, ofNat_beNat_beBytes_four, ofNat_beNat_beBytes_eight, Int64.toInt64_toUInt64]

end Header

/-! ## Trailer and page header -/

/-- The trailer frame of an LTX file. -/
structure Trailer where
  /-- Database checksum after this file is applied; zero when checksums are not tracked. -/
  postApplyChecksum : UInt64 := 0
  /-- Checksum of the file contents. -/
  fileChecksum : UInt64 := 0
  deriving DecidableEq, Repr, Inhabited

namespace Trailer

/-- Validation rules against the file's header. -/
def validate (t : Trailer) (h : Header) : Except LtxError Unit :=
  if h.noChecksum && t.postApplyChecksum != 0 then
    .error (.invalid "post-apply checksum not allowed")
  else if !h.noChecksum && t.postApplyChecksum == 0 then
    .error (.invalid "post-apply checksum required")
  else if !h.noChecksum && !isFlagged t.postApplyChecksum then
    .error (.invalid "invalid post-apply checksum format")
  else if t.fileChecksum == 0 then
    .error (.invalid "file checksum required")
  else if !isFlagged t.fileChecksum then
    .error (.invalid "invalid file checksum format")
  else .ok ()

/-- The 16-byte on-disk form. -/
def encode (t : Trailer) : Bytes :=
  beBytes 8 t.postApplyChecksum.toNat ++ beBytes 8 t.fileChecksum.toNat

/-- Decode the on-disk form. -/
def decode (b : Bytes) : Except LtxError Trailer :=
  if b.length < trailerSize then .error (.io "short trailer buffer")
  else .ok {
    postApplyChecksum := .ofNat (beNat (readAt b 0 8))
    fileChecksum := .ofNat (beNat (readAt b 8 8)) }

/-- An encoded trailer has its fixed size. -/
@[simp] theorem encode_length (t : Trailer) : t.encode.length = trailerSize := by
  simp [encode, trailerSize]

/-- The on-disk form of a trailer decodes to it. -/
theorem decode_encode (t : Trailer) : decode t.encode = .ok t := by
  have hlen : ¬ t.encode.length < trailerSize := by rw [encode_length]; exact lt_irrefl _
  rw [decode, if_neg hlen]
  simp only [encode, Except.ok.injEq]
  obtain ⟨post, file⟩ := t
  have hfile := readAt_start (beBytes 8 file.toNat) [] (beBytes_length ..)
  rw [List.append_nil] at hfile
  rw [readAt_start _ _ (beBytes_length ..), readAt_append_of_le (by simp), beBytes_length,
    Nat.sub_self, hfile, ofNat_beNat_beBytes_eight, ofNat_beNat_beBytes_eight]

end Trailer

/-- The header of a single page frame. -/
structure PageHeader where
  pgno : Nat := 0
  /-- Reserved; zero in this format version. -/
  flags : Nat := 0
  deriving DecidableEq, Repr, Inhabited

namespace PageHeader

/-- An all-zero page header marks the end of the page block. -/
def isZero (p : PageHeader) : Bool := p == {}

/-- Validation rules of a page header. -/
def validate (p : PageHeader) : Except LtxError Unit :=
  if p.pgno == 0 then .error (.invalid "page number required")
  else if p.flags != 0 then .error (.invalid "no flags allowed, reserved for future use")
  else .ok ()

/-- The 6-byte on-disk form. -/
def encode (p : PageHeader) : Bytes := beBytes 4 p.pgno ++ beBytes 2 p.flags

/-- Decode the on-disk form. -/
def decode (b : Bytes) : Except LtxError PageHeader :=
  if b.length < pageHeaderSize then .error (.io "short page header buffer")
  else .ok { pgno := beNat (readAt b 0 4), flags := beNat (readAt b 4 2) }

/-- An encoded page header has its fixed size. -/
@[simp] theorem encode_length (p : PageHeader) : p.encode.length = pageHeaderSize := by
  simp [encode, pageHeaderSize]

/-- The on-disk form of a page header, with anything behind it, decodes to it. -/
theorem decode_encode_append (p : PageHeader) (rest : Bytes) (hp : p.pgno < 2 ^ 32)
    (hf : p.flags < 2 ^ 16) : decode (p.encode ++ rest) = .ok p := by
  have hlen : ¬ (p.encode ++ rest).length < pageHeaderSize := by simp [pageHeaderSize]
  rw [decode, if_neg hlen]
  simp only [encode, List.append_assoc]
  rw [readAt_start _ _ (beBytes_length ..), readAt_append_of_le (by simp)]
  simp only [beBytes_length, Nat.sub_self]
  rw [readAt_start _ _ (beBytes_length ..), beNat_beBytes_of_lt (by simpa using hp),
    beNat_beBytes_of_lt (by simpa using hf)]

end PageHeader

/-! ## File listings -/

/-- Metadata about an LTX file, as a storage listing gives it. -/
structure FileInfo where
  level : Nat := 0
  minTxid : Nat := 0
  maxTxid : Nat := 0
  /-- Creation time in nanoseconds since the Unix epoch, when the backend knows it. -/
  createdAt : Option Int := none
  deriving DecidableEq, Repr, Inhabited

end Liters
