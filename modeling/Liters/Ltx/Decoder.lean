import Liters.Ltx.Encoder

/-! # The LTX decoder

The streaming decoder (`decoder.rs`) as a state machine over the bytes not yet read, the random
access to a single page frame (`decodePageData`) and the materialisation of a snapshot
(`decodeDatabaseTo`). -/

namespace Liters

/-- What the decoder expects next. -/
inductive DecoderState where
  | header
  | page
  | close
  | closed
  deriving DecidableEq, Repr

/-- A decoder over the unread bytes `r`; `hash` are the bytes fed to the file checksum and `chksum`
is the rolling database checksum of a snapshot. -/
structure Decoder where
  r : Bytes
  state : DecoderState := .header
  header : Header := {}
  chksum : UInt64 := 0
  hash : Bytes := []
  deriving DecidableEq, Repr

variable (c : Codec)

/-- Checksum of a page: the flagged CRC of its number and content. -/
def checksumPage (pgno : Nat) (data : Bytes) : UInt64 :=
  checksumFlag ||| c.crc64 (beBytes 4 pgno ++ data)

/-- Fold a page checksum into a database checksum. -/
def xorPageChecksum (db page : UInt64) : UInt64 := checksumFlag ||| (db ^^^ page)

namespace Decoder

/-- Read and validate the file header. -/
def decodeHeader (d : Decoder) : Except LtxError Decoder := do
  let (b, r) ← readOrEof headerSize d.r
  let header ← Header.decode b
  header.validate
  return {
    r, header
    state := .page
    hash := d.hash ++ b
    chksum := if header.noChecksum then d.chksum else checksumFlag }

/-- Read the next page frame into a buffer of `bufLen` bytes; `none` at the end of the page
block. -/
def decodePage (d : Decoder) (bufLen : Nat) :
    Except LtxError (Option (PageHeader × Bytes) × Decoder) :=
  match d.state with
  | .closed => .error (.invalid "ltx decoder closed")
  | .close => .ok (none, d)
  | .header => .error (.invalid "cannot read page header, expected header")
  | .page => do
      require (bufLen = d.header.pageSize.toNat)
        (.invalid s!"invalid page buffer size: {bufLen}, expecting {d.header.pageSize}")
      let (b, r) ← readOrEof pageHeaderSize d.r
      let hdr ← PageHeader.decode b
      let hash := d.hash ++ b
      if hdr.isZero then .ok (none, { d with r, hash, state := .close }) else do
      hdr.validate
      let (data, r) ← decompressFrame c r bufLen
      let chksum :=
        if d.header.isSnapshot && !d.header.noChecksum && hdr.pgno != d.header.lockPgno then
          xorPageChecksum d.chksum (checksumPage c hdr.pgno data)
        else d.chksum
      return (some (hdr, data), { d with r, chksum, hash := hash ++ data })

/-- Read the page index and trailer and verify the checksums. Returns what is left of the input
(nothing: it is read to its end), the header, the trailer and the index. -/
def finish (d : Decoder) :
    Except LtxError (Bytes × Header × Trailer × SortedMap PageIndexElem) := do
  require (d.state ≠ .closed) (.invalid "ltx decoder closed")
  require (d.state = .close) (.invalid "cannot close, expected end of page block")
  let remaining := d.r
  require (trailerSize ≤ remaining.length) (.io "short read: missing trailer")
  let hash := d.hash ++ remaining.take (remaining.length - checksumSize)
  let (index, rest) ← decodePageIndex remaining 0 d.header.minTxid d.header.maxTxid
  require (rest.length = trailerSize)
    (.invalid s!"unexpected {rest.length} trailing bytes after page index")
  let trailer ← Trailer.decode rest
  require (checksumFlag ||| c.crc64 hash = trailer.fileChecksum) .checksumMismatch
  require (¬ (d.header.isSnapshot ∧ ¬ d.header.noChecksum ∧ trailer.postApplyChecksum ≠ d.chksum))
    (.postApplyChecksumMismatch trailer.postApplyChecksum d.chksum)
  return ([], d.header, trailer, index)

/-- The results of the next `n` calls of `decode_page`. -/
def decodeN : Nat → Decoder → Except LtxError (List (Option (PageHeader × Bytes)) × Decoder)
  | 0, d => .ok ([], d)
  | n + 1, d => do
      let (p, d) ← d.decodePage c d.header.pageSize.toNat
      let (ps, d) ← decodeN n d
      return (p :: ps, d)

/-- Read pages up to the end of the page block. -/
def decodePages : Nat → Decoder → Except LtxError (List Page × Decoder)
  | 0, _ => .error .eof   -- unreachable: every page consumes bytes
  | fuel + 1, d => do
      let (p, d) ← d.decodePage c d.header.pageSize.toNat
      match p with
      | none => .ok ([], d)
      | some (hdr, data) => do
          let (pages, d) ← decodePages fuel d
          return ((hdr.pgno, data) :: pages, d)

/-- The page loop of `decode_database_to`: write `count` pages from `pgno` on, zeros for the lock
page. -/
def decodeImage (lock pageSize : Nat) :
    Nat → Nat → Decoder → Bytes → Except LtxError (Bytes × Decoder)
  | 0, _, d, w => .ok (w, d)
  | count + 1, pgno, d, w =>
      if pgno = lock then
        decodeImage lock pageSize count (pgno + 1) d (w ++ List.replicate pageSize 0)
      else do
        let (p, d) ← d.decodePage c pageSize
        match p with
        | none => .error (.invalid s!"unexpected end of page block at page {pgno}")
        | some (hdr, data) => do
            require (hdr.pgno = pgno)
              (.invalid s!"unexpected pgno while decoding page: read {hdr.pgno}, expected {pgno}")
            decodeImage lock pageSize count (pgno + 1) d (w ++ data)

end Decoder

/-- A whole file: header, pages, trailer and index. -/
def decodeFile (b : Bytes) :
    Except LtxError (Header × List Page × Trailer × SortedMap PageIndexElem) := do
  let d ← Decoder.decodeHeader { r := b }
  let (pages, d) ← d.decodePages c (b.length + 1)
  let (_, header, trailer, index) ← d.finish c
  return (header, pages, trailer, index)

/-- `Decoder::verify`: read and check the entire file. -/
def verifyFile (b : Bytes) : Except LtxError (Header × Trailer × SortedMap PageIndexElem) := do
  let (header, _, trailer, index) ← decodeFile c b
  return (header, trailer, index)

/-- Materialise a snapshot file as a database image. -/
def decodeDatabaseTo (b : Bytes) : Except LtxError Bytes := do
  let d ← Decoder.decodeHeader { r := b }
  let hdr := d.header
  require hdr.isSnapshot (.invalid "cannot decode non-snapshot LTX file to SQLite database")
  let (w, d) ← d.decodeImage c hdr.lockPgno hdr.pageSize.toNat hdr.commit.toNat 1 []
  let (p, d) ← d.decodePage c hdr.pageSize.toNat
  match p with
  | some (ph, _) => .error (.invalid s!"unexpected page {ph.pgno} after commit {hdr.commit}")
  | none => do
      let _ ← d.finish c
      return w

/-- Decode a single page frame, as fetched through the page index. -/
def decodePageData (frame : Bytes) (pageSize : Nat) : Except LtxError (PageHeader × Bytes) := do
  let hdr ← PageHeader.decode frame
  if hdr.isZero then .ok (hdr, []) else do
  let (data, _) ← decompressFrame c (frame.drop pageHeaderSize) pageSize
  return (hdr, data)

end Liters
