import Liters.Foundation.PageImage
import Liters.Ltx.RoundTrip

/-! # The LTX compactor

The k-way merge of LTX files (`compactor.rs`) over one decoder per input. Inputs are ordered oldest
to newest; each keeps at most one page buffered. -/

namespace Liters

/-- An input of the merge: its decoder and the page it has buffered, if any. -/
structure Input where
  dec : Decoder
  hdr : Option PageHeader := none
  data : Bytes := []
  done : Bool := false

namespace Compactor

variable (c : Codec)

/-- Read the headers of all inputs. -/
def openInputs : List Bytes → Except LtxError (List Input)
  | [] => .ok []
  | r :: rdrs => do
      let dec ← Decoder.decodeHeader { r }
      let inputs ← openInputs rdrs
      return { dec } :: inputs

/-- One pair of neighbouring inputs: equal page size and, unless it is waived, contiguous
transaction ids. -/
def checkPair (allowNonContiguous : Bool) (prev curr : Header) : Except LtxError Unit := do
  require (prev.pageSize = curr.pageSize) (.invalid
    s!"input files have mismatched page sizes: {prev.pageSize} != {curr.pageSize}")
  require (allowNonContiguous ∨
      isContiguous prev.maxTxid.toNat curr.minTxid.toNat curr.maxTxid.toNat)
    (.invalid ("non-contiguous transaction ids in input files: (" ++ hexPad 16 prev.minTxid.toNat
      ++ "," ++ hexPad 16 prev.maxTxid.toNat ++ ") -> (" ++ hexPad 16 curr.minTxid.toNat
      ++ "," ++ hexPad 16 curr.maxTxid.toNat ++ ")"))

/-- All pairs of neighbouring inputs. -/
def checkInputs (allowNonContiguous : Bool) : List Header → Except LtxError Unit
  | [] => .ok ()
  | [_] => .ok ()
  | prev :: curr :: hdrs => do
      checkPair allowNonContiguous prev curr
      checkInputs allowNonContiguous (curr :: hdrs)

/-- The output header: where the first input starts and where the last one ends. -/
def outHeader (flags : UInt32) (minHdr maxHdr : Header) : Header where
  flags := flags
  pageSize := minHdr.pageSize
  commit := maxHdr.commit
  minTxid := minHdr.minTxid
  maxTxid := maxHdr.maxTxid
  timestamp := maxHdr.timestamp
  preApplyChecksum := minHdr.preApplyChecksum

/-- Fill the buffer of input number `i` unless it holds a page or is exhausted. -/
def fillInput (i : Nat) (input : Input) : Except LtxError Input :=
  if input.hdr.isNone && !input.done then
    match input.dec.decodePage c input.data.length with
    | .ok (some (hdr, data), dec) => .ok { input with dec, data, hdr := some hdr }
    | .ok (none, dec) => .ok { input with dec, done := true }
    | .error e => .error (.invalid s!"read page header {i}: {e.text}")
  else .ok input

/-- The smaller of a pending page number (0 for none) and the page an input has buffered. -/
def lowerPgno (pgno : Nat) : Option PageHeader → Nat
  | some hdr => if pgno = 0 ∨ hdr.pgno < pgno then hdr.pgno else pgno
  | none => pgno

/-- Fill every empty buffer and find the lowest pending page, 0 when all inputs are exhausted. -/
def fillPageBuffers : Nat → Nat → List Input → Except LtxError (Nat × List Input)
  | _, pgno, [] => .ok (pgno, [])
  | i, pgno, input :: inputs => do
      let input ← fillInput c i input
      let (pgno, inputs) ← fillPageBuffers (i + 1) (lowerPgno pgno input.hdr) inputs
      return (pgno, input :: inputs)

/-- Write page `pgno` from the newest input that holds it and drop it from all of them. The inputs
are visited from the last one on; the flag says whether the page has been written. -/
def writePageBuffer (pgno : Nat) :
    List Input → Encoder → Except LtxError (List Input × Encoder × Bool)
  | [], enc => .ok ([], enc, false)
  | input :: inputs, enc => do
      let (inputs, enc, pageWritten) ← writePageBuffer pgno inputs enc
      if input.hdr.map PageHeader.pgno ≠ some pgno then .ok (input :: inputs, enc, pageWritten)
      else if pageWritten ∨ pgno > enc.header.commit.toNat then
        .ok ({ input with hdr := none } :: inputs, enc, pageWritten)
      else
        match enc.encodePage c pgno input.data with
        | .ok enc => .ok ({ input with hdr := none } :: inputs, enc, true)
        | .error e => .error (.invalid s!"copy page {pgno} header: {e.text}")

/-- Repeatedly write the lowest pending page. -/
def mergeLoop : Nat → List Input → Encoder → Except LtxError (List Input × Encoder)
  | 0, _, _ => .error .eof   -- unreachable: every round consumes a page
  | fuel + 1, inputs, enc => do
      let (pgno, inputs) ← fillPageBuffers c 0 0 inputs
      if pgno = 0 then .ok (inputs, enc) else do
      let (inputs, enc, _) ← writePageBuffer c pgno inputs enc
      mergeLoop fuel inputs enc

/-- Close every input, which verifies it, and return the post-apply checksum of the last one. -/
def closeInputs : Nat → UInt64 → List Input → Except LtxError UInt64
  | _, post, [] => .ok post
  | i, _, input :: inputs =>
      match input.dec.finish c with
      | .ok (_, _, trailer, _) => closeInputs (i + 1) trailer.postApplyChecksum inputs
      | .error e => .error (.invalid s!"close reader {i}: {e.text}")

end Compactor

/-- Merge LTX files, oldest first, into one. -/
def compact (c : Codec) (headerFlags : UInt32) (allowNonContiguous : Bool) (rdrs : List Bytes) :
    Except LtxError (Bytes × Header × Trailer) := do
  require (rdrs ≠ []) (.invalid "at least one input reader required")
  let inputs ← Compactor.openInputs rdrs
  let hdrs := inputs.map (fun input => input.dec.header)
  Compactor.checkInputs allowNonContiguous hdrs
  let outHdr := Compactor.outHeader headerFlags (hdrs.headD {}) (hdrs.getLastD {})
  let enc ← Encoder.encodeHeader {} outHdr
  let inputs := inputs.map fun input =>
    { input with data := List.replicate outHdr.pageSize.toNat 0 }
  let (inputs, enc) ← Compactor.mergeLoop c ((rdrs.map List.length).sum + 1) inputs enc
  let post ← Compactor.closeInputs c 0 0 inputs
  (enc.setPostApplyChecksum post).finish c

end Liters
