import Liters.Foundation.Result
import Liters.Ltx.Types

/-! # LZ4 frames

Each page of an LTX file is one standalone LZ4 frame (`lz4f.rs`). The frame structure is the
program's own and modelled here; the raw block codec and the two hash functions are third-party and
enter as the fields of a `Codec`, of which only `Codec.Lawful` is assumed. -/

namespace Liters

/-- The third-party primitives of the LTX format: CRC-64/GO-ISO, xxHash32 and the LZ4 block codec.
`lz4Decompress b room` is the content of the block `b`, or `none` if the block is malformed or its
content is longer than `room`. -/
structure Codec where
  crc64 : Bytes → UInt64
  xxh32 : Bytes → UInt32
  lz4Compress : Bytes → Bytes
  lz4Decompress : Bytes → Nat → Option Bytes

/-- What the program relies on of the block codec: decompression inverts compression wherever the
content fits, and a compressed block has at least its token byte. -/
structure Codec.Lawful (c : Codec) : Prop where
  decompress_compress : ∀ b room, b.length ≤ room →
    c.lz4Decompress (c.lz4Compress b) room = some b
  compress_ne_nil : ∀ b, c.lz4Compress b ≠ []

variable (c : Codec)

/-! ## Writing a frame -/

/-- LZ4 frame magic number. -/
def frameMagic : Nat := 0x184D2204

/-- FLG byte: version 01, independent blocks, content checksum. -/
def flgByte : UInt8 := 0x64

/-- BD byte: maximum block size 64KB. -/
def bdByte : UInt8 := 0x40

/-- Header-checksum byte: the second byte of xxh32 over the frame descriptor. -/
def headerChecksum (desc : Bytes) : UInt8 := UInt8.ofNat ((c.xxh32 desc).toNat / 256)

/-- The first `fuel` pieces of at most `n` bytes of `b`. -/
def chunksAux (n : Nat) : Nat → Bytes → List Bytes
  | 0, _ => []
  | fuel + 1, b => if b = [] then [] else b.take n :: chunksAux n fuel (b.drop n)

/-- The pieces of `n` bytes of `b`, the last one shorter if need be. -/
def chunks (n : Nat) (b : Bytes) : List Bytes := chunksAux n b.length b

/-- Maximum content of a block this encoder writes. -/
def blockSize : Nat := 64 * 1024

/-- Top bit of a 32-bit block size: the block is stored uncompressed. -/
def rawBlockFlag : Nat := 0x80000000

/-- One block: compressed, or raw (with the top bit of its size set) when that is not shorter. -/
def compressBlock (block : Bytes) : Bytes :=
  let compressed := c.lz4Compress block
  if compressed.length ≥ block.length then leBytes 4 (rawBlockFlag + block.length) ++ block
  else leBytes 4 compressed.length ++ compressed

/-- `data` as one complete LZ4 frame. -/
def compressFrame (data : Bytes) : Bytes :=
  leBytes 4 frameMagic ++ [flgByte, bdByte, headerChecksum c [flgByte, bdByte]]
    ++ (chunks blockSize data).flatMap (compressBlock c)
    ++ leBytes 4 0 ++ leBytes 4 (c.xxh32 data).toNat

/-! ## Reading a frame -/

/-- The block loop of `decompress_frame`: read blocks up to the end mark, appending their content to
`out`, and return it with the bytes behind the mark. -/
def decompressBlocks (blockChecksum : Bool) (maxBlockSize dstLen : Nat) :
    Nat → Bytes → Bytes → Except LtxError (Bytes × Bytes)
  | 0, _, _ => .error .eof   -- unreachable: every block consumes at least its size field
  | fuel + 1, out, r => do
      let (s, r) ← readOrEof 4 r
      let rawSize := leNat s
      if rawSize = 0 then .ok (out, r) else do
      let size := rawSize % rawBlockFlag
      require (size ≤ maxBlockSize)
        (.lz4 s!"block size {size} exceeds frame max {maxBlockSize}")
      let (buf, r) ← readOrEof size r
      let (sum, r) ← readOrEof (if blockChecksum then 4 else 0) r
      require (blockChecksum → leNat sum = (c.xxh32 buf).toNat) (.lz4 "block checksum mismatch")
      if rawBlockFlag ≤ rawSize then do
        require (out.length + size ≤ dstLen)
          (.lz4 "frame content longer than expected page size")
        decompressBlocks blockChecksum maxBlockSize dstLen fuel (out ++ buf) r
      else
        match c.lz4Decompress buf (dstLen - out.length) with
        | none => .error (.lz4 "block decompress")
        | some d => decompressBlocks blockChecksum maxBlockSize dstLen fuel (out ++ d) r

/-- The maximum block size a BD byte announces. -/
def maxBlockSizeOf (bd : UInt8) : Except LtxError Nat :=
  if bd &&& 0x70 = 0x40 then .ok (64 * 1024)
  else if bd &&& 0x70 = 0x50 then .ok (256 * 1024)
  else if bd &&& 0x70 = 0x60 then .ok (1024 * 1024)
  else if bd &&& 0x70 = 0x70 then .ok (4 * 1024 * 1024)
  else .error (.lz4 ("invalid BD byte: 0x" ++ hexPad 2 bd.toNat))

/-- Decompress exactly one frame whose content has `dstLen` bytes; returns the content and the bytes
behind the frame. -/
def decompressFrame (r : Bytes) (dstLen : Nat) : Except LtxError (Bytes × Bytes) := do
  let (m, r) ← readOrEof 4 r
  require (leNat m = frameMagic) (.lz4 "bad frame magic")
  let (desc, r) ← readOrEof 2 r
  let flg := desc.getD 0 0
  let bd := desc.getD 1 0
  require (flg >>> 6 = 1) (.lz4 ("unsupported frame version: FLG=0x" ++ hexPad 2 flg.toNat))
  let maxBlockSize ← maxBlockSizeOf bd
  -- optional descriptor fields precede the header checksum
  let (contentSize, r) ← readOrEof (if flg &&& 0x08 = 0 then 0 else 8) r
  let (dictId, r) ← readOrEof (if flg &&& 0x01 = 0 then 0 else 4) r
  let (hc, r) ← readOrEof 1 r
  require (hc.getD 0 0 = headerChecksum c (desc ++ contentSize ++ dictId))
    (.lz4 "frame descriptor checksum mismatch")
  let (content, r) ←
    decompressBlocks c (flg &&& 0x10 != 0) maxBlockSize dstLen (r.length + 1) [] r
  let (sum, r) ← readOrEof (if flg &&& 0x04 = 0 then 0 else 4) r
  require (flg &&& 0x04 = 0 ∨ leNat sum = (c.xxh32 content).toNat)
    (.lz4 "content checksum mismatch")
  require (content.length = dstLen)
    (.lz4 s!"frame content length mismatch: got {content.length}, expected {dstLen}")
  return (content, r)

/-! ## Round trip -/

/-- With enough fuel the chunks are all of the data, none of them empty or too long. -/
theorem chunksAux_spec {n : Nat} (hn : 0 < n) (fuel : Nat) (b : Bytes) (h : b.length ≤ fuel) :
    (chunksAux n fuel b).flatten = b ∧
      ∀ p ∈ chunksAux n fuel b, p ≠ [] ∧ p.length ≤ n := by
  induction fuel generalizing b with
  | zero =>
      have : b = [] := List.length_eq_zero_iff.mp (by omega)
      simp [chunksAux, this]
  | succ fuel ih =>
      rw [chunksAux]
      split
      · rename_i hb
        simp [hb]
      · rename_i hb
        have hpos : 0 < b.length := List.length_pos_iff.mpr hb
        obtain ⟨hflat, hlen⟩ := ih (b.drop n) (by rw [List.length_drop]; omega)
        constructor
        · rw [List.flatten_cons, hflat, List.take_append_drop]
        · intro p hp
          rcases List.mem_cons.mp hp with rfl | hp
          · refine ⟨fun h0 => ?_, by simp⟩
            have := congrArg List.length h0
            simp only [List.length_take, List.length_nil] at this
            omega
          · exact hlen p hp

/-- The chunks together are the data. -/
theorem chunks_flatten {n : Nat} (hn : 0 < n) (b : Bytes) : (chunks n b).flatten = b :=
  (chunksAux_spec hn b.length b le_rfl).1

/-- No chunk is empty or too long. -/
theorem mem_chunks {n : Nat} (hn : 0 < n) {b p : Bytes} (h : p ∈ chunks n b) :
    p ≠ [] ∧ p.length ≤ n :=
  (chunksAux_spec hn b.length b le_rfl).2 p h

/-- Every block starts with its four-byte size. -/
theorem compressBlock_length (block : Bytes) : 4 ≤ (compressBlock c block).length := by
  rw [compressBlock]
  split <;> simp

variable {c}

/-- One round of the block loop over a block this encoder wrote. -/
theorem decompressBlocks_block (hc : c.Lawful) {dstLen fuel : Nat} {out block rest : Bytes}
    (hne : block ≠ []) (hlen : block.length ≤ blockSize)
    (hroom : out.length + block.length ≤ dstLen) :
    decompressBlocks c false blockSize dstLen (fuel + 1) out (compressBlock c block ++ rest)
      = decompressBlocks c false blockSize dstLen fuel (out ++ block) rest := by
  have hpos : 0 < block.length := List.length_pos_iff.mpr hne
  have hcpos : 0 < (c.lz4Compress block).length :=
    List.length_pos_iff.mpr (hc.compress_ne_nil block)
  have hbs : blockSize = 65536 := rfl
  rw [compressBlock, decompressBlocks]
  by_cases hraw : (c.lz4Compress block).length ≥ block.length
  · -- stored raw: the top bit of the size field marks it
    have hsize : leNat (leBytes 4 (rawBlockFlag + block.length)) = rawBlockFlag + block.length :=
      leNat_leBytes_of_lt (by simp only [rawBlockFlag]; omega)
    have hmod : (rawBlockFlag + block.length) % rawBlockFlag = block.length := by
      rw [Nat.add_mod_left, Nat.mod_eq_of_lt (by simp only [rawBlockFlag]; omega)]
    have hnz : rawBlockFlag + block.length ≠ 0 := by omega
    rw [if_pos hraw, List.append_assoc, readOrEof_append _ _ (leBytes_length ..)]
    simp only [ok_bind, hsize, if_neg hnz, hmod, require_pos hlen, readOrEof_append block rest rfl,
      Bool.false_eq_true, if_false, readOrEof_zero, require_pos (False.elim ·),
      if_pos (Nat.le_add_right rawBlockFlag block.length), require_pos hroom]
  · -- stored compressed: the size is below that of the block
    have hlt : (c.lz4Compress block).length < block.length := not_le.mp hraw
    have hsize : leNat (leBytes 4 (c.lz4Compress block).length) = (c.lz4Compress block).length :=
      leNat_leBytes_of_lt (by omega)
    have hmod : (c.lz4Compress block).length % rawBlockFlag = (c.lz4Compress block).length :=
      Nat.mod_eq_of_lt (by simp only [rawBlockFlag]; omega)
    have hsmall : ¬ rawBlockFlag ≤ (c.lz4Compress block).length := by
      simp only [rawBlockFlag]; omega
    rw [if_neg hraw, List.append_assoc, readOrEof_append _ _ (leBytes_length ..)]
    simp only [ok_bind, hsize, if_neg hcpos.ne', hmod, require_pos (hlt.le.trans hlen),
      readOrEof_append (c.lz4Compress block) rest rfl, Bool.false_eq_true, if_false,
      readOrEof_zero, require_pos (False.elim ·), if_neg hsmall,
      hc.decompress_compress block _ (Nat.le_sub_of_add_le' hroom)]

/-- The block loop over all blocks of a frame and its end mark. -/
theorem decompressBlocks_blocks (hc : c.Lawful) (dstLen : Nat) (rest : Bytes)
    (blocks : List Bytes) (fuel : Nat) (out : Bytes)
    (hblocks : ∀ p ∈ blocks, p ≠ [] ∧ p.length ≤ blockSize)
    (hroom : out.length + blocks.flatten.length ≤ dstLen) (hfuel : blocks.length < fuel) :
    decompressBlocks c false blockSize dstLen fuel out
        (blocks.flatMap (compressBlock c) ++ leBytes 4 0 ++ rest)
      = .ok (out ++ blocks.flatten, rest) := by
  induction blocks generalizing fuel out with
  | nil =>
      obtain ⟨fuel, rfl⟩ : ∃ f, fuel = f + 1 := ⟨fuel - 1, by simp at hfuel; omega⟩
      rw [List.flatMap_nil, List.nil_append, decompressBlocks,
        readOrEof_append _ _ (leBytes_length ..)]
      simp [leNat_leBytes]
  | cons block blocks ih =>
      obtain ⟨fuel, rfl⟩ : ∃ f, fuel = f + 1 := ⟨fuel - 1, by simp at hfuel; omega⟩
      have hb := hblocks block (List.mem_cons_self ..)
      rw [List.flatten_cons, List.length_append] at hroom
      rw [List.flatMap_cons, List.append_assoc, List.append_assoc,
        decompressBlocks_block hc hb.1 hb.2 (by omega), ← List.append_assoc,
        ih fuel (out ++ block) (fun p hp => hblocks p (List.mem_cons_of_mem _ hp))
          (by rw [List.length_append]; omega) (by simpa using hfuel)]
      rw [List.flatten_cons, List.append_assoc]

/-- A frame decompresses to the data it was written from, consuming exactly its own bytes. -/
theorem decompressFrame_compressFrame (hc : c.Lawful) (data rest : Bytes) :
    decompressFrame c (compressFrame c data ++ rest) data.length = .ok (data, rest) := by
  have hchunks := chunks_flatten (n := blockSize) (by decide) data
  have hblocks : ∀ p ∈ chunks blockSize data, p ≠ [] ∧ p.length ≤ blockSize :=
    fun p hp => mem_chunks (by decide) hp
  have hmagic : leNat (leBytes 4 frameMagic) = frameMagic := leNat_leBytes_of_lt (by decide)
  have hxx : leNat (leBytes 4 (c.xxh32 data).toNat) = (c.xxh32 data).toNat :=
    leNat_leBytes_of_lt (c.xxh32 data).toNat_lt
  -- the loop is given a byte of the blocks for each turn, and no block is empty
  have hfuel : (chunks blockSize data).length
      ≤ ((chunks blockSize data).flatMap (compressBlock c)).length := by
    induction chunks blockSize data with
    | nil => simp
    | cons p ps ih =>
        have := compressBlock_length c p
        rw [List.flatMap_cons, List.length_append, List.length_cons]
        omega
  have hloop := decompressBlocks_blocks hc data.length
    (leBytes 4 (c.xxh32 data).toNat ++ rest) (chunks blockSize data)
    (((chunks blockSize data).flatMap (compressBlock c) ++ leBytes 4 0
      ++ (leBytes 4 (c.xxh32 data).toNat ++ rest)).length + 1) [] hblocks
    (by rw [hchunks]; simp) (by simp only [List.length_append]; omega)
  rw [hchunks, List.nil_append] at hloop
  -- the fields as the decompressor reads them, from the left
  have hshape : compressFrame c data ++ rest
      = leBytes 4 frameMagic ++ ([flgByte, bdByte] ++ ([headerChecksum c [flgByte, bdByte]]
          ++ ((chunks blockSize data).flatMap (compressBlock c) ++ leBytes 4 0
            ++ (leBytes 4 (c.xxh32 data).toNat ++ rest)))) := by
    simp [compressFrame]
  have hmax : maxBlockSizeOf bdByte = .ok blockSize := by decide
  have hver : flgByte >>> 6 = 1 := by decide
  have hsize : flgByte &&& 0x08 = 0 := by decide
  have hdict : flgByte &&& 0x01 = 0 := by decide
  have hblock : (flgByte &&& 0x10 != 0) = false := by decide
  have hcontent : ¬ flgByte &&& 0x04 = 0 := by decide
  -- magic number
  rw [hshape, decompressFrame, readOrEof_append _ _ (leBytes_length ..)]
  simp only [ok_bind, require_pos hmagic]
  -- flags, block size, and the checksum over both
  rw [readOrEof_append (n := 2) [flgByte, bdByte] _ rfl]
  simp only [ok_bind, List.getD_cons_zero, List.getD_cons_succ, require_pos hver, hmax,
    if_pos hsize, if_pos hdict, readOrEof_zero, if_neg hcontent, hblock]
  rw [readOrEof_append (n := 1) [_] _ rfl]
  simp only [ok_bind, List.getD_cons_zero, List.append_nil, require_pos, hloop]
  -- the content checksum, last of all
  rw [readOrEof_append _ _ (leBytes_length ..)]
  simp only [ok_bind, hxx, or_true, require_pos, pure_eq_ok]

end Liters
