import Liters.Ltx.Lz4f

/-! # A concrete codec

The two hash functions in full and an LZ4 block codec that writes every block as a single run of
literals, which is what the compressor does on content without a repeated four-byte group. It
satisfies `Codec.Lawful`, so the results about an arbitrary lawful codec are about something. -/

namespace Liters

/-! ## Hashes -/

/-- One byte of CRC-64/GO-ISO, bit by bit, low bit first. -/
def crc64Byte (crc : UInt64) (b : UInt8) : UInt64 :=
  (List.range 8).foldl
    (fun crc _ => if crc &&& 1 = 1 then (crc >>> 1) ^^^ 0xD800000000000000 else crc >>> 1)
    (crc ^^^ b.toUInt64)

/-- CRC-64/GO-ISO. -/
def crc64GoIso (b : Bytes) : UInt64 :=
  b.foldl crc64Byte 0xFFFFFFFFFFFFFFFF ^^^ 0xFFFFFFFFFFFFFFFF

/-- Rotate left by `r` of 32 bits. -/
def rotl32 (x : UInt32) (r : UInt32) : UInt32 := (x <<< r) ||| (x >>> (32 - r))

/-- Fold one lane into an accumulator of the 16-byte stripes. -/
def xxhRound (acc lane : UInt32) : UInt32 := rotl32 (acc + lane * 2246822519) 13 * 2654435761

/-- The little-endian lane at `offset`. -/
def xxhLane (b : Bytes) (offset : Nat) : UInt32 := .ofNat (leNat (readAt b offset 4))

/-- The four accumulators after all whole stripes of `b`, at most `fuel` of them, and what is
left. -/
def xxhStripes : Nat → Bytes → UInt32 × UInt32 × UInt32 × UInt32 →
    (UInt32 × UInt32 × UInt32 × UInt32) × Bytes
  | 0, b, v => (v, b)
  | fuel + 1, b, (v1, v2, v3, v4) =>
      if 16 ≤ b.length then
        xxhStripes fuel (b.drop 16) (xxhRound v1 (xxhLane b 0), xxhRound v2 (xxhLane b 4),
          xxhRound v3 (xxhLane b 8), xxhRound v4 (xxhLane b 12))
      else ((v1, v2, v3, v4), b)

/-- The tail of fewer than 16 bytes: whole lanes, then bytes. -/
def xxhTail : Nat → UInt32 → Bytes → UInt32
  | 0, h, _ => h
  | fuel + 1, h, b =>
      if 4 ≤ b.length then
        xxhTail fuel (rotl32 (h + xxhLane b 0 * 3266489917) 17 * 668265263) (b.drop 4)
      else match b with
        | [] => h
        | x :: b => xxhTail fuel (rotl32 (h + x.toUInt32 * 374761393) 11 * 2654435761) b

/-- The final mixing of an xxHash32. -/
def xxhAvalanche (h : UInt32) : UInt32 :=
  let h := (h ^^^ (h >>> 15)) * 2246822519
  let h := (h ^^^ (h >>> 13)) * 3266489917
  h ^^^ (h >>> 16)

/-- xxHash32 with seed zero. -/
def xxHash32 (b : Bytes) : UInt32 :=
  let ((v1, v2, v3, v4), tail) :=
    xxhStripes b.length b (2654435761 + 2246822519, 2246822519, 0, 0 - 2654435761)
  let h := if 16 ≤ b.length then rotl32 v1 1 + rotl32 v2 7 + rotl32 v3 12 + rotl32 v4 18
    else 374761393
  xxhAvalanche (xxhTail tail.length (h + .ofNat b.length) tail)

/-! ## Blocks of literals -/

/-- The extension bytes of a length: 255 as often as it goes, then the remainder. -/
def lengthBytes (n : Nat) : Bytes := List.replicate (n / 255) 255 ++ [UInt8.ofNat (n % 255)]

/-- Read extension bytes up to the first one below 255. -/
def readLength : Nat → Bytes → Option (Nat × Bytes)
  | _, [] => none
  | acc, x :: b => if x = 255 then readLength (acc + 255) b else some (acc + x.toNat, b)

/-- A block that is one run of literals: the token with the length, its extension, the literals. -/
def literalBlock (b : Bytes) : Bytes :=
  if b.length < 15 then UInt8.ofNat (b.length * 16) :: b
  else 0xF0 :: (lengthBytes (b.length - 15) ++ b)

/-- Read a block that is one run of literals. -/
def readLiteralBlock (b : Bytes) (room : Nat) : Option Bytes := do
  let token ← b.head?
  let (n, r) ←
    if token.toNat / 16 < 15 then some (token.toNat / 16, b.tail) else readLength 15 b.tail
  if r.length = n ∧ n ≤ room then some r else none

/-- The codec of literal blocks. -/
def literalCodec : Codec where
  crc64 := crc64GoIso
  xxh32 := xxHash32
  lz4Compress := literalBlock
  lz4Decompress := readLiteralBlock

/-- A length of any size is read back. -/
theorem readLength_lengthBytes (acc n : Nat) (rest : Bytes) :
    readLength acc (lengthBytes n ++ rest) = some (acc + n, rest) := by
  have hrun : ∀ k acc, readLength acc
      (List.replicate k 255 ++ ([UInt8.ofNat (n % 255)] ++ rest))
        = some (acc + 255 * k + n % 255, rest) := by
    intro k
    induction k with
    | zero =>
        intro acc
        have hmod : n % 255 < 255 := Nat.mod_lt _ (by decide)
        have hbyte : (UInt8.ofNat (n % 255)).toNat = n % 255 := by
          rw [UInt8.toNat_ofNat', Nat.mod_eq_of_lt (by omega)]
        have hne : UInt8.ofNat (n % 255) ≠ 255 := by
          intro h
          have := congrArg UInt8.toNat h
          rw [hbyte] at this
          exact absurd this (by simpa using hmod.ne)
        simp [readLength, hne, hbyte]
    | succ k ih =>
        intro acc
        rw [List.replicate_succ, List.cons_append, readLength, if_pos rfl, ih]
        congr 2
        omega
  rw [lengthBytes, List.append_assoc, hrun]
  congr 2
  have := Nat.mod_add_div n 255
  omega

/-- A block of literals is read back. -/
theorem readLiteralBlock_literalBlock (b : Bytes) (room : Nat) (h : b.length ≤ room) :
    readLiteralBlock (literalBlock b) room = some b := by
  rw [literalBlock]
  split
  · rename_i hlt
    have htoken : b.length * 16 % 256 / 16 = b.length := by omega
    simp [readLiteralBlock, htoken, hlt, h]
  · rename_i hge
    have hlen := readLength_lengthBytes 15 (b.length - 15) b
    rw [Nat.add_sub_cancel' (by omega)] at hlen
    simp [readLiteralBlock, hlen, h]

/-- **The literal codec** decompresses what it compressed. -/
theorem literalCodec_lawful : literalCodec.Lawful where
  decompress_compress := readLiteralBlock_literalBlock
  compress_ne_nil b := by
    show literalBlock b ≠ []
    rw [literalBlock]
    split <;> simp

end Liters
