import Mathlib.Data.List.Basic
import Mathlib.Data.List.Induction
import Mathlib.Tactic.Ring

/-! # Byte strings

Byte strings as lists of `UInt8`, fixed-width integers in both byte orders, and the two ways a
program reads a byte string: `readExact` consumes a prefix or fails, `readAt` returns whatever lies
at a position (fewer bytes than asked for at the end of the file, never an error). -/

namespace Liters

/-- A byte string. -/
abbrev Bytes := List UInt8

/-! ## Fixed-width integers -/

/-- The `k`-byte big-endian form of `n` (of `n % 256 ^ k` when `n` does not fit). -/
def beBytes : Nat → Nat → Bytes
  | 0, _ => []
  | k + 1, n => beBytes k (n / 256) ++ [UInt8.ofNat n]

/-- The number a big-endian byte string denotes. -/
def beNat (b : Bytes) : Nat := b.foldl (fun a x => a * 256 + x.toNat) 0

/-- The `k`-byte little-endian form of `n` (of `n % 256 ^ k` when `n` does not fit). -/
def leBytes : Nat → Nat → Bytes
  | 0, _ => []
  | k + 1, n => UInt8.ofNat n :: leBytes k (n / 256)

/-- The number a little-endian byte string denotes. -/
def leNat : Bytes → Nat
  | [] => 0
  | x :: b => x.toNat + 256 * leNat b

/-- Big-endian encoding has the width it is given. -/
@[simp] theorem beBytes_length (k n : Nat) : (beBytes k n).length = k := by
  induction k generalizing n with
  | zero => rfl
  | succ k ih => simp [beBytes, ih]

/-- Little-endian encoding has the width it is given. -/
@[simp] theorem leBytes_length (k n : Nat) : (leBytes k n).length = k := by
  induction k generalizing n with
  | zero => rfl
  | succ k ih => simp [leBytes, ih]

/-- One more big-endian byte is one more digit. -/
theorem beNat_concat (b : Bytes) (x : UInt8) : beNat (b ++ [x]) = beNat b * 256 + x.toNat := by
  simp [beNat, List.foldl_append]

/-- Reading back a big-endian integer gives it modulo the width. -/
theorem beNat_beBytes (k n : Nat) : beNat (beBytes k n) = n % 256 ^ k := by
  induction k generalizing n with
  | zero => simp [beBytes, beNat, Nat.mod_one]
  | succ k ih =>
      rw [beBytes, beNat_concat, ih, pow_succ]
      have h : (UInt8.ofNat n).toNat = n % 256 := by simp
      rw [h, Nat.mul_comm (256 ^ k) 256, Nat.mod_mul]
      ring

/-- Reading back a little-endian integer gives it modulo the width. -/
theorem leNat_leBytes (k n : Nat) : leNat (leBytes k n) = n % 256 ^ k := by
  induction k generalizing n with
  | zero => simp [leBytes, leNat, Nat.mod_one]
  | succ k ih =>
      have h : (UInt8.ofNat n).toNat = n % 256 := by simp
      rw [leBytes, leNat, ih, h, pow_succ, Nat.mul_comm (256 ^ k) 256, Nat.mod_mul]

/-- A number that fits is read back, high byte first. -/
theorem beNat_beBytes_of_lt {k n : Nat} (h : n < 256 ^ k) : beNat (beBytes k n) = n := by
  rw [beNat_beBytes, Nat.mod_eq_of_lt h]

/-- A number that fits is read back, low byte first. -/
theorem leNat_leBytes_of_lt {k n : Nat} (h : n < 256 ^ k) : leNat (leBytes k n) = n := by
  rw [leNat_leBytes, Nat.mod_eq_of_lt h]

/-- A 32-bit number is read back from four bytes. -/
@[simp] theorem ofNat_beNat_beBytes_four (x : UInt32) :
    UInt32.ofNat (beNat (beBytes 4 x.toNat)) = x := by
  rw [beNat_beBytes_of_lt x.toNat_lt, UInt32.ofNat_toNat]

/-- A 64-bit number is read back from eight bytes. -/
@[simp] theorem ofNat_beNat_beBytes_eight (x : UInt64) :
    UInt64.ofNat (beNat (beBytes 8 x.toNat)) = x := by
  rw [beNat_beBytes_of_lt x.toNat_lt, UInt64.ofNat_toNat]

/-- A big-endian string denotes a number below its width. -/
theorem beNat_lt (b : Bytes) : beNat b < 256 ^ b.length := by
  induction b using List.reverseRecOn with
  | nil => simp [beNat]
  | append_singleton b x ih =>
      have hx : x.toNat < 256 := x.toNat_lt
      rw [beNat_concat, List.length_append, List.length_singleton, pow_succ]
      omega

/-! ## Reading -/

/-- `read_exact`: the first `n` bytes and what follows them, or `none` at the end of the input. -/
def readExact (n : Nat) (b : Bytes) : Option (Bytes × Bytes) :=
  if n ≤ b.length then some (b.take n, b.drop n) else none

/-- Reading exactly a known prefix returns it and leaves the rest. -/
theorem readExact_append {n : Nat} (a b : Bytes) (h : a.length = n) :
    readExact n (a ++ b) = some (a, b) := by
  subst h
  simp [readExact]

/-- Positioned read: up to `n` bytes at `offset`, fewer at the end of the string. -/
def readAt (b : Bytes) (offset n : Nat) : Bytes := (b.drop offset).take n

/-- A read returns what is asked for, as far as the data goes. -/
@[simp] theorem readAt_length (b : Bytes) (offset n : Nat) :
    (readAt b offset n).length = min n (b.length - offset) := by
  simp [readAt]

/-- A read that lies inside the second part of a concatenation reads that part. -/
theorem readAt_append_right (a b : Bytes) (offset n : Nat) :
    readAt (a ++ b) (a.length + offset) n = readAt b offset n := by
  rw [readAt, readAt, List.drop_append, List.drop_eq_nil_of_le (Nat.le_add_right _ _)]
  simp

/-- A read behind the first part of a concatenation reads the second part. -/
theorem readAt_append_of_le {a b : Bytes} {offset n : Nat} (h : a.length ≤ offset) :
    readAt (a ++ b) offset n = readAt b (offset - a.length) n := by
  have := readAt_append_right a b (offset - a.length) n
  rwa [Nat.add_sub_cancel' h] at this

/-- A read at the start of a known prefix returns that prefix. -/
theorem readAt_start {n : Nat} (a b : Bytes) (h : a.length = n) : readAt (a ++ b) 0 n = a := by
  subst h
  simp [readAt]

/-- Reading inside a segment that lies at `pre.length` of the string. -/
theorem readAt_segment {n : Nat} (pre seg post : Bytes) (h : seg.length = n) :
    readAt (pre ++ seg ++ post) pre.length n = seg := by
  have := readAt_append_right pre (seg ++ post) 0 n
  rw [Nat.add_zero] at this
  rw [List.append_assoc, this, readAt_start seg post h]

/-- A read within what was read. -/
theorem readAt_readAt (b : Bytes) {offset n pos m : Nat} (h : pos + m ≤ n) :
    readAt (readAt b offset n) pos m = readAt b (offset + pos) m := by
  rw [readAt, readAt, readAt, List.drop_take, List.take_take, List.drop_drop,
    Nat.min_eq_left (by omega)]

/-- A read within the first bytes depends on these only. -/
theorem readAt_congr_take {a b : Bytes} {k offset n : Nat} (h : a.take k = b.take k)
    (hle : offset + n ≤ k) :
    readAt a offset n = readAt b offset n := by
  have hread : ∀ c : Bytes, readAt c offset n = readAt (c.take k) offset n := by
    intro c
    rw [readAt, readAt, List.drop_take, List.take_take, Nat.min_eq_left (by omega)]
  rw [hread a, h, ← hread b]

end Liters
