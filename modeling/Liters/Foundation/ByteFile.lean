import Liters.Foundation.Bytes
import Mathlib.Data.List.GetD
import Mathlib.Tactic.Common

/-! # Writing into a file

A file as its bytes, with the two operations that change one in place: a write at an offset, which
extends the file with zeros if it has to, and a change of its length. Both are described by the
length and by the byte at each offset, a byte behind the end read as zero. -/

namespace Liters

/-- Write at an offset. Bytes between the end of the file and the offset are zeros. -/
def pwrite (f : Bytes) (off : Nat) (data : Bytes) : Bytes :=
  if data = [] then f
  else (f.take off ++ List.replicate (off - f.length) 0) ++ data ++ f.drop (off + data.length)

/-- Cut the file or extend it with zeros. -/
def setLen (f : Bytes) (n : Nat) : Bytes := f.take n ++ List.replicate (n - f.length) 0

/-- The byte at an offset. -/
def byteAt (f : Bytes) (i : Nat) : UInt8 := f.getD i 0

/-- Behind its end a file reads as zeros. -/
theorem byteAt_of_le {f : Bytes} {i : Nat} (h : f.length ≤ i) : byteAt f i = 0 := by
  rw [byteAt, List.getD_eq_default _ _ h]

/-- The first of two joined files comes first. -/
theorem byteAt_append_left {f g : Bytes} {i : Nat} (h : i < f.length) :
    byteAt (f ++ g) i = byteAt f i := by
  rw [byteAt, byteAt, List.getD_append _ _ _ _ h]

/-- The second one follows where the first one ends. -/
theorem byteAt_append_right {f g : Bytes} {i : Nat} (h : f.length ≤ i) :
    byteAt (f ++ g) i = byteAt g (i - f.length) := by
  rw [byteAt, byteAt, List.getD_append_right _ _ _ _ h]

/-- A file that is cut keeps what is before the cut. -/
theorem byteAt_take {f : Bytes} {n i : Nat} (h : i < n) : byteAt (f.take n) i = byteAt f i := by
  rw [byteAt, byteAt, List.getD_eq_getElem?_getD, List.getD_eq_getElem?_getD,
    List.getElem?_take_of_lt h]

/-- What is dropped shifts the rest. -/
theorem byteAt_drop (f : Bytes) (n i : Nat) : byteAt (f.drop n) i = byteAt f (n + i) := by
  rw [byteAt, byteAt, List.getD_eq_getElem?_getD, List.getD_eq_getElem?_getD, List.getElem?_drop]

/-- A file of zeros reads as zeros. -/
theorem byteAt_replicate (n i : Nat) : byteAt (List.replicate n 0) i = 0 := by
  rw [byteAt, List.getD_eq_getElem?_getD, List.getElem?_replicate]
  split
  · rfl
  · rfl

/-- `set_len` gives a file the length it is told. -/
@[simp] theorem length_setLen (f : Bytes) (n : Nat) : (setLen f n).length = n := by
  simp only [setLen, List.length_append, List.length_take, List.length_replicate]
  omega

/-- It keeps what is before that length. -/
theorem byteAt_setLen (f : Bytes) {n i : Nat} (h : i < n) : byteAt (setLen f n) i = byteAt f i := by
  unfold setLen
  by_cases hi : i < f.length
  · rw [byteAt_append_left (by rw [List.length_take]; omega), byteAt_take h]
  · rw [byteAt_append_right (by rw [List.length_take]; omega), byteAt_replicate,
      byteAt_of_le (by omega)]

/-- A write extends a file as far as it reaches. -/
theorem length_pwrite (f : Bytes) (off : Nat) {data : Bytes} (h : data ≠ []) :
    (pwrite f off data).length = max f.length (off + data.length) := by
  rw [pwrite, if_neg h]
  simp only [List.length_append, List.length_take, List.length_replicate, List.length_drop]
  omega

/-- The bytes written are the bytes there. -/
theorem byteAt_pwrite_of_mem (f : Bytes) {off : Nat} {data : Bytes} {i : Nat}
    (h : i < data.length) : byteAt (pwrite f off data) (off + i) = byteAt data i := by
  have hne : data ≠ [] := List.ne_nil_of_length_pos (by omega)
  have hlead : (f.take off ++ List.replicate (off - f.length) 0).length = off := by
    simp only [List.length_append, List.length_take, List.length_replicate]
    omega
  rw [pwrite, if_neg hne, List.append_assoc, byteAt_append_right (by omega), hlead,
    Nat.add_sub_cancel_left, byteAt_append_left h]

/-- The other bytes stay. -/
theorem byteAt_pwrite_of_not_mem (f : Bytes) {off : Nat} {data : Bytes} {i : Nat}
    (h : i < off ∨ off + data.length ≤ i) : byteAt (pwrite f off data) i = byteAt f i := by
  have hlead : (f.take off ++ List.replicate (off - f.length) 0).length = off := by
    simp only [List.length_append, List.length_take, List.length_replicate]
    omega
  by_cases hdata : data = []
  · rw [pwrite, if_pos hdata]
  rw [pwrite, if_neg hdata, List.append_assoc]
  rcases h with h | h
  · rw [byteAt_append_left (by omega)]
    -- in front of the write: the file, or zeros behind its end
    by_cases hi : i < f.length
    · rw [byteAt_append_left (by rw [List.length_take]; omega), byteAt_take h]
    · rw [byteAt_append_right (by rw [List.length_take]; omega), byteAt_replicate,
        byteAt_of_le (by omega)]
  · rw [byteAt_append_right (by omega), hlead, byteAt_append_right (by omega), byteAt_drop]
    congr 1
    omega

end Liters
