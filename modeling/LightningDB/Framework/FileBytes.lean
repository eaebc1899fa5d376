import Mathlib.Data.List.GetD
import Mathlib.Tactic.Common

/-!
# Random access to the bytes of a file

A file is a list of bytes.  A positioned write overwrites and extends it, and fills the gap with
zeros when it starts behind the end; a positioned read takes what is there and fills up with zeros.
Read back, a file is the function `i ↦ bytes.getD i 0`, and `getD_writeAt` says what a write does to
it.
-/

namespace Framework

open List

/-- Write `buf` at `off`. -/
def writeAt (bytes : List UInt8) (off : ℕ) (buf : List UInt8) : List UInt8 :=
  bytes.take off ++ List.replicate (off - bytes.length) 0 ++ buf ++ bytes.drop (off + buf.length)

/-- Read `len` bytes at `off`. -/
def readAt (bytes : List UInt8) (off len : ℕ) : List UInt8 :=
  let got := (bytes.drop off).take len
  got ++ List.replicate (len - got.length) 0

lemma getD_append_replicate {α : Type*} (l : List α) (n i : ℕ) (d : α) :
    (l ++ replicate n d).getD i d = l.getD i d := by
  rcases Nat.lt_or_ge i l.length with h | h
  · rw [getD_append _ _ _ _ h]
  · rw [getD_append_right _ _ _ _ h, getD_eq_default _ _ h]
    rcases Nat.lt_or_ge (i - l.length) n with h' | h'
    · rw [getD_eq_getElem _ _ (by simpa using h'), getElem_replicate]
    · rw [getD_eq_default _ _ (by simpa using h')]

variable (bytes : List UInt8)

lemma getD_writeAt (off : ℕ) (buf : List UInt8) (i : ℕ) : (writeAt bytes off buf).getD i 0 =
      if off ≤ i ∧ i < off + buf.length then buf.getD (i - off) 0 else bytes.getD i 0 := by
  have hlen : (bytes.take off ++ replicate (off - bytes.length) (0 : UInt8)).length = off := by
    rw [length_append, length_take, length_replicate]
    omega
  rw [writeAt]
  rcases Nat.lt_or_ge i off with h | h
  · -- before the buffer: the old bytes, or the gap
    rw [if_neg (by omega), append_assoc, getD_append _ _ _ _ (by omega), getD_append_replicate]
    rw [getD_eq_getElem?_getD, getD_eq_getElem?_getD, getElem?_take_of_lt h]
  · rcases Nat.lt_or_ge i (off + buf.length) with h' | h'
    · rw [if_pos ⟨h, h'⟩, append_assoc, getD_append_right _ _ _ _ (by omega), hlen,
        getD_append _ _ _ _ (by omega)]
    · rw [if_neg (by omega), getD_append_right _ _ _ _ (by rw [length_append]; omega),
        length_append, getD_eq_getElem?_getD, getElem?_drop]
      congr 2
      omega

lemma readAt_eq_map (off len : ℕ) :
    readAt bytes off len = (range len).map fun i => bytes.getD (off + i) 0 := by
  have hlen : (readAt bytes off len).length = len := by
    simp only [readAt, length_append, length_take, length_replicate]
    omega
  refine ext_getElem (by simp [hlen]) fun i h₁ h₂ => ?_
  rw [getElem_map, getElem_range, ← getD_eq_getElem _ 0 h₁, readAt]
  rw [getD_append_replicate]
  have hi : i < len := hlen ▸ h₁
  rw [getD_eq_getElem?_getD, getElem?_take_of_lt hi, getElem?_drop, getD_eq_getElem?_getD]

lemma readAt_writeAt_self (off : ℕ) (buf : List UInt8) :
    readAt (writeAt bytes off buf) off buf.length = buf := by
  rw [readAt_eq_map]
  refine ext_getElem (by simp) fun i h₁ h₂ => ?_
  rw [getElem_map, getElem_range, getD_writeAt, if_pos ⟨by omega, by omega⟩,
    Nat.add_sub_cancel_left, getD_eq_getElem _ _ h₂]

lemma readAt_writeAt_of_disjoint {off off' len : ℕ} {buf : List UInt8}
    (h : off' + len ≤ off ∨ off + buf.length ≤ off') :
    readAt (writeAt bytes off buf) off' len = readAt bytes off' len := by
  rw [readAt_eq_map, readAt_eq_map]
  refine map_congr_left fun i hi => ?_
  rw [mem_range] at hi
  rw [getD_writeAt, if_neg (by omega)]

end Framework
