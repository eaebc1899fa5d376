import Mathlib.Data.List.Basic
import Mathlib.Tactic.Common

/-!
# Pages

A page is a block of exactly `pageSize` bytes; the size is a field, so that no other value can be
built.  `Page.write` is the slice assignment `data[off..off + len].copy_from_slice(..)` of the
source, guarded by the bound check every caller makes.
-/

namespace LightningDB

open List

/-- `PAGE_SIZE`. -/
def pageSize : ℕ := 4096

/-- A block of `pageSize` bytes. -/
@[ext]
structure Page where
  bytes : List UInt8
  size : bytes.length = pageSize
deriving DecidableEq

namespace Page

/-- The page all of whose bytes are `b`. -/
def fill (b : UInt8) : Page where
  bytes := List.replicate pageSize b
  size := length_replicate

/-- The page of a short read: `vec![0u8; PAGE_SIZE]`. -/
def zero : Page := fill 0

instance : Inhabited Page := ⟨zero⟩

/-- Overwrite the slice of `data.length` bytes at `off`; a slice that leaves the page is not
written. -/
def write (p : Page) (off : ℕ) (data : List UInt8) : Page :=
  if h : off + data.length ≤ pageSize then
    { bytes := p.bytes.take off ++ data ++ p.bytes.drop (off + data.length)
      size := by
        have hp := p.size
        simp only [length_append, length_take, length_drop]
        omega }
  else p

variable {off : ℕ} {data : List UInt8}

lemma bytes_write_outside (p : Page) {i : ℕ}
    (h : ¬ (off ≤ i ∧ i < off + data.length ∧ off + data.length ≤ pageSize)) :
    (p.write off data).bytes[i]? = p.bytes[i]? := by
  have hsize := p.size
  rw [write]
  split
  next hle =>
    dsimp only
    rcases Nat.lt_or_ge i off with hi | hi
    · rw [append_assoc, getElem?_append_left (by rw [length_take]; omega),
        getElem?_take_of_lt hi]
    · have hi' : off + data.length ≤ i := by omega
      rw [getElem?_append_right (by rw [length_append, length_take]; omega),
        getElem?_drop, length_append, length_take, Nat.min_eq_left (by omega)]
      congr 1
      omega
  · rfl

/-- The slice of `len` bytes at `off`. -/
def slice (p : Page) (off len : ℕ) : List UInt8 := (p.bytes.drop off).take len

lemma slice_write_self (p : Page) (h : off + data.length ≤ pageSize) :
    (p.write off data).slice off data.length = data := by
  have hsize := p.size
  rw [slice, write, dif_pos h]
  dsimp only
  rw [append_assoc, drop_left' (by rw [length_take]; omega), take_left]

lemma slice_write_of_apart (p : Page) {o len : ℕ} (h : o + len ≤ off ∨ off + data.length ≤ o) :
    (p.write off data).slice o len = p.slice o len := by
  refine ext_getElem? fun i => ?_
  rw [slice, slice, getElem?_take, getElem?_take]
  split
  · rw [getElem?_drop, getElem?_drop, bytes_write_outside p (by omega)]
  · rfl

end Page

end LightningDB
