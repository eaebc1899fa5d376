import Mathlib.Data.List.Basic
import Mathlib.Algebra.Order.Ring.Nat

/-!
# Little-endian integers and sequential readers

The two ingredients of a binary record format.

* `leBytes w n` is the little-endian encoding of `n` in `w` bytes and `leNat` reads any byte string
  back; the round trip `leNat_leBytes` is reduction modulo `256 ^ w`.
* `readExact n l` takes exactly `n` elements off the front of a stream, or fails when fewer are
  left.  A reader succeeds on whatever was written in front of an arbitrary rest
  (`readExact_append`) and fails exactly on the short streams (`readExact_eq_none_iff`).
-/

namespace Framework

universe u

/-! ## Little-endian integers -/

/-- The `w` low bytes of `n`, least significant first. -/
def leBytes : ℕ → ℕ → List UInt8
  | 0, _ => []
  | w + 1, n => UInt8.ofNat n :: leBytes w (n / 256)

/-- The number whose base-`256` digits, least significant first, are the given bytes. -/
def leNat : List UInt8 → ℕ
  | [] => 0
  | b :: bs => b.toNat + 256 * leNat bs

@[simp] lemma length_leBytes (w n : ℕ) : (leBytes w n).length = w := by
  induction w generalizing n with
  | zero => rfl
  | succ w ih => rw [leBytes, List.length_cons, ih]

lemma leNat_leBytes (w n : ℕ) : leNat (leBytes w n) = n % 256 ^ w := by
  induction w generalizing n with
  | zero => simp [leBytes, leNat, Nat.mod_one]
  | succ w ih =>
    have hbyte : (UInt8.ofNat n).toNat = n % 256 := UInt8.toNat_ofNat'
    rw [leBytes, leNat, ih, hbyte, pow_succ', Nat.mod_mul (x := n) (a := 256)]

lemma leNat_leBytes_of_lt {w n : ℕ} (h : n < 256 ^ w) : leNat (leBytes w n) = n := by
  rw [leNat_leBytes, Nat.mod_eq_of_lt h]

/-! ## Sequential readers -/

section Readers

variable {α : Type u}

/-- Take exactly `n` elements off the front of the stream, or fail. -/
def readExact (n : ℕ) (l : List α) : Option (List α × List α) :=
  if n ≤ l.length then some (l.take n, l.drop n) else none

variable {n : ℕ} {a l : List α}

lemma readExact_append (h : a.length = n) (b : List α) : readExact n (a ++ b) = some (a, b) := by
  have hn : n ≤ (a ++ b).length := by
    rw [List.length_append]
    omega
  rw [readExact, if_pos hn, List.take_left' h, List.drop_left' h]

lemma readExact_eq_none_iff : readExact n l = none ↔ l.length < n := by
  rw [readExact]
  split
  next h =>
    simp only [reduceCtorEq, false_iff]
    omega
  next h =>
    simp only [true_iff]
    omega

lemma readExact_rest_length {r : List α} (h : readExact n l = some (a, r)) :
    r.length + n = l.length := by
  rw [readExact] at h
  split at h
  · simp only [Option.some.injEq, Prod.mk.injEq] at h
    rw [← h.2, List.length_drop]
    omega
  · cases h

end Readers

end Framework
