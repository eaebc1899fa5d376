import Mathlib.Data.Int.Notation
import Mathlib.Data.List.Perm.Basic
import Mathlib.Data.Nat.Notation

/-!
# Attempts in a sliding window

An `AttemptRecord` keeps the times of the attempts that have been let through within a window, and a
lock.  `Limits.allow` lets an attempt through if, with it, there are less than `max` of them in the
window; otherwise it forgets the times and locks.  When the lock has expired the record starts anew, and
a record may be dropped at any time, which *forgives* the attempts so far.

`Limits.Bounded` relates a record to all attempts that have been let through.  What a record has
forgotten is outside of every window that ends from now on, is under the lock, or has been forgiven;
that is enough for the bound over every window without forgiveness (`Bounded.bound`), if the lock
lasts at least as long as the window.
-/

namespace Framework

open List

/-- How many attempts are too many, within which time, and for how long they lock. -/
structure Limits where
  max : ℕ
  window : ℤ
  lockout : ℤ

/-- The attempts that have been let through within the window, and the end of the lock. -/
structure AttemptRecord where
  timestamps : List ℤ
  lockedUntil : Option ℤ
deriving DecidableEq

instance : EmptyCollection AttemptRecord := ⟨⟨[], none⟩⟩

namespace Limits

variable (L : Limits)

/-- An attempt when there is no lock. -/
def attempt (r : AttemptRecord) (now : ℤ) : Bool × AttemptRecord :=
  if L.max ≤ (r.timestamps.filter (now - L.window < ·) ++ [now]).length then
    (false, ⟨[], some (now + L.lockout)⟩)
  else (true, { r with timestamps := r.timestamps.filter (now - L.window < ·) ++ [now] })

/-- Whether an attempt is let through, and the record after it. -/
def allow (r : AttemptRecord) (now : ℤ) : Bool × AttemptRecord :=
  match r.lockedUntil with
  | none => L.attempt r now
  | some lockEnd => if now < lockEnd then (false, r) else L.attempt ∅ now

/-- The window that ends at `t`. -/
def InWindow (t x : ℤ) : Prop := t - L.window < x ∧ x ≤ t

instance (t x : ℤ) : Decidable (L.InWindow t x) := inferInstanceAs (Decidable (_ ∧ _))

/-- Why a record need not know of an attempt any more. -/
def Forgotten (now : ℤ) (forgiven : List ℤ) (r : AttemptRecord) (x : ℤ) : Prop :=
  x ≤ now - L.window ∨ (∃ e, r.lockedUntil = some e ∧ x + L.window ≤ e) ∨ ∃ y ∈ forgiven, x ≤ y

/-- The record at time `now`, when `passes` have been let through and there has been forgiveness at the
times `forgiven`. -/
structure Bounded (now : ℤ) (passes forgiven : List ℤ) (r : AttemptRecord) : Prop where
  past : ∀ x ∈ passes, x ≤ now
  forgivenPast : ∀ y ∈ forgiven, y ≤ now
  short : r.timestamps.length < L.max
  cleared : ∀ e, r.lockedUntil = some e → r.timestamps = []
  kept : ∃ old, passes.Perm (r.timestamps ++ old) ∧ ∀ x ∈ old, L.Forgotten now forgiven r x
  bound : ∀ t, (∀ y ∈ forgiven, ¬ L.InWindow t y) →
    passes.countP (fun x => decide (L.InWindow t x)) < L.max

variable {L} {now now' : ℤ} {passes forgiven : List ℤ} {r : AttemptRecord}

lemma bounded_empty (hmax : 0 < L.max) (now : ℤ) : L.Bounded now [] [] ∅ where
  past := nofun
  forgivenPast := nofun
  short := hmax
  cleared := nofun
  kept := ⟨[], List.Perm.refl _, nofun⟩
  bound _ _ := hmax

variable (h : L.Bounded now passes forgiven r)

include h

lemma Bounded.elapse (hle : now ≤ now') : L.Bounded now' passes forgiven r where
  past x hx := Int.le_trans (h.past x hx) hle
  forgivenPast y hy := Int.le_trans (h.forgivenPast y hy) hle
  short := h.short
  cleared := h.cleared
  kept := by
    obtain ⟨old, hperm, hold⟩ := h.kept
    refine ⟨old, hperm, fun x hx => ?_⟩
    rcases hold x hx with hx | hx
    · exact .inl (by omega)
    · exact .inr hx
  bound := h.bound

lemma Bounded.forgive : L.Bounded now passes (now :: forgiven) ∅ where
  past := h.past
  forgivenPast y hy := by
    rcases mem_cons.1 hy with rfl | hy
    · exact Int.le_refl y
    · exact h.forgivenPast y hy
  short := Nat.zero_lt_of_lt h.short
  cleared := nofun
  kept := ⟨passes, List.Perm.refl _, fun x hx =>
    .inr (.inr ⟨now, mem_cons_self, h.past x hx⟩)⟩
  bound t ht := h.bound t fun y hy => ht y (mem_cons_of_mem _ hy)

lemma Bounded.expire {e : ℤ} (hlock : r.lockedUntil = some e)
    (hexpired : e ≤ now) : L.Bounded now passes forgiven ∅ where
  past := h.past
  forgivenPast := h.forgivenPast
  short := Nat.zero_lt_of_lt h.short
  cleared := nofun
  kept := by
    obtain ⟨old, hperm, hold⟩ := h.kept
    rw [h.cleared e hlock] at hperm
    refine ⟨old, hperm, fun x hx => ?_⟩
    rcases hold x hx with hx | ⟨e', he', hx⟩ | hx
    · exact .inl hx
    · rw [hlock, Option.some.injEq] at he'
      exact .inl (by omega)
    · exact .inr (.inr hx)
  bound := h.bound

lemma Bounded.prune (hlock : r.lockedUntil = none) :
    ∃ old, passes.Perm (r.timestamps.filter (now - L.window < ·) ++ old) ∧
      ∀ x ∈ old, x ≤ now - L.window ∨ ∃ y ∈ forgiven, x ≤ y := by
  obtain ⟨old, hperm, hold⟩ := h.kept
  refine ⟨r.timestamps.filter (fun x => !decide (now - L.window < x)) ++ old, ?_, fun x hx => ?_⟩
  · rw [← append_assoc]
    exact hperm.trans ((filter_append_perm _ _).symm.append_right old)
  · rcases mem_append.1 hx with hx | hx
    · have hnot := (mem_filter.1 hx).2
      exact .inl (by simpa using hnot)
    · rcases hold x hx with hx | ⟨e, he, -⟩ | hx
      · exact .inl hx
      · rw [hlock] at he
        cases he
      · exact .inr hx

lemma Bounded.attempt (hlock : r.lockedUntil = none) (hle : L.window ≤ L.lockout) :
    L.Bounded now (if (L.attempt r now).1 then now :: passes else passes) forgiven
      (L.attempt r now).2 := by
  obtain ⟨old, hperm, hold⟩ := h.prune hlock
  rw [Limits.attempt]
  split
  · -- the times are cleared, and the lock outlasts the window of each of them
    refine ⟨h.past, h.forgivenPast, Nat.zero_lt_of_lt h.short, fun _ _ => rfl,
      ⟨passes, List.Perm.refl _, ?_⟩, h.bound⟩
    intro x hx
    have hpast := h.past x hx
    exact .inr (.inl ⟨now + L.lockout, rfl, by omega⟩)
  next hshort =>
    have hperm' : (now :: passes).Perm
        ((r.timestamps.filter (now - L.window < ·) ++ [now]) ++ old) := by
      rw [append_assoc]
      exact (hperm.cons now).trans perm_middle.symm
    refine ⟨?_, h.forgivenPast, Nat.lt_of_not_le hshort, ?_, ⟨old, hperm', ?_⟩, ?_⟩
    · intro x hx
      rcases mem_cons.1 hx with rfl | hx
      · exact Int.le_refl x
      · exact h.past x hx
    · intro e he
      rw [hlock] at he
      cases he
    · intro x hx
      rcases hold x hx with hx | hx
      · exact .inl hx
      · exact .inr (.inr hx)
    · intro t ht
      by_cases hnow : now ≤ t
      · -- what the record does not have is not in the window
        have hout : old.countP (fun x => decide (L.InWindow t x)) = 0 := by
          refine countP_eq_zero.2 fun x hx hin => ?_
          obtain ⟨hlow, -⟩ := of_decide_eq_true hin
          rcases hold x hx with hx | ⟨y, hy, hxy⟩
          · omega
          · have hynow := h.forgivenPast y hy
            exact ht y hy ⟨by omega, by omega⟩
        rw [if_pos rfl, hperm'.countP_eq, countP_append, hout]
        exact Nat.lt_of_le_of_lt countP_le_length (Nat.lt_of_not_le hshort)
      · have hnot : ¬ L.InWindow t now := fun hin => hnow hin.2
        rw [if_pos rfl, countP_cons_of_neg (by simpa using hnot)]
        exact h.bound t ht

/-- **The step of the limiter.**  An attempt keeps the bound, whether it is let through or not. -/
theorem Bounded.allow (hle : L.window ≤ L.lockout) :
    L.Bounded now (if (L.allow r now).1 then now :: passes else passes) forgiven
      (L.allow r now).2 := by
  cases hlock : r.lockedUntil with
  | none =>
    rw [Limits.allow, hlock]
    exact h.attempt hlock hle
  | some e =>
    simp only [Limits.allow, hlock]
    split
    · exact h
    next hexpired => exact (h.expire hlock (Int.not_lt.1 hexpired)).attempt rfl hle

end Limits

end Framework
