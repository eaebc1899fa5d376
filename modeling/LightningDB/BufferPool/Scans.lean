import LightningDB.BufferPool.Residents
import Mathlib.Data.List.MinMax

/-!
# Which version an operation finds

`pin_page` and `create_new_version` go through the resident frames of a page from the newest slot to the
oldest.  They stop at the caller's own mark, and otherwise find the greatest admitted committed version,
and if that is `0` the frame that was loaded last.  `log_page_update` takes the greatest number of all.
-/

namespace LightningDB

open List Option

/-- A committed frame that a scan with the bound `ok` takes into account. -/
def Entry.admitted (ok : ℕ → Bool) (e : Entry) : Bool := e.committed && ok e.frame.version

/-- The choice: the greatest admitted version, and of several such frames the first. -/
def choose (ok : ℕ → Bool) (l : List Entry) : Option Entry :=
  (l.filter (·.admitted ok)).argmax (·.frame.version)

section Choice

variable {ok : ℕ → Bool} {l : List Entry} {e : Entry}

/-- A frame more at the end: the condition of the loop of `pin_page`. -/
lemma choose_concat (l : List Entry) (e : Entry) : choose ok (l ++ [e]) =
    if e.committed && ok e.frame.version &&
        (decide ((choose ok l).elim 0 (·.frame.version) < e.frame.version) ||
          (decide (e.frame.version = 0) && (choose ok l).isNone)) then some e
    else choose ok l := by
  rw [choose, filter_append]
  cases had : e.admitted ok with
  | false =>
    rw [Entry.admitted] at had
    simp [choose, Entry.admitted, had]
  | true =>
    rw [filter_cons_of_pos had, filter_nil, argmax_concat, ← choose]
    rw [Entry.admitted] at had
    rw [had, Bool.true_and]
    cases choose ok l with
    | none => rcases Nat.eq_zero_or_pos e.frame.version with h0 | hpos <;> simp [*]
    | some b => by_cases hlt : b.frame.version < e.frame.version <;> simp [hlt]

lemma scanVersions_choose (own : ℕ) (l seen : List Entry) : scanVersions own ok (choose ok seen) l =
    (l.find? fun e => e.frame.version = own).or (choose ok (seen ++ l)) := by
  induction l generalizing seen with
  | nil => simp [scanVersions]
  | cons e es ih =>
    rw [scanVersions]
    split
    next hown => simp [hown]
    next hown =>
      rw [find?_cons_of_neg (by simpa using hown), ← singleton_append, ← append_assoc, ← ih, choose_concat]
      split <;> rfl

end Choice

/-- **The scan of `pin_page`.**  It finds the caller's own version if there is one, and otherwise
a committed one, if any. -/
theorem scanVersions_spec (ok : ℕ → Bool) (own : ℕ) (l : List Entry) :
    (∃ e ∈ l, e.frame.version = own ∧ scanVersions own ok none l = some e) ∨
      ((∀ e ∈ l, e.frame.version ≠ own) ∧
        ∀ b ∈ scanVersions own ok none l, b ∈ l ∧ b.committed = true) := by
  have hscan := @scanVersions_choose ok own l []
  rw [show choose ok [] = none from rfl, nil_append] at hscan
  cases hfind : l.find? fun e => e.frame.version = own with
  | some e =>
    rw [hfind] at hscan
    exact .inl ⟨e, mem_of_find?_eq_some hfind, by simpa using find?_some hfind, hscan⟩
  | none =>
    rw [hfind, none_or] at hscan
    refine .inr ⟨by simpa using hfind, fun b hb => ?_⟩
    rw [hscan] at hb
    obtain ⟨hmem, hadmitted⟩ := mem_filter.1 (argmax_mem hb)
    exact ⟨hmem, (Bool.and_eq_true_iff.1 hadmitted).1⟩

/-- **The id `log_page_update` infers** is the greatest of the resident versions, marks taken
off. -/
theorem logTxId_spec (bm : BufferManager) (k : PageKey) :
    (∀ e ∈ bm.entries k, unmarked e.frame.version ≤ bm.logTxId k) ∧
      (bm.logTxId k = 0 ∨ ∃ e ∈ bm.entries k, bm.logTxId k = unmarked e.frame.version) := by
  rw [BufferManager.logTxId]
  induction bm.entries k using reverseRecOn with
  | nil => exact ⟨nofun, .inl rfl⟩
  | append_singleton l e ih =>
    obtain ⟨hle, hmem⟩ := ih
    rw [foldl_append, foldl_cons, foldl_nil]
    split
    next hlt =>
      refine ⟨forall_mem_append.2 ⟨fun e' he' => ?_, forall_mem_singleton.2 le_rfl⟩, .inr ⟨e, ?_, rfl⟩⟩
      · exact (hle e' he').trans hlt.le
      · exact mem_append_right _ (mem_singleton_self e)
    next hge =>
      refine ⟨forall_mem_append.2 ⟨hle, forall_mem_singleton.2 (not_lt.1 hge)⟩, hmem.imp id ?_⟩
      rintro ⟨e', he', heq⟩
      exact ⟨e', mem_append_left _ he', heq⟩

end LightningDB
