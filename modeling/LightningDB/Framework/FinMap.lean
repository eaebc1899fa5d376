import Mathlib.Data.List.AList
import Mathlib.Logic.Function.Basic
import Mathlib.Order.Lattice
import Mathlib.Order.MinMax

/-!
# Finite maps with in-place filtering, and counting maps

A finite map is an association list without duplicate keys (`AList`); the lemmas here put its
lookups into the one-line `if` form that case splits work with, and add the operation `retain`,
which visits every entry once and either drops it or replaces its value, and `countWhere`, the
number of entries of a kind.

`CountMap` is a finite map of *positive* counters.  The positivity is a field, so a key is present
exactly when its count is not zero, and the least key is the least counted element.
-/

namespace Framework

open Function List Option

universe u v

variable {α : Type u} {β : Type v}

/-- A finite map: an association list whose keys are pairwise distinct. -/
abbrev FinMap (α : Type u) (β : Type v) := AList (fun _ : α => β)

namespace FinMap

section Lookup

variable [DecidableEq α]

lemma lookup_insert_eq_ite (m : FinMap α β) (k k' : α) (b : β) :
    (m.insert k b).lookup k' = if k' = k then some b else m.lookup k' := by
  by_cases h : k' = k
  · subst h
    rw [if_pos rfl]
    exact AList.lookup_insert m
  · rw [if_neg h]
    exact AList.lookup_insert_ne h

lemma lookup_erase_eq_ite (m : FinMap α β) (k k' : α) :
    (m.erase k).lookup k' = if k' = k then none else m.lookup k' := by
  by_cases h : k' = k
  · subst h
    rw [if_pos rfl]
    exact AList.lookup_erase k' m
  · rw [if_neg h]
    exact AList.lookup_erase_ne h

variable {m : FinMap α β} {k k' : α} {b : β}

/-- What is there after an insertion is the new value, or was there before. -/
lemma of_lookup_insert {b' : β}
    (h : (m.insert k b).lookup k' = some b') : k' = k ∧ b = b' ∨ k' ≠ k ∧ m.lookup k' = some b' := by
  rw [lookup_insert_eq_ite] at h
  split at h
  · exact .inl ⟨‹_›, some.inj h⟩
  · exact .inr ⟨‹_›, h⟩

/-- What holds of every entry and of the new one. -/
lemma forall_insert {P : α → β → Prop} (h : ∀ k b, m.lookup k = some b → P k b) (hb : P k b) (k' b')
    (h' : (m.insert k b).lookup k' = some b') : P k' b' := by
  rcases of_lookup_insert h' with ⟨rfl, rfl⟩ | ⟨-, h'⟩
  · exact hb
  · exact h k' b' h'

lemma of_lookup_erase (h : (m.erase k).lookup k' = some b) : k' ≠ k ∧ m.lookup k' = some b := by
  rwa [lookup_erase_eq_ite, ite_none_left_eq_some] at h

end Lookup

end FinMap

/-! ## Maps as functions -/

section Update

variable [DecidableEq α] {m : α → Option β} {k k' : α} {b : β}

/-- What a map has after an update is the new value, or was there before. -/
lemma of_update {v : Option β} (h : update m k v k' = some b) :
    k' = k ∧ v = some b ∨ k' ≠ k ∧ m k' = some b := by
  rw [update_apply] at h
  split at h
  · exact .inl ⟨‹_›, h⟩
  · exact .inr ⟨‹_›, h⟩

lemma of_mem_update {m : α → List β} {l : List β} (h : b ∈ update m k l k') :
    k' = k ∧ b ∈ l ∨ k' ≠ k ∧ b ∈ m k' := by
  rw [update_apply] at h
  split at h
  · exact .inl ⟨‹_›, h⟩
  · exact .inr ⟨‹_›, h⟩

/-- Where something with a property was, there still is something if the new value has it too. -/
lemma exists_update {P : β → Prop} {v b' : β} (hk : m k = some b) (h : m k' = some b') (hb' : P b')
    (hv : P b → P v) : ∃ x, update m k (some v) k' = some x ∧ P x := by
  by_cases heq : k' = k
  · subst heq
    cases hk.symm.trans h
    exact ⟨v, update_self .., hv hb'⟩
  · exact ⟨b', by rwa [update_of_ne heq], hb'⟩

lemma update_of_absent (hk : m k = none) (v : Option β) (h : m k' = some b) :
    update m k v k' = some b := by
  rwa [update_of_ne]
  rintro rfl
  cases hk.symm.trans h

end Update

namespace FinMap

/-! ## Retaining entries -/

/-- The entry that `retain` leaves of an entry, if any. -/
def retainEntry (f : α → β → Option β) (e : Sigma fun _ : α => β) : Option (Sigma fun _ : α => β) :=
  (f e.1 e.2).map (Sigma.mk e.1)

variable (f : α → β → Option β)

lemma keys_filterMap_retainEntry_sublist (l : List (Sigma fun _ : α => β)) :
    ((l.filterMap (retainEntry f)).keys).Sublist l.keys := by
  induction l with
  | nil => exact List.Sublist.refl _
  | cons e l ih =>
    cases h : f e.1 e.2 with
    | none =>
      rw [filterMap_cons_none (by simp [retainEntry, h])]
      exact ih.cons _
    | some b =>
      rw [filterMap_cons_some (by simp [retainEntry, h]; rfl)]
      simpa [keys] using ih

/-- Visit every entry once: drop it where `f` gives `none`, else replace its value. -/
def retain (f : α → β → Option β) (m : FinMap α β) : FinMap α β where
  entries := m.entries.filterMap (retainEntry f)
  nodupKeys := (keys_filterMap_retainEntry_sublist f m.entries).nodup m.nodupKeys

lemma dlookup_filterMap_retainEntry [DecidableEq α] (k : α)
    (l : List (Sigma fun _ : α => β)) (hl : l.NodupKeys) :
    (l.filterMap (retainEntry f)).dlookup k = (l.dlookup k).bind (f k) := by
  induction l with
  | nil => rfl
  | cons e l ih =>
    obtain ⟨a, b⟩ := e
    obtain ⟨hnot, hrest⟩ := nodupKeys_cons.1 hl
    by_cases hk : k = a
    · subst hk
      -- the key cannot come back later in the list
      have habsent : (l.filterMap (retainEntry f)).dlookup k = none := by
        rw [dlookup_eq_none]
        intro hmem
        exact hnot ((keys_filterMap_retainEntry_sublist f l).subset hmem)
      cases h : f k b with
      | none =>
        rw [filterMap_cons_none (by simp [retainEntry, h]), habsent]
        simp [h]
      | some b' =>
        rw [filterMap_cons_some (by simp [retainEntry, h]; rfl)]
        simp [h]
    · rw [dlookup_cons_ne _ _ hk, ← ih hrest]
      cases h : f a b with
      | none => rw [filterMap_cons_none (by simp [retainEntry, h])]
      | some b' =>
        rw [filterMap_cons_some (by simp [retainEntry, h]; rfl),
          dlookup_cons_ne _ _ hk]

lemma lookup_retain [DecidableEq α] (m : FinMap α β) (k : α) :
    (m.retain f).lookup k = (m.lookup k).bind (f k) :=
  dlookup_filterMap_retainEntry f k m.entries m.nodupKeys

/-! ## Counting entries -/

section CountWhere

variable [DecidableEq α] (p : β → Bool)

/-- The number of entries whose value meets `p`. -/
def countWhere (m : FinMap α β) : ℕ := m.entries.countP fun e => p e.2

variable {m : FinMap α β} {k : α} {b : β}

lemma countWhere_erase (h : m.lookup k = some b) :
    countWhere p m = countWhere p (m.erase k) + if p b then 1 else 0 := by
  have hmem : (⟨k, b⟩ : Sigma fun _ : α => β) ∈ m.entries := AList.mem_lookup_iff.1 h
  obtain ⟨b', l₁, l₂, -, hentries, herase⟩ :=
    exists_of_kerase (mem_keys_of_mem hmem)
  have hb : b' = b := by
    have hmem' : (⟨k, b'⟩ : Sigma fun _ : α => β) ∈ m.entries := by
      rw [hentries]
      exact mem_append_right _ mem_cons_self
    have hlookup : m.lookup k = some b' := AList.mem_lookup_iff.2 hmem'
    exact some.inj (hlookup.symm.trans h)
  have herase' : (m.erase k).entries = l₁ ++ l₂ := herase
  rw [countWhere, countWhere, herase', hentries, countP_append, countP_append, countP_cons, hb]
  dsimp only
  omega

lemma countWhere_insert (h : m.lookup k = none) (b : β) :
    countWhere p (m.insert k b) = countWhere p m + if p b then 1 else 0 := by
  have hk : k ∉ m.entries.keys := by
    rw [← dlookup_eq_none]
    exact h
  rw [countWhere, AList.entries_insert_of_notMem (fun hmem => hk hmem), countP_cons]
  rfl

lemma countWhere_set (m : FinMap α β) (k : α) (b : β) :
    countWhere p (m.insert k b) = countWhere p (m.erase k) + if p b then 1 else 0 := by
  rw [countWhere, AList.entries_insert, countP_cons]
  rfl

lemma countWhere_replace {b' : β} (h : m.lookup k = some b)
    (hb : p b' = p b) : countWhere p (m.insert k b') = countWhere p m := by
  rw [countWhere_erase p h, countWhere_set, hb]

lemma countWhere_pos (h : m.lookup k = some b) (hb : p b = true) : 0 < countWhere p m := by
  rw [countWhere_erase p h, hb]
  exact Nat.succ_pos _

lemma exists_of_countWhere_pos (h : 0 < countWhere p m) :
    ∃ k b, m.lookup k = some b ∧ p b = true := by
  obtain ⟨e, he, hp⟩ := countP_pos_iff.1 h
  exact ⟨e.1, e.2, AList.mem_lookup_iff.2 he, hp⟩

end CountWhere

end FinMap

/-! ## Counting maps -/

structure CountMap (α : Type u) [DecidableEq α] where
  counts : FinMap α ℕ
  pos : ∀ k n, counts.lookup k = some n → 0 < n

namespace CountMap

variable [DecidableEq α]

def empty : CountMap α where
  counts := ∅
  pos := by
    intro k n h
    simp [AList.lookup_empty] at h

variable (m : CountMap α) (k : α)

/-- How often `k` is counted. -/
def count : ℕ := (m.counts.lookup k).getD 0

/-- Count `k` once more; an absent key starts from zero. -/
def incr : CountMap α where
  counts := m.counts.insert k (m.count k + 1)
  pos := by
    intro k' n h
    rw [FinMap.lookup_insert_eq_ite] at h
    split at h
    · simp only [Option.some.injEq] at h
      omega
    · exact m.pos k' n h

/-- Count `k` once less, and drop its entry when the counter reaches zero.  An absent key stays
absent. -/
def decr : CountMap α where
  counts :=
    match m.counts.lookup k with
    | none => m.counts
    | some n => if n - 1 = 0 then m.counts.erase k else m.counts.insert k (n - 1)
  pos := by
    intro k' n h
    cases hk : m.counts.lookup k with
    | none =>
      rw [hk] at h
      exact m.pos k' n h
    | some c =>
      rw [hk] at h
      dsimp only at h
      split at h
      · rw [FinMap.lookup_erase_eq_ite] at h
        split at h
        · cases h
        · exact m.pos k' n h
      · rw [FinMap.lookup_insert_eq_ite] at h
        split at h
        · simp only [Option.some.injEq] at h
          omega
        · exact m.pos k' n h

lemma count_incr (k k' : α) :
    (m.incr k).count k' = if k' = k then m.count k + 1 else m.count k' := by
  rw [count, incr, FinMap.lookup_insert_eq_ite]
  split
  · rfl
  · rfl

lemma count_decr (k k' : α) :
    (m.decr k).count k' = if k' = k then m.count k - 1 else m.count k' := by
  simp only [count, decr]
  cases hk : m.counts.lookup k with
  | none =>
    dsimp only
    split
    next h =>
      subst h
      simp [hk]
    · rfl
  | some c =>
    dsimp only
    split
    next hc =>
      rw [FinMap.lookup_erase_eq_ite]
      split
      · simpa using hc.symm
      · rfl
    · rw [FinMap.lookup_insert_eq_ite]
      split
      · simp
      · rfl

lemma mem_keys_iff : k ∈ m.counts.keys ↔ 0 < m.count k := by
  rw [← AList.mem_keys, ← AList.lookup_isSome, count]
  cases h : m.counts.lookup k with
  | none => simp
  | some n => simpa using m.pos k n h

section Least

variable [LinearOrder α]

/-- The least counted element. -/
def minKey? (m : CountMap α) : Option α := m.counts.keys.min?

variable {m : CountMap α} {k : α}

lemma minKey?_mem (h : m.minKey? = some k) : 0 < m.count k :=
  (mem_keys_iff m k).1 (min?_mem h)

lemma minKey?_le {k' : α} (h : m.minKey? = some k) (hk' : 0 < m.count k') : k ≤ k' :=
  (min?_eq_some_iff.1 h).2 k' ((mem_keys_iff m k').2 hk')

lemma minKey?_eq_none (h : m.minKey? = none) (k : α) : m.count k = 0 := by
  by_contra hne
  have hk := (mem_keys_iff m k).2 (Nat.pos_of_ne_zero hne)
  rw [minKey?, min?_eq_none_iff] at h
  rw [h] at hk
  cases hk

end Least

end CountMap

end Framework
