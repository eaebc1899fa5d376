import Mathlib.Data.Nat.Notation
import Mathlib.Order.Defs.Unbundled

/-!
# Fallible stateful programs

`EStateM ε σ` is the monad of programs that change a state and may fail, with the changes kept when
they do.  A run is taken apart by `bind_eq_ok`, and `Keeps` says that whatever a program does, the
state before and the one after stand in a given relation; for a preorder, that is a matter of its
parts.

`Lru` is a cache of bounded size that forgets what has not been used for the longest time.
-/

namespace Framework

open List

universe u

section Programs

variable {ε σ α β : Type u}

/-- The state that a run ends in. -/
def stateOf : EStateM.Result ε σ α → σ
  | .ok _ s => s
  | .error _ s => s

@[simp] lemma stateOf_ok (a : α) (s : σ) : stateOf (.ok a s : EStateM.Result ε σ α) = s := rfl

@[simp] lemma stateOf_error (e : ε) (s : σ) : stateOf (.error e s : EStateM.Result ε σ α) = s := rfl

variable {x : EStateM ε σ α} {f : α → EStateM ε σ β} {s s' : σ} {a : α}

lemma bind_of_ok (h : x s = .ok a s') : (x >>= f) s = f a s' := by
  rw [show (x >>= f) s = EStateM.bind x f s from rfl, EStateM.bind, h]

lemma bind_of_error {e : ε} (h : x s = .error e s') : (x >>= f) s = .error e s' := by
  rw [show (x >>= f) s = EStateM.bind x f s from rfl, EStateM.bind, h]

lemma bind_eq_ok {b : β} : (x >>= f) s = .ok b s' ↔ ∃ a s₁, x s = .ok a s₁ ∧ f a s₁ = .ok b s' := by
  rw [show (x >>= f) s = EStateM.bind x f s from rfl, EStateM.bind]
  split
  next a s₁ hx =>
    constructor
    · exact fun h => ⟨a, s₁, hx, h⟩
    · rintro ⟨a', s₁', hx', h⟩
      rw [hx] at hx'
      cases hx'
      exact h
  next hx =>
    constructor
    · intro h
      cases h
    · rintro ⟨a', s₁', hx', -⟩
      rw [hx] at hx'
      cases hx'

/-- However the program ends, the states before and after are related. -/
def Keeps (R : σ → σ → Prop) (x : EStateM ε σ α) : Prop := ∀ s, R s (stateOf (x s))

variable {R : σ → σ → Prop}

lemma Keeps.of_eq_ok (h : Keeps R x) (hx : x s = .ok a s') : R s s' := by
  have hs := h s
  rwa [hx] at hs

lemma Keeps.bind [IsPreorder σ R] (hx : Keeps R x)
    (hf : ∀ a, Keeps R (f a)) : Keeps R (x >>= f) := by
  intro s
  have h := hx s
  rw [show (x >>= f) s = EStateM.bind x f s from rfl, EStateM.bind]
  split
  next a s₁ hxs =>
    rw [hxs] at h
    exact trans_of R h (hf a s₁)
  next hxs =>
    rw [hxs] at h
    exact h

lemma Keeps.pure [IsPreorder σ R] (a : α) : Keeps R (pure a : EStateM ε σ α) := fun s => refl_of R s

lemma Keeps.throw [IsPreorder σ R] (e : ε) : Keeps R (throw e : EStateM ε σ α) := fun s => refl_of R s

lemma Keeps.get [IsPreorder σ R] : Keeps R (get : EStateM ε σ σ) := fun s => refl_of R s

lemma Keeps.modify {f : σ → σ} (h : ∀ s, R s (f s)) : Keeps R (modify f : EStateM ε σ PUnit) := h

end Programs

/-! ## Caches -/

section Caches

variable {κ ν : Type u} [DecidableEq κ]

/-- A cache: its entries, the one used last first. -/
structure Lru (κ ν : Type u) where
  entries : List (κ × ν)

namespace Lru

/-- What is cached under a key. -/
def find? (c : Lru κ ν) (k : κ) : Option ν := (c.entries.find? (·.1 = k)).map (·.2)

/-- Look up a key, which makes it the one used last. -/
def get (c : Lru κ ν) (k : κ) : Lru κ ν :=
  match c.entries.find? (·.1 = k) with
  | some e => ⟨e :: c.entries.filter (·.1 ≠ k)⟩
  | none => c

/-- Enter a value, at the cost of the entries beyond the capacity. -/
def put (capacity : ℕ) (c : Lru κ ν) (k : κ) (v : ν) : Lru κ ν :=
  ⟨((k, v) :: c.entries.filter (·.1 ≠ k)).take capacity⟩

variable {c : Lru κ ν} {k : κ} {v : ν} {e : κ × ν}

lemma mem_of_find?_eq_some (h : c.find? k = some v) : (k, v) ∈ c.entries := by
  rw [find?, Option.map_eq_some_iff] at h
  obtain ⟨e, he, rfl⟩ := h
  obtain rfl : e.1 = k := by simpa using find?_some he
  exact mem_of_find?_eq_some he

lemma mem_entries_of_mem_get (h : e ∈ (c.get k).entries) : e ∈ c.entries := by
  rw [get] at h
  split at h
  next he' =>
    rcases mem_cons.1 h with rfl | h
    · exact List.mem_of_find?_eq_some he'
    · exact (mem_filter.1 h).1
  · exact h

lemma mem_put {n : ℕ} (h : e ∈ (c.put n k v).entries) : e = (k, v) ∨ e ∈ c.entries := by
  rcases mem_cons.1 (mem_of_mem_take h) with rfl | h
  · exact .inl rfl
  · exact .inr (mem_filter.1 h).1

end Lru

end Caches

end Framework
