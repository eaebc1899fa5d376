import Mathlib.Data.List.Basic
import Mathlib.Data.Nat.Notation
import Mathlib.Logic.Function.Basic

/-!
# Linked chains

A pointer structure gives each node its successor, and `0` stands for none.  `Linked next p l` says that
`l` lists the nodes from `p` on, to the last.  A chain depends on the successors of its own nodes only
(`Linked.congr`), and a loop along it ends if it may visit as many nodes (`Linked.loop`).
-/

namespace Framework

/-- The nodes from a node on, along the successors. -/
inductive Linked (next : ℕ → ℕ) : ℕ → List ℕ → Prop where
  | last {p : ℕ} : next p = 0 → Linked next p [p]
  | cons {p : ℕ} {l : List ℕ} : next p ≠ 0 → Linked next (next p) l → Linked next p (p :: l)

namespace Linked

variable {next next' : ℕ → ℕ} {p q : ℕ} {l l' : List ℕ}

lemma mem_head (h : Linked next p l) : p ∈ l := by
  cases h with
  | last _ => exact List.mem_singleton.2 rfl
  | cons _ _ => exact List.mem_cons_self

lemma congr (h : Linked next p l) (heq : ∀ q ∈ l, next' q = next q) : Linked next' p l := by
  induction h with
  | last hend => exact .last ((heq _ (List.mem_singleton.2 rfl)).trans hend)
  | @cons p l hnext _ ih =>
    have hp : next' p = next p := heq p List.mem_cons_self
    refine .cons (hp ▸ hnext) ?_
    rw [hp]
    exact ih fun q hq => heq q (List.mem_cons_of_mem _ hq)

/-- The rule for a loop that visits the nodes, and is told how many it may visit. -/
@[elab_as_elim]
lemma loop {motive : ℕ → ℕ → List ℕ → Prop} {fuel : ℕ} (h : Linked next p l) (hfuel : l.length ≤ fuel)
    (last : ∀ q fuel, next q = 0 → motive (fuel + 1) q [q])
    (cons : ∀ q l fuel, next q ≠ 0 → motive fuel (next q) l → motive (fuel + 1) q (q :: l)) :
    motive fuel p l := by
  induction h generalizing fuel with
  | last hend =>
    obtain ⟨fuel, rfl⟩ := Nat.exists_eq_add_of_le' hfuel
    exact last _ fuel hend
  | cons hnext _ ih =>
    obtain ⟨fuel, rfl⟩ := Nat.exists_eq_add_of_le' (Nat.one_le_of_lt hfuel)
    exact cons _ _ fuel hnext (ih (Nat.le_of_succ_le_succ hfuel))

end Linked

end Framework
