import Mathlib.Data.List.Basic

/-!
# Labelled runs of a partial step function

A *system* is a predicate on its initial states together with a partial step function: `step s a`
is `none` when the action `a` is not enabled in `s`.  Two notions of a run are used throughout.

* `System.exec` executes a list of actions.  It is a computable function, so a run on concrete
  actions is settled by evaluation.
* `System.ReachableBy ok` is the inductive predicate of the states reached by steps each of which
  meets the side condition `ok` in the state it is taken in.  `System.Reachable` is the special
  case without a side condition.

The rules are the usual ones: an invariant of every permitted step holds in every reached state
(`ReachableBy.invariant`), executed actions reach what they compute (`Reachable.exec`), and the
side condition may be weakened (`ReachableBy.mono`).
-/

namespace Framework

open Option

universe u v

/-- A labelled transition system with a partial step function. -/
structure System (σ : Type u) (α : Type v) where
  init : σ → Prop
  step : σ → α → Option σ

/-! ## Guards -/

section Guards

variable {β γ : Type*} {o : Option β} {p : β → Prop} {dec : ∀ x, Decidable (p x)} {f : β → Option γ} {y : γ}

lemma of_bind_ite (h : (o.bind fun x => if p x then f x else none) = some y) :
    ∃ x, o = some x ∧ p x ∧ f x = some y := by
  obtain ⟨x, hx, hif⟩ := bind_eq_some_iff.1 h
  obtain ⟨hp, hf⟩ := (ite_none_right_eq_some).1 hif
  exact ⟨x, hx, hp, hf⟩

lemma of_bind_ite_none (h : (o.bind fun x => if p x then none else f x) = some y) :
    ∃ x, o = some x ∧ ¬ p x ∧ f x = some y := by
  obtain ⟨x, hx, hif⟩ := bind_eq_some_iff.1 h
  obtain ⟨hp, hf⟩ := (ite_none_left_eq_some).1 hif
  exact ⟨x, hx, hp, hf⟩

end Guards

namespace System

variable {σ : Type u} {α : Type v} (M : System σ α)

/-- Execute a list of actions from a state; `none` as soon as one of them is not enabled. -/
def exec : σ → List α → Option σ
  | s, [] => some s
  | s, a :: as => (M.step s a).bind fun s' => exec s' as

@[simp] lemma exec_nil (s : σ) : M.exec s [] = some s := rfl

@[simp] lemma exec_cons (s : σ) (a : α) (as : List α) :
    M.exec s (a :: as) = (M.step s a).bind fun s' => M.exec s' as := rfl

/-- Execute a list of actions as long as each passes a check in the state it is taken in. -/
def execIf (check : σ → α → Bool) : σ → List α → Option σ
  | s, [] => some s
  | s, a :: as => if check s a then (M.step s a).bind fun s' => execIf check s' as else none

/-- The same system with the actions taken so far, for side conditions on the schedule. -/
def logged : System (σ × List α) α where
  init p := M.init p.1 ∧ p.2 = []
  step p a := (M.step p.1 a).map fun s => (s, p.2 ++ [a])

/-- The states reached from an initial state by steps that all meet `ok`. -/
inductive ReachableBy (ok : σ → α → Prop) : σ → Prop where
  | init {s : σ} : M.init s → ReachableBy ok s
  | step {s s' : σ} {a : α} :
      ReachableBy ok s → ok s a → M.step s a = some s' → ReachableBy ok s'

/-- The states reached from an initial state. -/
def Reachable : σ → Prop := M.ReachableBy fun _ _ => True

variable {M} {ok : σ → α → Prop}

variable {s s' : σ} {as : List α}

/-- **The invariant rule.**  What holds initially and is kept by every permitted step taken in a
state reached so far holds in every reached state. -/
theorem ReachableBy.invariant {I : σ → Prop} (h : M.ReachableBy ok s) (hinit : ∀ s, M.init s → I s)
    (hstep : ∀ s a s', M.ReachableBy ok s → I s → ok s a → M.step s a = some s' → I s') : I s := by
  induction h with
  | init h0 => exact hinit _ h0
  | step hr hok hs ih => exact hstep _ _ _ hr ih hok hs

lemma ReachableBy.mono {ok' : σ → α → Prop} (himp : ∀ s a, ok s a → ok' s a)
    (h : M.ReachableBy ok s) : M.ReachableBy ok' s := by
  induction h with
  | init h0 => exact .init h0
  | step _ hok hs ih => exact .step ih (himp _ _ hok) hs

lemma ReachableBy.reachable (h : M.ReachableBy ok s) : M.Reachable s :=
  h.mono fun _ _ _ => trivial

lemma Reachable.exec (h : M.Reachable s) (hrun : M.exec s as = some s') : M.Reachable s' := by
  induction as generalizing s with
  | nil =>
    rw [exec_nil, some.injEq] at hrun
    exact hrun ▸ h
  | cons a as ih =>
    rw [exec_cons, bind_eq_some_iff] at hrun
    obtain ⟨t, hstep, hrest⟩ := hrun
    exact ih (ReachableBy.step h trivial hstep) hrest

/-- A run whose steps all pass a check that implies the side condition. -/
lemma ReachableBy.execIf {check : σ → α → Bool}
    (hcheck : ∀ s a, M.ReachableBy ok s → check s a = true → ok s a)
    (h : M.ReachableBy ok s) (hrun : M.execIf check s as = some s') : M.ReachableBy ok s' := by
  induction as generalizing s with
  | nil =>
    rw [System.execIf, some.injEq] at hrun
    exact hrun ▸ h
  | cons a as ih =>
    rw [System.execIf] at hrun
    split at hrun
    next hok =>
      obtain ⟨t, hstep, hrest⟩ := bind_eq_some_iff.1 hrun
      exact ih (.step h (hcheck s a h hok) hstep) hrest
    · cases hrun

end System

end Framework
