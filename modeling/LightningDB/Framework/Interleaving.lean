import LightningDB.Framework.FinMap
import LightningDB.Framework.Runs
import Mathlib.Data.Nat.Notation
import Mathlib.Logic.Function.Basic

/-!
# Interleaved calls over shared memory

A call runs a *program*: a tree of accesses to shared memory, each followed by what the program does
with the answer.  Accesses are atomic; between two of them any other call may make its own.  A
`Machine` says what the accesses do, which program a call runs, and what happens outside of the calls;
`Machine.step` runs a pool of calls one access at a time.

Programs are reasoned about one at a time.  A `Discipline` says what a call may *rely* on while others
run, and what it has to *guarantee* to them; `Discipline.Leads` says that a program keeps to its
guarantee at every access it may still make, whatever the others do within what it relies on, and ends
as stated.  `Discipline.Sound` puts the programs of a pool together, and `Sound.step` is the one
induction step of every statement about interleavings.
-/

namespace Framework

open Function

/-! ## Programs -/

/-- A program over shared memory: it has ended, or it makes an access and goes on with the answer. -/
inductive Prog (A : Type) (B : A → Type) (ε α : Type) where
  | ret (r : Except ε α)
  | access (a : A) (next : B a → Prog A B ε α)

variable {A : Type} {B : A → Type} {ι σ C E ε ρ α β : Type}

namespace Prog

/-- One program after the other; an error ends both. -/
def bind : Prog A B ε α → (α → Prog A B ε β) → Prog A B ε β
  | ret (.ok a), k => k a
  | ret (.error e), _ => ret (.error e)
  | access a next, k => access a fun b => (next b).bind k

instance : Monad (Prog A B ε) where
  pure a := ret (.ok a)
  bind := bind

def fail (e : ε) : Prog A B ε α := ret (.error e)

def perform (a : A) : Prog A B ε (B a) := access a fun b => ret (.ok b)

/-- Go on after an error, with the error as the result. -/
def attempt : Prog A B ε α → Prog A B ε (Except ε α)
  | ret r => ret (.ok r)
  | access a next => access a fun b => (next b).attempt

@[simp] lemma ok_bind (a : α) (k : α → Prog A B ε β) :
    (ret (.ok a) : Prog A B ε α) >>= k = k a := rfl

/-- The next access of a program. -/
def first : Prog A B ε α → Option A
  | ret _ => none
  | access a _ => some a

/-- Every access the program may make meets `P`. -/
def Always (P : A → Prop) : Prog A B ε α → Prop
  | ret _ => True
  | access a next => P a ∧ ∀ b, (next b).Always P

variable {P : A → Prop} {p : Prog A B ε α}

lemma Always.bind {k : α → Prog A B ε β} (hp : p.Always P) (hk : ∀ a, (k a).Always P) :
    (p >>= k).Always P := by
  induction p with
  | ret r =>
    cases r with
    | ok a => exact hk a
    | error e => trivial
  | access a next ih => exact ⟨hp.1, fun b => ih b (hp.2 b)⟩

lemma Always.attempt (hp : p.Always P) : p.attempt.Always P := by
  induction p with
  | ret r => trivial
  | access a next ih => exact ⟨hp.1, fun b => ih b (hp.2 b)⟩

/-- The program run to its end with nothing in between, every access with the same input. -/
def alone {ι σ : Type} (perform : (a : A) → ι → σ → B a × σ) (i : ι) :
    Prog A B ε α → σ → Except ε α × σ
  | ret r, s => (r, s)
  | access a next, s => alone perform i (next (perform a i s).1) (perform a i s).2

lemma alone_bind {ι σ : Type} {perform : (a : A) → ι → σ → B a × σ} {i : ι} {s s' : σ} {a : α}
    (h : p.alone perform i s = (.ok a, s')) (k : α → Prog A B ε β) :
    (p >>= k).alone perform i s = (k a).alone perform i s' := by
  induction p generalizing s with
  | ret r =>
    cases h
    rfl
  | access b next ih => exact ih _ h

end Prog

/-! ## Pools of calls -/

/-- What accesses do, the program of a call, and what happens outside of the calls.  An access takes
an input, for what it does not determine itself. -/
structure Machine (A : Type) (B : A → Type) (ι σ C E ε ρ : Type) where
  perform : (a : A) → ι → σ → B a × σ
  program : C → Prog A B ε ρ
  /-- What a new call does to the state, if it can be made. -/
  begin : C → σ → Option σ
  elapse : E → σ → σ
  /-- All calls are cut off. -/
  restart : σ → σ

/-- The shared state, the calls that are running, and those that have returned, newest first. -/
structure Pool (A : Type) (B : A → Type) (σ C ε ρ : Type) where
  shared : σ
  running : ℕ → Option (C × Prog A B ε ρ)
  next : ℕ
  returned : List (ℕ × C × Except ε ρ)

inductive PoolAction (ι C E : Type) where
  | invoke (c : C)
  | access (n : ℕ) (i : ι)
  | finish (n : ℕ)
  | elapse (e : E)
  | restart

namespace Machine

variable (M : Machine A B ι σ C E ε ρ)

/-- A step of the pool; `none` if the call is not at such a point. -/
def step (s : Pool A B σ C ε ρ) : PoolAction ι C E → Option (Pool A B σ C ε ρ)
  | .invoke c =>
    (M.begin c s.shared).map fun w =>
      { s with
        shared := w
        running := update s.running s.next (some (c, M.program c))
        next := s.next + 1 }
  | .access n i =>
    match s.running n with
    | some (c, .access a next) =>
      some
        { s with
          shared := (M.perform a i s.shared).2
          running :=
            update s.running n (some (c, next (M.perform a i s.shared).1)) }
    | _ => none
  | .finish n =>
    match s.running n with
    | some (c, .ret r) =>
      some
        { s with
          running := update s.running n none
          returned := (n, c, r) :: s.returned }
    | _ => none
  | .elapse e => some { s with shared := M.elapse e s.shared }
  | .restart => some { s with shared := M.restart s.shared, running := fun _ => none }

/-- The pools that start without calls. -/
def system (init : σ → Prop) : System (Pool A B σ C ε ρ) (PoolAction ι C E) where
  init s := init s.shared ∧ s.running = (fun _ => none) ∧ s.next = 0 ∧ s.returned = []
  step := M.step

/-- What a step does, with the conditions it has. -/
inductive Moves (s : Pool A B σ C ε ρ) : PoolAction ι C E → Pool A B σ C ε ρ → Prop where
  | invoke {c : C} {w : σ} (hbegin : M.begin c s.shared = some w) :
      Moves s (.invoke c)
        { s with
          shared := w
          running := update s.running s.next (some (c, M.program c))
          next := s.next + 1 }
  | access {n : ℕ} {i : ι} {c : C} {a : A} {next : B a → Prog A B ε ρ}
      (hrun : s.running n = some (c, .access a next)) :
      Moves s (.access n i)
        { s with
          shared := (M.perform a i s.shared).2
          running := update s.running n (some (c, next (M.perform a i s.shared).1)) }
  | finish {n : ℕ} {c : C} {r : Except ε ρ} (hrun : s.running n = some (c, .ret r)) :
      Moves s (.finish n)
        { s with
          running := update s.running n none
          returned := (n, c, r) :: s.returned }
  | elapse {e : E} : Moves s (.elapse e) { s with shared := M.elapse e s.shared }
  | restart : Moves s .restart { s with shared := M.restart s.shared, running := fun _ => none }

variable {M}

variable {s s' : Pool A B σ C ε ρ} {a : PoolAction ι C E}

lemma moves_of_step (h : M.step s a = some s') : M.Moves s a s' := by
  cases a with
  | invoke c =>
    rw [step, Option.map_eq_some_iff] at h
    obtain ⟨w, hw, rfl⟩ := h
    exact .invoke hw
  | access n i =>
    rw [step] at h
    split at h
    next hrun =>
      cases h
      exact .access hrun
    · cases h
  | finish n =>
    rw [step] at h
    split at h
    next hrun =>
      cases h
      exact .finish hrun
    · cases h
  | elapse e =>
    cases h
    exact .elapse
  | restart =>
    cases h
    exact .restart

lemma exists_running_update {running : ℕ → Option (C × Prog A B ε ρ)} {n m : ℕ} {c d : C}
    {p p' : Prog A B ε ρ} (hrun : running n = some (c, p)) :
    (∃ q, update running n (some (c, p')) m = some (d, q)) ↔ ∃ q, running m = some (d, q) := by
  by_cases heq : m = n
  · simp [heq, hrun]
  · rw [update_of_ne heq]

/-- The calls that run after a step: a new one, or some that ran before. -/
lemma Moves.running_of (h : M.Moves s a s') {n : ℕ} {c : C} {p : Prog A B ε ρ}
    (hn : s'.running n = some (c, p)) : n = s.next ∨ ∃ p', s.running n = some (c, p') := by
  cases h with
  | invoke hbegin =>
    rcases of_update hn with ⟨rfl, -⟩ | ⟨-, hn⟩
    · exact .inl rfl
    · exact .inr ⟨p, hn⟩
  | access hrun => exact .inr ((exists_running_update hrun).1 ⟨p, hn⟩)
  | finish hrun =>
    rcases of_update hn with ⟨-, ⟨⟩⟩ | ⟨-, hn⟩
    exact .inr ⟨p, hn⟩
  | elapse => exact .inr ⟨p, hn⟩
  | restart => cases hn

lemma Moves.next_le (h : M.Moves s a s') : s.next ≤ s'.next := by
  cases h with
  | invoke hbegin => exact Nat.le_succ _
  | _ => exact le_refl _

end Machine

/-! ## Rely and guarantee -/

/-- What calls may rely on and have to guarantee.  Only calls that are `apart` run at the same time;
`may` is a side condition on accesses. -/
structure Discipline {A : Type} {B : A → Type} {ι σ C E ε ρ : Type}
    (M : Machine A B ι σ C E ε ρ) where
  inv : σ → Prop
  apart : C → C → Prop
  /-- What holds while a call is running. -/
  begun : C → σ → Prop
  may : C → A → ι → σ → Prop
  rely : C → σ → σ → Prop
  guar : C → σ → σ → Prop
  /-- What holds from when a call has returned. -/
  post : ℕ → C → Except ε ρ → σ → Prop
  /-- What holds when a call returns. -/
  final : ℕ → C → Except ε ρ → σ → Prop := post
  rely_refl : ∀ c s, rely c s s
  rely_trans : ∀ {c s s' s''}, rely c s s' → rely c s' s'' → rely c s s''
  inv_of_guar : ∀ {c s s'}, inv s → guar c s s' → inv s'
  rely_of_guar : ∀ {c d s s'}, apart c d → inv s → guar c s s' → rely d s s'
  begun_of_guar : ∀ {c d s s'}, guar c s s' → begun d s → begun d s'
  post_of_guar : ∀ {n c d r s s'}, inv s → guar c s s' → post n d r s → post n d r s'
  post_of_final : ∀ {n c r s}, inv s → final n c r s → post n c r s := by exact fun _ h => h

namespace Discipline

variable {M : Machine A B ι σ C E ε ρ} (D : Discipline M)

/-- The program keeps to the guarantee of `c` at every access it may still make, and ends with `q`,
whatever the others do within what `c` relies on. -/
def Leads (c : C) (q : Except ε α → σ → Prop) : Prog A B ε α → σ → Prop
  | .ret r, s => ∀ s', D.rely c s s' → D.inv s' → q r s'
  | .access a next, s => ∀ s' i, D.rely c s s' → D.inv s' → D.may c a i s' →
      D.guar c s' (M.perform a i s').2 ∧
        Leads c q (next (M.perform a i s').1) (M.perform a i s').2

variable {D} {c : C} {s s' : σ} {q q' : Except ε α → σ → Prop} {p : Prog A B ε α}

lemma Leads.stable (h : D.Leads c q p s) (hrely : D.rely c s s') : D.Leads c q p s' := by
  cases p with
  | ret r => exact fun s'' hs'' hinv => h s'' (D.rely_trans hrely hs'') hinv
  | access a next => exact fun s'' i hs'' hinv hmay => h s'' i (D.rely_trans hrely hs'') hinv hmay

/-- It is enough to look at the states in which the next access may be made. -/
lemma Leads.of_rely (h : ∀ s', D.rely c s s' → D.inv s' → D.Leads c q p s') : D.Leads c q p s := by
  cases p with
  | ret r => exact fun s' hs' hinv => h s' hs' hinv s' (D.rely_refl c s') hinv
  | access a next => exact fun s' i hs' hinv hmay => h s' hs' hinv s' i (D.rely_refl c s') hinv hmay

variable {last : Except ε β → σ → Prop}

lemma Leads.bind {k : α → Prog A B ε β} (h : D.Leads c (fun r s' =>
      match r with
      | .ok a => D.Leads c last (k a) s'
      | .error e => last (.error e) s') p s) : D.Leads c last (p >>= k) s := by
  induction p generalizing s with
  | ret r =>
    cases r with
    | ok a => exact Leads.of_rely h
    | error e => exact h
  | access a next ih =>
    intro s' i hs' hinv hmay
    obtain ⟨hguar, hnext⟩ := h s' i hs' hinv hmay
    exact ⟨hguar, ih _ hnext⟩

lemma Leads.attempt {last : Except ε (Except ε α) → σ → Prop}
    (h : D.Leads c (fun r s' => last (.ok r) s') p s) : D.Leads c last p.attempt s := by
  induction p generalizing s with
  | ret r => exact h
  | access a next ih =>
    intro s' i hs' hinv hmay
    obtain ⟨hguar, hnext⟩ := h s' i hs' hinv hmay
    exact ⟨hguar, ih _ hnext⟩

/-- An access of which the call can rely on itself as on the others. -/
lemma Leads.perform {a : A} {k : B a → Prog A B ε α}
    (hquiet : ∀ s' i, D.rely c s s' → D.inv s' → D.may c a i s' →
      D.guar c s' (M.perform a i s').2 ∧ D.rely c s' (M.perform a i s').2)
    (hk : ∀ s' i, D.rely c s (M.perform a i s').2 → D.inv (M.perform a i s').2 →
      D.Leads c q (k (M.perform a i s').1) (M.perform a i s').2) : D.Leads c q (.perform a >>= k) s := by
  intro s' i hs' hinv hmay
  obtain ⟨hguar, hrely⟩ := hquiet s' i hs' hinv hmay
  exact ⟨hguar, hk s' i (D.rely_trans hs' hrely) (D.inv_of_guar hinv hguar)⟩

/-- A program of which nothing has to be shown in the end. -/
lemma Leads.done {f : α → β} (hlast : ∀ r s', last r s')
    (h : ∀ q : Except ε α → σ → Prop, (∀ r s', q r s') → D.Leads c q p s) :
    D.Leads c last (p >>= fun a => pure (f a)) s := by
  refine .bind (h _ fun r s' => ?_)
  cases r with
  | error e => exact hlast _ s'
  | ok a => exact fun _ _ _ => hlast _ _

/-- What neither the others nor the call itself can end. -/
lemma Leads.frame {F : σ → Prop} (h : D.Leads c q p s) (hrely : ∀ s s', F s → D.rely c s s' → F s')
    (hguar : ∀ s s', F s → D.inv s → D.guar c s s' → F s') (hF : F s) :
    D.Leads c (fun r s' => q r s' ∧ F s') p s := by
  induction p generalizing s with
  | ret r => exact fun s' hs' hinv => ⟨h s' hs' hinv, hrely s s' hF hs'⟩
  | access a next ih =>
    intro s' i hs' hinv hmay
    obtain ⟨hg, hnext⟩ := h s' i hs' hinv hmay
    exact ⟨hg, ih _ hnext (hguar _ _ (hrely s s' hF hs') hinv hg)⟩

lemma Leads.and (h : D.Leads c q p s) (h' : D.Leads c q' p s) :
    D.Leads c (fun r s' => q r s' ∧ q' r s') p s := by
  induction p generalizing s with
  | ret r => exact fun s' hs' hinv => ⟨h s' hs' hinv, h' s' hs' hinv⟩
  | access a next ih =>
    intro s' i hs' hinv hmay
    obtain ⟨hguar, hnext⟩ := h s' i hs' hinv hmay
    exact ⟨hguar, ih _ hnext (h' s' i hs' hinv hmay).2⟩

/-- A program under a discipline that asks for less. -/
lemma Leads.transfer {D' : Discipline M} (h : D.Leads c q p s)
    (hrely : ∀ s s', D'.rely c s s' → D.rely c s s') (hinv : ∀ s, D'.inv s → D.inv s)
    (hmay : ∀ a i s, D'.inv s → D'.may c a i s → D.may c a i s)
    (hguar : ∀ s s', D'.inv s → D.guar c s s' → D'.guar c s s')
    (hq : ∀ r s', D'.inv s' → q r s' → q' r s') : D'.Leads c q' p s := by
  induction p generalizing s with
  | ret r => exact fun s' hs' hi => hq _ _ hi (h s' (hrely _ _ hs') (hinv _ hi))
  | access a next ih =>
    intro s' i hs' hi hm
    obtain ⟨hg, hnext⟩ := h s' i (hrely _ _ hs') (hinv _ hi) (hmay a i s' hi hm)
    exact ⟨hguar _ _ hi hg, ih _ hnext⟩

lemma Leads.mono (h : D.Leads c q p s) (himp : ∀ r s', q r s' → q' r s') : D.Leads c q' p s :=
  h.transfer (fun _ _ hr => hr) (fun _ hi => hi) (fun _ _ _ _ hm => hm) (fun _ _ _ hg => hg)
    fun r s' _ => himp r s'

/-! ## Sound pools -/

variable (D)

/-- The calls that run keep to the discipline, and those that have returned did. -/
structure Sound (s : Pool A B σ C ε ρ) : Prop where
  inv : D.inv s.shared
  leads : ∀ n c p, s.running n = some (c, p) → D.Leads c (D.final n c) p s.shared
  begun : ∀ n c p, s.running n = some (c, p) → D.begun c s.shared
  post : ∀ n c r, (n, c, r) ∈ s.returned → D.post n c r s.shared
  below : ∀ n c p, s.running n = some (c, p) → n < s.next
  returnedBelow : ∀ n c r, (n, c, r) ∈ s.returned → n < s.next
  apart : ∀ n m c d p q, n ≠ m → s.running n = some (c, p) → s.running m = some (d, q) →
    D.apart c d

/-- A change of the shared state that is not an access of a running call. -/
structure Outer (s s' : σ) : Prop where
  inv : D.inv s → D.inv s'
  rely : ∀ c, D.inv s → D.begun c s → D.rely c s s'
  begun : ∀ c, D.begun c s → D.begun c s'
  post : ∀ n c r, D.inv s → D.post n c r s → D.post n c r s'

/-- What a step has to meet. -/
def Permits (s : Pool A B σ C ε ρ) : PoolAction ι C E → Prop
  | .invoke c =>
    ∀ w, M.begin c s.shared = some w → D.inv s.shared →
      (∀ n d p, s.running n = some (d, p) → D.begun d s.shared → D.apart c d ∧ D.apart d c) ∧
        D.Outer s.shared w ∧ D.begun c w ∧ (D.inv w → D.Leads c (D.final s.next c) (M.program c) w)
  | .access n i => ∀ c a next, s.running n = some (c, .access a next) → D.may c a i s.shared
  | .finish _ => True
  | .elapse e => D.Outer s.shared (M.elapse e s.shared)
  | .restart =>
    D.inv (M.restart s.shared) ∧
      ∀ n c r, D.post n c r s.shared → D.post n c r (M.restart s.shared)

variable {D} {s s' : Pool A B σ C ε ρ} {a : PoolAction ι C E}

lemma sound_of_none (hinv : D.inv s.shared) (hrunning : s.running = fun _ => none)
    (hreturned : s.returned = []) : D.Sound s := by
  have hnone : ∀ n c p, s.running n ≠ some (c, p) := by simp [hrunning]
  have hnil : ∀ n c r, (n, c, r) ∉ s.returned := by simp [hreturned]
  exact
    { inv := hinv
      leads := fun n c p hn => absurd hn (hnone n c p)
      begun := fun n c p hn => absurd hn (hnone n c p)
      post := fun n c r hn => absurd hn (hnil n c r)
      below := fun n c p hn => absurd hn (hnone n c p)
      returnedBelow := fun n c r hn => absurd hn (hnil n c r)
      apart := fun n m c d p q _ hn => absurd hn (hnone n c p) }

lemma Sound.final (h : D.Sound s) {n : ℕ} {c : C} {r : Except ε ρ}
    (hrun : s.running n = some (c, .ret r)) : D.final n c r s.shared :=
  h.leads n c _ hrun s.shared (D.rely_refl c s.shared) h.inv

lemma Sound.outer (h : D.Sound s) {w : σ} (ho : D.Outer s.shared w) :
    D.Sound { s with shared := w } where
  inv := ho.inv h.inv
  leads n c p hrun := (h.leads n c p hrun).stable (ho.rely c h.inv (h.begun n c p hrun))
  begun n c p hrun := ho.begun c (h.begun n c p hrun)
  post n c r hmem := ho.post n c r h.inv (h.post n c r hmem)
  below := h.below
  returnedBelow := h.returnedBelow
  apart := h.apart

/-- **The step of every interleaving.**  A permitted step keeps a pool sound. -/
theorem Sound.step (h : D.Sound s) (hmoves : M.Moves s a s') (hok : D.Permits s a) :
    D.Sound s' := by
  cases hmoves with
  | @invoke c w hbegin =>
    obtain ⟨hapart, houter, hbegun, hleads⟩ := hok w hbegin h.inv
    have h' := h.outer houter
    refine ⟨h'.inv, ?_, ?_, h'.post, ?_,
      fun n d r hmem => Nat.lt_succ_of_lt (h.returnedBelow n d r hmem), ?_⟩
    · intro n d p hrun
      rcases of_update hrun with ⟨rfl, ⟨⟩⟩ | ⟨-, hrun⟩
      · exact hleads h'.inv
      · exact h'.leads n d p hrun
    · intro n d p hrun
      rcases of_update hrun with ⟨rfl, ⟨⟩⟩ | ⟨-, hrun⟩
      · exact hbegun
      · exact h'.begun n d p hrun
    · intro n d p hrun
      rcases of_update hrun with ⟨rfl, ⟨⟩⟩ | ⟨-, hrun⟩
      · exact Nat.lt_succ_self _
      · exact Nat.lt_succ_of_lt (h.below n d p hrun)
    · intro n m d e p q hne hn hm
      rcases of_update hn with ⟨rfl, ⟨⟩⟩ | ⟨-, hn⟩ <;>
        rcases of_update hm with ⟨rfl, ⟨⟩⟩ | ⟨-, hm⟩
      · exact absurd rfl hne
      · exact (hapart m e q hm (h.begun m e q hm)).1
      · exact (hapart n d p hn (h.begun n d p hn)).2
      · exact h.apart n m d e p q hne hn hm
  | @access n i c a next hrun =>
    have hmay := hok c a next hrun
    obtain ⟨hguar, hnext⟩ :=
      h.leads n c _ hrun s.shared i (D.rely_refl c s.shared) h.inv hmay
    refine ⟨D.inv_of_guar h.inv hguar, ?_, ?_, ?_, ?_, h.returnedBelow, ?_⟩
    · intro m d p hm
      rcases of_update hm with ⟨rfl, ⟨⟩⟩ | ⟨hmn, hm⟩
      · exact hnext
      · have hapart := h.apart n m c d _ p (Ne.symm hmn) hrun hm
        exact (h.leads m d p hm).stable (D.rely_of_guar hapart h.inv hguar)
    · intro m d p hm
      obtain ⟨p₀, hm⟩ := (Machine.exists_running_update hrun).1 ⟨p, hm⟩
      exact D.begun_of_guar hguar (h.begun m d p₀ hm)
    · exact fun m d r hmem => D.post_of_guar h.inv hguar (h.post m d r hmem)
    · intro m d p hm
      obtain ⟨p₀, hm⟩ := (Machine.exists_running_update hrun).1 ⟨p, hm⟩
      exact h.below m d p₀ hm
    · intro m k d e p q hne hm hk
      obtain ⟨p₀, hm⟩ := (Machine.exists_running_update hrun).1 ⟨p, hm⟩
      obtain ⟨q₀, hk⟩ := (Machine.exists_running_update hrun).1 ⟨q, hk⟩
      exact h.apart m k d e p₀ q₀ hne hm hk
  | @finish n c r hrun =>
    have hpost := D.post_of_final h.inv (h.final hrun)
    have hsub : ∀ m d p, update s.running n none m = some (d, p) →
        s.running m = some (d, p) := by
      intro m d p hm
      rcases of_update hm with ⟨-, ⟨⟩⟩ | ⟨-, hm⟩
      exact hm
    refine ⟨h.inv, fun m d p hm => h.leads m d p (hsub m d p hm),
      fun m d p hm => h.begun m d p (hsub m d p hm), ?_,
      fun m d p hm => h.below m d p (hsub m d p hm), ?_,
      fun m k d e p q hne hm hk => h.apart m k d e p q hne (hsub m d p hm) (hsub k e q hk)⟩
    · intro m d r' hmem
      rcases List.mem_cons.1 hmem with heq | hmem
      · cases heq
        exact hpost
      · exact h.post m d r' hmem
    · intro m d r' hmem
      rcases List.mem_cons.1 hmem with heq | hmem
      · cases heq
        exact h.below n c _ hrun
      · exact h.returnedBelow m d r' hmem
  | elapse => exact h.outer hok
  | restart =>
    refine ⟨hok.1, ?_, ?_, fun n c r hmem => hok.2 n c r (h.post n c r hmem), ?_,
      h.returnedBelow, ?_⟩
    · exact nofun
    · exact nofun
    · exact nofun
    · exact nofun

end Discipline

end Framework
