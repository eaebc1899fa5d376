import LightningDB.Query.Statements
import Mathlib.Data.Fintype.Pi

/-!
# The plan caches and the catalog

`build_physical_plan` of many connections at once.  The looks into the two caches, the binding under
the catalog lock, the insertions, the optimizer and the physical planner are steps of their own, and
so is each `clear` of `invalidate_plan_caches`, which `PhysicalDDL` calls when it has changed the
catalog.  A rollback changes the catalog too, one record of the undo buffer after another, and clears
nothing.

So a plan made before a change can be cached after it, and statements bound since a change that is rolled
back stay (`rolled_back_column_still_planned`).  In a run without either, a query that starts when all
changes have finished gets the plan of the catalog it finds (`plan_of_current_catalog`).  The physical
plan cache is keyed by the hash of the text, so two texts of one hash have to be ruled out as well.
-/

namespace LightningDB

open Framework Function Option List

variable {Schema : Type}

namespace Planner

variable (P : Planner Schema)

/-- A text after `parse`. -/
abbrev Parsed := Query (Statement P.Stmt)

/-- A logical plan, the column offsets of the binder, and the query they come from. -/
abbrev Optimized := LogicalPlan P.Logical × P.Scope × UnionQuery (Statement P.Stmt)

/-- More than one query, or a UNION: planned as a whole, without the bound statement cache. -/
def hasUnion (q : P.Parsed) : Bool :=
  q.unionQueries.length > 1 || q.unionQueries.any UnionQuery.hasNext

/-- What is planned: all bound queries, or a single statement. -/
inductive Binding where
  | union (bound : List (BoundUnionQuery P)) (scope : P.Scope)
    (source : UnionQuery (Statement P.Stmt))
  | statement (entry : BoundEntry P)

variable (sh : Shared Schema)

/-- `bind_query`, and the part of its result that is planned. -/
def binding (q : P.Parsed) : Except LightningError (Binding P) := do
  let (bound, scope) ← P.bindQuery sh P.newScope q.unionQueries
  match bound, q.unionQueries with
  | first :: _, u :: _ =>
    return if P.hasUnion q then .union bound scope u
      else .statement ⟨first.query.statement, scope, u⟩
  | _, _ => throw (.query "No query")

/-- The logical plan after the optimizer.  PROFILE and EXPLAIN of a single statement come after it. -/
def logical (q : P.Parsed) : Binding P → Except LightningError P.Optimized
  | .union bound scope source => do
    let plan ← P.planQuery q bound
    return (← P.optimize sh scope plan, scope, source)
  | .statement e => do
    let plan ← P.plan e.bound
    return (P.wrap q (← P.optimize sh e.scope (.statement plan)), e.scope, e.source)

def physicalPlan (x : P.Optimized) : Except LightningError (Planned P) := do
  return ⟨← P.physical sh x.2.1 x.1, x.2.2⟩

def planAgainst (text : List Char) : Except LightningError (Planned P) := do
  let q ← P.parse text
  let b ← P.binding sh q
  let x ← P.logical sh q b
  P.physicalPlan sh x

variable {P}

lemma planAgainst_eq_ok {sh : Shared Schema} {text : List Char} {q : P.Parsed} {b : P.Binding}
    {x : P.Optimized} (hq : P.parse text = .ok q) (hb : P.binding sh q = .ok b)
    (hx : P.logical sh q b = .ok x) : P.planAgainst sh text = P.physicalPlan sh x := by
  rw [planAgainst, hq]
  change (P.binding sh q).bind _ = _
  rw [hb]
  change (P.logical sh q b).bind _ = _
  rw [hx]
  rfl

end Planner

/-- How far the planning of a text has come. -/
inductive PlanStage (P : Planner Schema) where
  | missed
  | unbound
  | justBound (b : P.Binding)
  | bound (b : P.Binding)
  | optimized (x : P.Optimized)

inductive PlanPhase (P : Planner Schema) where
  | idle
  | planning (text : List Char) (q : P.Parsed) (stage : PlanStage P)
  | planned (text : List Char) (p : Planned P)
  | running (text : List Char) (p : Planned P)
  /-- A statement that has changed the catalog, and has cleared so many of the eight shards. -/
  | clearing (shards : ℕ)

variable {P : Planner Schema} {n : ℕ}

namespace PlanPhase

/-- Whether the catalog has been changed and the caches not cleared yet. -/
def isClearing : PlanPhase P → Bool
  | clearing _ => true
  | _ => false

/-- A connection between two calls, or with a plan to run. -/
def isIdle : PlanPhase P → Bool
  | idle => true
  | running _ _ => true
  | _ => false

/-- A query with what is cached for it, if anything is. -/
def begun (text : List Char) : Option (Planned P) → PlanPhase P
  | some p => running text p
  | none =>
    match P.parse text with
    | .ok q => planning text q .missed
    | .error _ => idle

lemma isClearing_of_isIdle {phase : PlanPhase P} (h : phase.isIdle = true) :
    phase.isClearing = false := by
  cases phase <;> first | rfl | cases h

lemma isClearing_begun (text : List Char) (cached : Option (Planned P)) :
    (begun text cached).isClearing = false := by
  cases cached with
  | some p => rfl
  | none =>
    rw [begun]
    split <;> rfl

end PlanPhase

/-- The database, and `n` connections.  The last three fields are not in the source: the texts of all
queries so far, the number of changes of the catalog so far, and that number when the last query of a
connection started, if no connection was clearing the caches. -/
structure PlanWorld (P : Planner Schema) (n : ℕ) where
  shared : Shared Schema
  planCaches : Fin 4 → Lru (List Char) (BoundEntry P)
  physicalPlanCaches : Fin 4 → Lru UInt64 (Planned P)
  phase : Fin n → PlanPhase P
  asked : List (List Char)
  changes : ℕ
  since : Fin n → Option ℕ

namespace PlanWorld

variable (w : PlanWorld P n) (c : Fin n)

/-- Nobody is clearing the caches. -/
def Quiet : Prop := ∀ c, (w.phase c).isClearing = false

instance : Decidable w.Quiet := inferInstanceAs (Decidable (∀ _, _))

/-- The last query of the connection started when all changes of the catalog had finished, and none
has been made since. -/
def Fresh : Prop := w.since c = some w.changes

/-- Some connection has still to clear the shard; those of the physical plan cache follow those of the
other one. -/
def StillCleared (k : ℕ) : Prop := ∃ c m, w.phase c = .clearing m ∧ m ≤ k

def goTo (phase : PlanPhase P) : PlanWorld P n :=
  { w with phase := update w.phase c phase }

/-- Go on with a result; an error ends the call. -/
def goOn {α : Type} (f : α → PlanPhase P) : Except LightningError α → PlanWorld P n
  | .ok a => w.goTo c (f a)
  | .error _ => w.goTo c .idle

variable (text : List Char)

/-- A query starts with a look into the physical plan cache. -/
def start : PlanWorld P n :=
  let shard := P.cacheShard text
  let cache := w.physicalPlanCaches shard
  { w with
    physicalPlanCaches := update w.physicalPlanCaches shard (cache.get (P.hash text))
    asked := text :: w.asked
    since := update w.since c (if w.Quiet then some w.changes else none) }.goTo c
    (.begun text (cache.find? (P.hash text)))

/-- A look into the bound statement cache. -/
def lookup (q : P.Parsed) : PlanWorld P n :=
  if P.hasUnion q then w.goTo c (.planning text q .unbound)
  else
    let shard := P.cacheShard text
    let cache := w.planCaches shard
    { w with planCaches := update w.planCaches shard (cache.get text) }.goTo c
      (.planning text q ((cache.find? text).elim .unbound fun e => .bound (.statement e)))

/-- The shard into which the next step of the connection inserts. -/
def inserts : Option ℕ :=
  match w.phase c with
  | .planning text _ (.justBound (.statement e)) =>
    if P.isQuery e.bound then some (P.cacheShard text) else none
  | .planned text p => if p.plan.isReadOnly then some (4 + P.cacheShard text) else none
  | _ => none

def boundCaches : P.Binding → Fin 4 → Lru (List Char) (BoundEntry P)
  | .union .. => w.planCaches
  | .statement e =>
    let shard := P.cacheShard text
    if P.isQuery e.bound then
      update w.planCaches shard ((w.planCaches shard).put 256 text e)
    else w.planCaches

def cachedPlans (p : Planned P) : Fin 4 → Lru UInt64 (Planned P) :=
  let shard := P.cacheShard text
  if p.plan.isReadOnly then
    update w.physicalPlanCaches shard
      ((w.physicalPlanCaches shard).put 64 (P.hash text) p)
  else w.physicalPlanCaches

/-- `cache.lock().clear()` of one shard. -/
def clear (k : ℕ) : PlanWorld P n :=
  { w with
    planCaches := fun i => if i.val = k then ⟨[]⟩ else w.planCaches i
    physicalPlanCaches := fun i => if 4 + i.val = k then ⟨[]⟩ else w.physicalPlanCaches i }

/-- The next step of the planning of a text. -/
def plan (q : P.Parsed) : PlanStage P → PlanWorld P n
  | .missed => w.lookup c text q
  | .unbound => w.goOn c (.planning text q ∘ .justBound) (P.binding w.shared q)
  | .justBound b =>
    { w with planCaches := w.boundCaches text b }.goTo c (.planning text q (.bound b))
  | .bound b => w.goOn c (.planning text q ∘ .optimized) (P.logical w.shared q b)
  | .optimized x => w.goOn c (.planned text) (P.physicalPlan w.shared x)

/-- The next step of a connection that is planning a query or clearing the caches. -/
def advance : Option (PlanWorld P n) :=
  match w.phase c with
  | .idle => none
  | .planning text q stage => some (w.plan c text q stage)
  | .planned text p =>
    some ({ w with physicalPlanCaches := w.cachedPlans text p }.goTo c (.running text p))
  | .running _ _ => none
  | .clearing m => some ((w.clear m).goTo c (if m < 7 then .clearing (m + 1) else .idle))

def change (f : Shared Schema → Shared Schema) : PlanWorld P n :=
  { w with shared := f w.shared, changes := w.changes + 1 }

end PlanWorld

/-- What can happen next.  `fail` is an error elsewhere: of the check of the tables, or when the
transaction begins.  `restore` is a change of the catalog outside of `PhysicalDDL`, as in
`UndoBuffer::rollback`. -/
inductive PlanStep (Schema : Type) (n : ℕ) where
  | start (c : Fin n) (text : List Char)
  | advance (c : Fin n)
  | fail (c : Fin n)
  | ddl (c : Fin n) (f : Shared Schema → Shared Schema)
  | restore (f : Shared Schema → Shared Schema)

/-- Connections to a database that has just been opened. -/
def planSystem (P : Planner Schema) (n : ℕ) : System (PlanWorld P n) (PlanStep Schema n) where
  init w := (∀ c, w.phase c = .idle) ∧ (∀ i, (w.planCaches i).entries = []) ∧
    (∀ i, (w.physicalPlanCaches i).entries = []) ∧ w.since = fun _ => none
  step w
    | .start c text => if (w.phase c).isIdle then some (w.start c text) else none
    | .advance c => w.advance c
    | .fail c => if (w.phase c).isClearing then none else some (w.goTo c .idle)
    | .ddl c f => if (w.phase c).isIdle then some ((w.change f).goTo c (.clearing 0)) else none
    | .restore f => some (w.change f)

namespace PlanWorld

variable (sh : Shared Schema)

/-- An entry of the bound statement cache is what binding its text gives. -/
def BoundRight (e : List Char × BoundEntry P) : Prop :=
  ∃ q, P.parse e.1 = .ok q ∧ P.binding sh q = .ok (.statement e.2)

/-- An entry of the physical plan cache is the plan of a text of its hash. -/
def PlanRight (asked : List (List Char)) (e : UInt64 × Planned P) : Prop :=
  ∃ text ∈ asked, P.hash text = e.1 ∧ P.planAgainst sh text = .ok e.2

/-- Whatever will not be cleared yet is right for the given catalog. -/
structure CachesRight (w : PlanWorld P n) (sh : Shared Schema) : Prop where
  bound : ∀ i, ∀ e ∈ (w.planCaches i).entries, BoundRight sh e ∨ w.StillCleared i
  plans : ∀ i, ∀ e ∈ (w.physicalPlanCaches i).entries,
    PlanRight sh w.asked e ∨ w.StillCleared (4 + i)

/-- Every shard is empty, or still to be cleared. -/
structure Emptied (w : PlanWorld P n) : Prop where
  bound : ∀ i, (w.planCaches i).entries = [] ∨ w.StillCleared i
  plans : ∀ i, (w.physicalPlanCaches i).entries = [] ∨ w.StillCleared (4 + i)

/-- The condition on a step: texts of one hash are one text; a query that has seen the catalog change,
or the caches before they were cleared, inserts only where the shard will still be cleared; and when a
rollback changes the catalog, nothing has been cached since the caches were cleared. -/
def Orderly (w : PlanWorld P n) : PlanStep Schema n → Prop
  | .start _ text => ∀ text' ∈ w.asked, P.hash text' = P.hash text → text' = text
  | .advance c => ∀ k, w.inserts c = some k → w.Fresh c ∨ w.StillCleared k
  | .restore _ => w.Emptied
  | _ => True

/-- What the planning of a text has given so far is what the catalog gives. -/
def StageRight (q : P.Parsed) : PlanStage P → Prop
  | .justBound b => P.binding sh q = .ok b
  | .bound b => P.binding sh q = .ok b
  | .optimized x => ∃ b, P.binding sh q = .ok b ∧ P.logical sh q b = .ok x
  | _ => True

/-- The same for a connection. -/
def PhaseRight (asked : List (List Char)) : PlanPhase P → Prop
  | .planning text q stage => text ∈ asked ∧ P.parse text = .ok q ∧ StageRight sh q stage
  | .planned text p => text ∈ asked ∧ P.planAgainst sh text = .ok p
  | .running text p => text ∈ asked ∧ P.planAgainst sh text = .ok p
  | _ => True

/-- What holds in every orderly run. -/
structure Sound (w : PlanWorld P n) : Prop where
  caches : w.CachesRight w.shared
  quiet : ∀ c, w.Fresh c → w.Quiet
  phases : ∀ c, w.Fresh c → PhaseRight w.shared w.asked (w.phase c)
  since : ∀ c k, w.since c = some k → k ≤ w.changes

variable {w w' : PlanWorld P n} {c : Fin n} {text : List Char} {q : P.Parsed}
  {phase : PlanPhase P}

/-! ## Steps of a query -/

lemma phase_goTo_self : (w.goTo c phase).phase c = phase := update_self ..

lemma phase_goTo_of_ne {d : Fin n} (h : d ≠ c) : (w.goTo c phase).phase d = w.phase d :=
  update_of_ne h ..

variable {k m : ℕ} {sh : Shared Schema} {asked : List (List Char)}

lemma StillCleared.goTo (h : w.StillCleared k) (hc : (w.phase c).isClearing = false) :
    (w.goTo c phase).StillCleared k := by
  obtain ⟨d, m, hd, hm⟩ := h
  refine ⟨d, m, ?_, hm⟩
  rw [phase_goTo_of_ne, hd]
  rintro rfl
  rw [hd] at hc
  cases hc

lemma Quiet.not_stillCleared (h : w.Quiet) (k : ℕ) : ¬ w.StillCleared k := by
  rintro ⟨d, m, hd, -⟩
  have hquiet := h d
  rw [hd] at hquiet
  cases hquiet

lemma Quiet.goTo (h : w.Quiet) (hphase : phase.isClearing = false) : (w.goTo c phase).Quiet := by
  intro d
  by_cases hd : d = c
  · rw [hd, phase_goTo_self, hphase]
  · rw [phase_goTo_of_ne hd, h d]

lemma Sound.goTo (h : w.Sound) (hc : (w.phase c).isClearing = false)
    (hphase : phase.isClearing = false)
    (hright : w.Fresh c → PhaseRight w.shared w.asked phase) : (w.goTo c phase).Sound where
  caches :=
    { bound := fun i e he => (h.caches.bound i e he).imp_right (·.goTo hc)
      plans := fun i e he => (h.caches.plans i e he).imp_right (·.goTo hc) }
  quiet d hd := (h.quiet d hd).goTo hphase
  phases d hd := by
    by_cases hdc : d = c
    · rw [hdc, phase_goTo_self]
      exact hright (hdc ▸ hd)
    · rw [phase_goTo_of_ne hdc]
      exact h.phases d hd
  since := h.since

lemma Sound.goOn (h : w.Sound) (hc : (w.phase c).isClearing = false) {α : Type}
    {f : α → PlanPhase P} (hf : ∀ a, (f a).isClearing = false) {r : Except LightningError α}
    (hright : ∀ a, r = .ok a → w.Fresh c → PhaseRight w.shared w.asked (f a)) :
    (w.goOn c f r).Sound := by
  cases r with
  | ok a => exact h.goTo hc (hf a) (hright a rfl)
  | error e => exact h.goTo hc rfl fun _ => trivial

lemma of_mem_update {κ ν : Type} {caches : Fin 4 → Lru κ ν} {shard i : Fin 4} {cache : Lru κ ν}
    {R : Fin 4 → κ × ν → Prop} (hold : ∀ i, ∀ e ∈ (caches i).entries, R i e)
    (hnew : ∀ e ∈ cache.entries, e ∈ (caches shard).entries ∨ R shard e) :
    ∀ e ∈ (update caches shard cache i).entries, R i e := by
  intro e he
  by_cases hi : i = shard
  · rw [hi, update_self] at he
    rw [hi]
    exact (hnew e he).elim (hold shard e) id
  · rw [update_of_ne hi] at he
    exact hold i e he

lemma Sound.lookup (h : w.Sound) (hphase : w.phase c = .planning text q .missed) :
    (w.lookup c text q).Sound := by
  have hc : (w.phase c).isClearing = false := by rw [hphase]; rfl
  have hright := h.phases c
  rw [hphase] at hright
  rw [PlanWorld.lookup]
  split
  · exact h.goTo hc rfl hright
  · refine Sound.goTo { h with caches := ⟨fun i => ?_, h.caches.plans⟩ } hc rfl fun hfresh => ?_
    · exact of_mem_update h.caches.bound fun e he => .inl (Lru.mem_entries_of_mem_get he)
    obtain ⟨hasked, hq, -⟩ := hright hfresh
    cases hfind : (w.planCaches (P.cacheShard text)).find? text with
    | none => exact ⟨hasked, hq, trivial⟩
    | some entry =>
      obtain ⟨q', hq', hentry⟩ :=
        (h.caches.bound _ _ (Lru.mem_of_find?_eq_some hfind)).resolve_right
          ((h.quiet c hfresh).not_stillCleared _)
      cases hq'.symm.trans hq
      exact ⟨hasked, hq, hentry⟩

lemma Sound.boundCaches (h : w.Sound) {b : P.Binding}
    (hphase : w.phase c = .planning text q (.justBound b)) (hok : w.Orderly (.advance c)) :
    { w with planCaches := w.boundCaches text b }.Sound := by
  refine { h with caches := ⟨fun i => ?_, h.caches.plans⟩ }
  cases b with
  | union bound scope source => exact h.caches.bound i
  | statement entry =>
    rw [PlanWorld.boundCaches]
    split
    next hquery =>
      refine of_mem_update h.caches.bound fun e he => ?_
      rcases Lru.mem_put he with rfl | he
      · refine .inr ((hok (P.cacheShard text) ?_).imp_left fun hfresh => ?_)
        · simp only [inserts, hphase, hquery, if_true]
        · have hright := h.phases c hfresh
          rw [hphase] at hright
          exact ⟨q, hright.2⟩
      · exact .inl he
    · exact h.caches.bound i

lemma Sound.cachedPlans (h : w.Sound) {p : Planned P} (hphase : w.phase c = .planned text p)
    (hok : w.Orderly (.advance c)) :
    { w with physicalPlanCaches := w.cachedPlans text p }.Sound := by
  refine { h with caches := ⟨h.caches.bound, fun i => ?_⟩ }
  rw [PlanWorld.cachedPlans]
  split
  next hread =>
    refine of_mem_update h.caches.plans fun e he => ?_
    rcases Lru.mem_put he with rfl | he
    · refine .inr ((hok (4 + P.cacheShard text) ?_).imp_left fun hfresh => ?_)
      · simp only [inserts, hphase, hread, if_true]
      · have hright := h.phases c hfresh
        rw [hphase] at hright
        exact ⟨text, hright.1, rfl, hright.2⟩
    · exact .inl he
  · exact h.caches.plans i

lemma Sound.plan (h : w.Sound) {stage : PlanStage P} (hphase : w.phase c = .planning text q stage)
    (hok : w.Orderly (.advance c)) : (w.plan c text q stage).Sound := by
  have hc : (w.phase c).isClearing = false := by rw [hphase]; rfl
  have hright := h.phases c
  rw [hphase] at hright
  cases stage with
  | missed => exact h.lookup hphase
  | unbound =>
    exact h.goOn hc (fun _ => rfl) fun b hb hfresh =>
      ⟨(hright hfresh).1, (hright hfresh).2.1, hb⟩
  | justBound b => exact (h.boundCaches hphase hok).goTo hc rfl hright
  | bound b =>
    exact h.goOn hc (fun _ => rfl) fun x hx hfresh =>
      ⟨(hright hfresh).1, (hright hfresh).2.1, b, (hright hfresh).2.2, hx⟩
  | optimized x =>
    refine h.goOn hc (fun _ => rfl) fun p hp hfresh => ?_
    obtain ⟨hasked, hq, b, hb, hx⟩ := hright hfresh
    exact ⟨hasked, (Planner.planAgainst_eq_ok hq hb hx).trans hp⟩

/-! ## Changes of the catalog -/

lemma Sound.change (h : w.Sound) (hcaches : w'.CachesRight w'.shared) (hsince : w'.since = w.since)
    (hchanges : w'.changes = w.changes + 1) : w'.Sound := by
  have hnot : ∀ d, ¬ w'.Fresh d := by
    intro d hd
    rw [Fresh, hsince, hchanges] at hd
    exact Nat.not_succ_le_self _ (h.since d _ hd)
  refine ⟨hcaches, fun d hd => absurd hd (hnot d), fun d hd => absurd hd (hnot d), fun d k hk => ?_⟩
  rw [hsince] at hk
  rw [hchanges]
  exact Nat.le_succ_of_le (h.since d k hk)

lemma Emptied.cachesRight (h : w.Emptied) {f : Shared Schema → Shared Schema} :
    (w.change f).CachesRight (w.change f).shared where
  bound i _ he := .inr ((h.bound i).resolve_left (ne_nil_of_mem he))
  plans i _ he := .inr ((h.plans i).resolve_left (ne_nil_of_mem he))

lemma Sound.ddl (h : w.Sound) (f : Shared Schema → Shared Schema) :
    ((w.change f).goTo c (.clearing 0)).Sound := by
  have hcleared : ∀ k, ((w.change f).goTo c (.clearing 0)).StillCleared k :=
    fun k => ⟨c, 0, phase_goTo_self, Nat.zero_le k⟩
  exact h.change ⟨fun i e _ => .inr (hcleared i), fun i e _ => .inr (hcleared _)⟩ rfl rfl

lemma StillCleared.clear (h : w.StillCleared k) (hphase : w.phase c = .clearing m)
    (hne : k ≠ m) (hk : k < 8) :
    ((w.clear m).goTo c (if m < 7 then .clearing (m + 1) else .idle)).StillCleared k := by
  obtain ⟨d, m', hd, hm'⟩ := h
  by_cases hdc : d = c
  · rw [hdc, hphase, PlanPhase.clearing.injEq] at hd
    refine ⟨c, m + 1, ?_, by omega⟩
    rw [phase_goTo_self, if_pos (by omega)]
  · exact ⟨d, m', by rwa [phase_goTo_of_ne hdc], hm'⟩

lemma Sound.clear (h : w.Sound) (hphase : w.phase c = .clearing m) :
    ((w.clear m).goTo c (if m < 7 then .clearing (m + 1) else .idle)).Sound := by
  have hnot : ∀ d, ¬ w.Fresh d := fun d hd =>
    (h.quiet d hd).not_stillCleared m ⟨c, m, hphase, le_refl m⟩
  refine ⟨⟨fun i e he => ?_, fun i e he => ?_⟩, fun d hd => absurd hd (hnot d),
    fun d hd => absurd hd (hnot d), h.since⟩
  all_goals
    simp only [PlanWorld.goTo, PlanWorld.clear] at he
    split at he
    · cases he
  · exact (h.caches.bound i e he).imp_right (·.clear hphase ‹_› (by omega))
  · exact (h.caches.plans i e he).imp_right (·.clear hphase ‹_› (by omega))

/-! ## Runs -/

lemma PhaseRight.mono
    (h : PhaseRight sh asked phase) (text : List Char) : PhaseRight sh (text :: asked) phase := by
  cases phase <;> first | trivial | exact h.imp_left (mem_cons_of_mem _)

lemma PhaseRight.begun {cached : Option (Planned P)}
    (h : ∀ p, cached = some p → P.planAgainst sh text = .ok p) :
    PhaseRight sh (text :: asked) (.begun text cached) := by
  cases cached with
  | some p => exact ⟨mem_cons_self, h p rfl⟩
  | none =>
    rw [PlanPhase.begun]
    split
    · exact ⟨mem_cons_self, ‹_›, trivial⟩
    · trivial

lemma Sound.start (h : w.Sound) (hc : (w.phase c).isClearing = false)
    (hone : w.Orderly (.start c text)) : (w.start c text).Sound := by
  have hquiet : ∀ d, (w.start c text).Fresh d → w.Quiet := by
    intro d hd
    rcases of_update hd with ⟨rfl, hd⟩ | ⟨-, hd⟩
    · exact (ite_none_right_eq_some.1 hd).1
    · exact h.quiet d hd
  refine ⟨⟨fun i e he => ?_, fun i => ?_⟩,
    fun d hd => (hquiet d hd).goTo (PlanPhase.isClearing_begun ..), fun d hd => ?_, fun d k hk => ?_⟩
  · exact (h.caches.bound i e he).imp_right (·.goTo hc)
  · have hplans : ∀ i, ∀ e ∈ (w.physicalPlanCaches i).entries,
        PlanRight w.shared (text :: w.asked) e ∨ (w.start c text).StillCleared (4 + i) :=
      fun i e he => (h.caches.plans i e he).imp
        (Exists.imp fun _ => And.imp_left (mem_cons_of_mem _)) (·.goTo hc)
    exact of_mem_update hplans fun e he => .inl (Lru.mem_entries_of_mem_get he)
  · rcases of_update hd with ⟨rfl, -⟩ | ⟨hdc, hold⟩
    · rw [PlanWorld.start, phase_goTo_self]
      refine .begun fun p hp => ?_
      obtain ⟨text', htext', hhash, hplan⟩ :=
        (h.caches.plans _ _ (Lru.mem_of_find?_eq_some hp)).resolve_right
          ((hquiet d hd).not_stillCleared _)
      cases hone text' htext' hhash
      exact hplan
    · rw [PlanWorld.start, phase_goTo_of_ne hdc]
      exact (h.phases d hold).mono text
  · rcases of_update hk with ⟨-, hk⟩ | ⟨-, hk⟩
    · exact (some.inj (ite_none_right_eq_some.1 hk).2).ge
    · exact h.since d k hk

lemma Sound.advance (h : w.Sound) (hok : w.Orderly (.advance c)) (hw' : w.advance c = some w') :
    w'.Sound := by
  rw [PlanWorld.advance] at hw'
  cases hphase : w.phase c with
  | idle | running => rw [hphase] at hw'; cases hw'
  | planning text q stage =>
    rw [hphase] at hw'
    cases hw'
    exact h.plan hphase hok
  | planned text p =>
    have hright := h.phases c
    rw [hphase] at hw' hright
    cases hw'
    exact (h.cachedPlans hphase hok).goTo (by rw [hphase]; rfl) rfl hright
  | clearing m =>
    rw [hphase] at hw'
    cases hw'
    exact h.clear hphase

lemma Sound.step {a : PlanStep Schema n} (h : w.Sound) (hok : w.Orderly a)
    (hstep : (planSystem P n).step w a = some w') : w'.Sound := by
  cases a with
  | start c text =>
    obtain ⟨hc, ⟨⟩⟩ := ite_none_right_eq_some.1 hstep
    exact h.start (PlanPhase.isClearing_of_isIdle hc) hok
  | advance c => exact h.advance hok hstep
  | fail c =>
    obtain ⟨hc, ⟨⟩⟩ := ite_none_left_eq_some.1 hstep
    exact h.goTo (Bool.eq_false_iff.2 hc) rfl fun _ => trivial
  | ddl c f =>
    obtain ⟨-, ⟨⟩⟩ := ite_none_right_eq_some.1 hstep
    exact h.ddl f
  | restore f =>
    cases hstep
    exact h.change hok.cachesRight rfl rfl

lemma Sound.init (h : (planSystem P n).init w) : w.Sound := by
  obtain ⟨-, hbound, hplans, hsince⟩ := h
  have hnot : ∀ c k, w.since c ≠ some k := fun c k => by rw [hsince]; exact nofun
  refine ⟨⟨fun i e he => ?_, fun i e he => ?_⟩, fun c hc => absurd hc (hnot c _),
    fun c hc => absurd hc (hnot c _), fun c k hk => absurd hk (hnot c k)⟩
  · rw [hbound] at he
    cases he
  · rw [hplans] at he
    cases he

/-- **The plan of the current catalog.**  In a run of orderly steps, a query that started when every
change of the catalog had finished runs with the plan that binding and planning it against the current
catalog gives. -/
theorem plan_of_current_catalog {w : PlanWorld P n}
    (h : (planSystem P n).ReachableBy (fun w => w.Orderly) w) {c : Fin n} {text : List Char}
    {p : Planned P} (hrunning : w.phase c = .running text p)
    (hfresh : w.since c = some w.changes) : P.planAgainst w.shared text = .ok p := by
  have hright := (h.invariant (fun _ => Sound.init) fun _ _ _ _ hw => hw.step).phases c hfresh
  rw [hrunning] at hright
  exact hright.2

/-! ## A catalog that is restored -/

def scanColumn (col : ℕ) : Op Unit :=
  .read fun v => Op.emitRows <|
    (range (v.shared.nextRowId 0)).filterMap fun row =>
      if v.visible 0 row then some [v.cell (.column 0 col row)] else none

/-- The planner of `MATCH (n:T) RETURN n.age`.  The binder looks for the column among those that the
catalog has for the table, and what it finds is the column of the scan.  A scan is not among the operators
that say they are read-only. -/
def agePlanner : Planner Unit where
  __ := Session.constantPlanner true .done
  Bound := ℕ
  Logical := ℕ
  bind sh _ _ :=
    match (sh.columns 0).idxOf? "age" with
    | some col => .ok (col, ())
    | none => .error (.query "Property age not found on variable n (table T)")
  outputColumns _ := [("n.age", "Int64")]
  takeTail col := (none, none, col)
  isQuery _ := true
  plan col := .ok col
  optimize _ _ plan := .ok plan
  physical _ _
    | .statement col => .ok ⟨fun _ => scanColumn col, false⟩
    -- the text has neither UNION nor EXPLAIN
    | _ => .ok ⟨fun _ => .done, false⟩

/-- The query. -/
def ageText : List Char := "MATCH (n:T) RETURN n.age".toList

lemma parse_ageText : agePlanner.parse ageText = .ok ⟨[.last (.other ())], false, false⟩ :=
  (Session.parse_constantPlanner (by decide +kernel) (by decide +kernel) :
    (Session.constantPlanner true .done).parse ageText = _)

/-- Two connections to a database with the table. -/
def newWorld : PlanWorld agePlanner 2 where
  shared := { Session.emptyStore.shared with columns := fun _ => ["_id"] }
  planCaches _ := ⟨[]⟩
  physicalPlanCaches _ := ⟨[]⟩
  phase _ := .idle
  asked := []
  changes := 0
  since _ := none

/-- `ALTER TABLE T ADD age`, and its rollback. -/
def addAge (sh : Shared Unit) : Shared Unit :=
  { sh with columns := fun t => sh.columns t ++ ["age"] }

def removeAge (sh : Shared Unit) : Shared Unit :=
  { sh with columns := fun t => (sh.columns t).filter (· ≠ "age") }

/-- A sufficient check of the condition: there is only one query, and it inserts while it is fresh; and
the caches are empty when a catalog is restored. -/
def check (w : PlanWorld agePlanner 2) : PlanStep Unit 2 → Bool
  | .start _ _ => w.asked.isEmpty
  | .advance c => (w.inserts c).isNone || w.since c == some w.changes
  | .restore _ => decide ((∀ i, (w.planCaches i).entries.isEmpty) ∧
      ∀ i, (w.physicalPlanCaches i).entries.isEmpty)
  | _ => true

lemma orderly_of_check {w : PlanWorld agePlanner 2} {a : PlanStep Unit 2}
    (h : w.check a = true) : w.Orderly a := by
  cases a with
  | start c text =>
    rw [check, List.isEmpty_iff] at h
    rw [Orderly, h]
    rintro text' ⟨⟩
  | advance c =>
    intro k hk
    rw [check, hk] at h
    exact .inl (eq_of_beq h)
  | restore f =>
    obtain ⟨hbound, hplans⟩ := of_decide_eq_true h
    exact ⟨fun i => .inl (List.isEmpty_iff.1 (hbound i)), fun i => .inl (List.isEmpty_iff.1 (hplans i))⟩
  | fail | ddl => trivial

/-- The first connection has added the column, rolled that back, and added it again. -/
def altered : PlanWorld agePlanner 2 :=
  ((planSystem agePlanner 2).execIf check newWorld
    (.ddl 0 addAge :: List.replicate 8 (.advance 0) ++ .restore removeAge :: .ddl 0 addAge ::
      List.replicate 8 (.advance 0))).get rfl

def queried : PlanWorld agePlanner 2 :=
  ((planSystem agePlanner 2).execIf check
    ((altered.start 1 ageText).lookup 1 ageText ⟨[.last (.other ())], false, false⟩)
    (List.replicate 5 (.advance 1))).get rfl

lemma phase_start {w : PlanWorld agePlanner 2}
    (h : (w.physicalPlanCaches (agePlanner.cacheShard ageText)).find? (agePlanner.hash ageText) = none) :
    (w.start 1 ageText).phase 1 =
      .planning ageText ⟨[.last (.other ())], false, false⟩ .missed := by
  rw [start, phase_goTo_self, h, PlanPhase.begun, parse_ageText]

lemma reachable_queried : (planSystem agePlanner 2).ReachableBy (fun w => w.Orderly) queried := by
  have hcheck := fun w a (_ : (planSystem agePlanner 2).ReachableBy (fun w => w.Orderly) w) =>
    @orderly_of_check w a
  have hinit : (planSystem agePlanner 2).init newWorld :=
    ⟨fun _ => rfl, fun _ => rfl, fun _ => rfl, rfl⟩
  have haltered : (planSystem agePlanner 2).ReachableBy (fun w => w.Orderly) altered :=
    (System.ReachableBy.init hinit).execIf hcheck (some_get rfl).symm
  have hstarted := haltered.step (a := .start 1 ageText) (orderly_of_check rfl) rfl
  have hphase : (altered.start 1 ageText).phase 1 = _ := phase_start rfl
  refine (hstarted.step (a := .advance 1) (orderly_of_check ?_) ?_).execIf hcheck
    (some_get rfl).symm
  · rw [check, inserts, hphase]
    rfl
  · change (altered.start 1 ageText).advance 1 = _
    rw [advance, hphase]
    rfl

/-- The query runs with the plan of the catalog with the column. -/
theorem queried_plan_current : ∃ p, queried.phase 1 = .running ageText p ∧
    agePlanner.planAgainst queried.shared ageText = .ok p :=
  ⟨_, rfl, plan_of_current_catalog reachable_queried (c := 1) rfl rfl⟩

/-- The new column is rolled back, and then the same query runs with the bound statement that is cached,
while it cannot be bound any more. -/
theorem rolled_back_column_still_planned :
    ∃ (w : PlanWorld agePlanner 2) (p : Planned agePlanner),
      (planSystem agePlanner 2).Reachable w ∧ w.phase 1 = .running ageText p ∧
      w.since 1 = some w.changes ∧ agePlanner.planAgainst w.shared ageText =
        .error (.query "Property age not found on variable n (table T)") := by
  have hstarted : (planSystem agePlanner 2).exec queried [.restore removeAge, .start 1 ageText] =
      some ((queried.change removeAge).start 1 ageText) := rfl
  have hphase : ((queried.change removeAge).start 1 ageText).phase 1 = _ := phase_start rfl
  have hlookup : (planSystem agePlanner 2).exec ((queried.change removeAge).start 1 ageText)
      [.advance 1] = some (((queried.change removeAge).start 1 ageText).lookup 1 ageText
        ⟨[.last (.other ())], false, false⟩) := by
    change (((queried.change removeAge).start 1 ageText).advance 1).bind some = _
    rw [advance, hphase]
    rfl
  have hrun := ((reachable_queried.reachable.exec hstarted).exec hlookup).exec
    (rfl : (planSystem agePlanner 2).exec _ (List.replicate 3 (.advance 1)) = some _)
  refine ⟨_, _, hrun, rfl, rfl, ?_⟩
  rw [Planner.planAgainst, parse_ageText]
  rfl

end PlanWorld

end LightningDB
