import LightningDB.Framework.Runs
import LightningDB.Query.Connection

/-!
# The statements of a text, and those that are run

A text of several statements goes through `parse`, `validate` and `bind` as a whole, but `plan_query`
takes the first query only, and so does the routing of transaction control.  A call that returns has
run exactly one query (`performed_of_execute`): the first one, or whatever a cached plan was made
from.  Transaction control that is not routed, because a comment stands in front of it, is planned like
other statements, and then carried out by nobody.
-/

namespace LightningDB

open Framework Option

variable {Schema : Type} {P : Planner Schema}

namespace Session

/-- Entries of the bound statement caches come from the first query of their text. -/
def CachesSound (s : Session P) : Prop :=
  ∀ shard, ∀ e ∈ (s.planCaches shard).entries,
    ∃ q, P.parse e.1 = .ok q ∧ q.unionQueries.head? = some e.2.source

/-- What every step before and after the run of a plan does to the books. -/
def SameBooks (s s' : Session P) : Prop :=
  s'.performed = s.performed ∧ (s.CachesSound → s'.CachesSound)

instance : IsPreorder (Session P) SameBooks where
  refl _ := ⟨rfl, id⟩
  trans _ _ _ h h' := ⟨h'.1.trans h.1, h'.2 ∘ h.2⟩

inductive Call where
  | execute (text : List Char) (params : Params) (isLate : Bool)
  | executeAt (text : List Char) (snapshotTs : ℕ) (params : Params)
  | executeStream (text : List Char) (params : Params)

def call (s : Session P) : Call → Session P
  | .execute text params isLate => stateOf (execute text params isLate s)
  | .executeAt text snapshotTs params => stateOf (executeAt text snapshotTs params s)
  | .executeStream text params => stateOf (executeStream text params s)

/-- Connections to a database that has just been opened. -/
def sessionSystem (P : Planner Schema) : System (Session P) Call where
  init s := ∀ shard, (s.planCaches shard).entries = []
  step s c := some (s.call c)

/-! ## What is kept -/

lemma SameBooks.of_eq {s s' : Session P} (hperformed : s'.performed = s.performed)
    (hcaches : s'.planCaches = s.planCaches) : s.SameBooks s' := by
  refine ⟨hperformed, fun h => ?_⟩
  rw [CachesSound, hcaches]
  exact h

lemma keeps_liftExcept {R : Session P → Session P → Prop} [IsPreorder (Session P) R] {α : Type}
    (e : Except LightningError α) : Keeps R (liftExcept e : SessionM P α) := by
  intro s
  cases e <;> exact refl_of R s

lemma keeps_cachedPlan (text : List Char) : Keeps SameBooks (cachedPlan text : SessionM P _) :=
  fun _ => .of_eq rfl rfl

lemma keeps_cachedBound (text : List Char) : Keeps SameBooks (cachedBound text : SessionM P _) := by
  refine fun s => ⟨rfl, fun h shard e he => ?_⟩
  simp only [cachedBound, stateOf_ok, Function.update_apply] at he
  split at he
  · exact h _ e (Lru.mem_entries_of_mem_get he)
  · exact h _ e he

variable {entry : BoundEntry P}

lemma keeps_cacheBound {text : List Char} {q : Query (Statement P.Stmt)}
    (hq : P.parse text = .ok q) (hentry : q.unionQueries.head? = some entry.source) :
    Keeps SameBooks (cacheBound text entry) := by
  refine fun s => ⟨rfl, fun h shard e he => ?_⟩
  simp only [cacheBound, stateOf_ok, Function.update_apply] at he
  split at he
  · rcases Lru.mem_put he with rfl | he
    · exact ⟨q, hq, hentry⟩
    · exact h _ e he
  · exact h _ e he

variable {text : List Char} {q : Query (Statement P.Stmt)}

section Planning

variable {R : Session P → Session P → Prop} [IsPreorder (Session P) R]

/-- What looking into the caches and filling them keeps. -/
structure KeptByCaches (R : Session P → Session P → Prop) (text : List Char)
    (q : Query (Statement P.Stmt)) : Prop where
  cachedBound : Keeps R (cachedBound text : SessionM P _)
  cacheBound : ∀ entry, q.unionQueries.head? = some entry.source → Keeps R (cacheBound text entry)
  cachePlan : ∀ planned, Keeps R (cachePlan text planned : SessionM P _)

lemma keeps_boundStatement (h : KeptByCaches R text q) : Keeps R (boundStatement text q) := by
  refine h.cachedBound.bind fun cached => ?_
  cases cached with
  | some entry => exact .pure _
  | none =>
    refine Keeps.get.bind fun s => (keeps_liftExcept _).bind fun bound => ?_
    dsimp only
    split
    next hus =>
      split
      · exact (h.cacheBound _ (by rw [hus]; rfl)).bind fun _ => .pure _
      · exact .pure _
    · exact .throw _

/-- To plan a text is to look into the caches and to fill them. -/
lemma keeps_planText (h : KeptByCaches R text q) : Keeps R (planText text q) := by
  refine Keeps.get.bind fun s => Keeps.bind ?_ fun x => (keeps_liftExcept _).bind fun physical => ?_
  · split
    · refine (keeps_liftExcept _).bind fun bound => (keeps_liftExcept _).bind fun plan =>
        (keeps_liftExcept _).bind fun plan => ?_
      split
      · exact .pure _
      · exact .throw _
    · exact (keeps_boundStatement h).bind fun entry => (keeps_liftExcept _).bind fun plan =>
        (keeps_liftExcept _).bind fun plan => .pure _
  · split
    · exact (h.cachePlan _).bind fun _ => .pure _
    · exact .pure _

end Planning

variable {s s' : Session P}

lemma keptByCaches_sameBooks (hq : P.parse text = .ok q) : KeptByCaches SameBooks text q where
  cachedBound := keeps_cachedBound text
  cacheBound _ hentry := keeps_cacheBound hq hentry
  cachePlan _ _ := .of_eq rfl rfl

lemma keeps_ensureWritableColumns : Keeps SameBooks (ensureWritableColumns : SessionM P Unit) := by
  intro s
  rw [ensureWritableColumns]
  split
  · exact refl_of SameBooks s
  · split
    · exact refl_of SameBooks s
    · split
      · exact .of_eq rfl rfl
      · dsimp only
        split <;> exact .of_eq rfl rfl

lemma keeps_openTransaction (isReadOnly : Bool) (snapshotTs : Option ℕ)
    (explicitTx : Option (TxState Schema)) :
    Keeps SameBooks (openTransaction isReadOnly snapshotTs explicitTx : SessionM P _) := by
  intro s
  cases explicitTx with
  | some tx => exact refl_of SameBooks s
  | none =>
    rw [openTransaction]
    split
    · exact refl_of SameBooks s
    · exact .of_eq rfl rfl

variable (isExplicit : Bool) (tx : TxState Schema)

lemma sameBooks_keep (store : Store Schema)
    (s : Session P) : s.SameBooks (s.keep isExplicit tx store) :=
  .of_eq rfl rfl

lemma sameBooks_release (store : Store Schema)
    (s : Session P) : s.SameBooks (s.release isExplicit tx store) := by
  rw [release]
  split <;> exact .of_eq rfl rfl

variable {α : Type} {planned : Planned P} {chunks : List Chunk}

lemma keeps_orRelease {m : SessionM P α}
    (h : Keeps SameBooks m) : Keeps SameBooks (orRelease isExplicit tx m) := by
  intro s
  have hm := h s
  rw [orRelease]
  split
  next hs => rwa [hs] at hm
  next hs =>
    rw [hs] at hm
    exact trans_of SameBooks hm (sameBooks_release ..)

lemma keeps_flushPending (isReadOnly isExplicit : Bool) (tx : TxState Schema) :
    Keeps SameBooks (flushPending isReadOnly isExplicit tx : SessionM P _) := by
  intro s
  rw [flushPending]
  split
  · exact refl_of SameBooks s
  · dsimp only
    split
    · exact sameBooks_keep ..
    · exact sameBooks_release ..

lemma keeps_checkQuery (q : Query (Statement P.Stmt)) (isExplicit : Bool) :
    Keeps SameBooks (checkQuery q isExplicit) := by
  refine Keeps.get.bind fun s => (keeps_liftExcept _).bind fun _ => ?_
  split
  · exact .pure _
  · exact keeps_ensureWritableColumns

lemma keeps_planIn (hq : P.parse text = .ok q)
    (snapshotTs : Option ℕ) (explicitTx : Option (TxState Schema)) :
    Keeps SameBooks (planIn text q snapshotTs explicitTx) := by
  refine (keeps_openTransaction _ _ _).bind fun tx => (keeps_flushPending _ _ _).bind fun tx =>
    (keeps_orRelease _ _ (keeps_planText (keptByCaches_sameBooks hq))).bind fun planned => .pure _

lemma keeps_buildPhysicalPlan (text : List Char) (snapshotTs : Option ℕ)
    (explicitTx : Option (TxState Schema)) :
    Keeps SameBooks (buildPhysicalPlan text snapshotTs explicitTx : SessionM P _) := by
  refine (keeps_cachedPlan text).bind fun cached => ?_
  cases cached with
  | some planned => exact (keeps_openTransaction _ _ _).bind fun tx => .pure _
  | none =>
    cases hq : P.parse text with
    | error e => exact .throw e
    | ok q => exact (keeps_checkQuery q _).bind fun _ => keeps_planIn hq _ _

lemma keeps_autocommit : Keeps SameBooks (autocommit tx : SessionM P Unit) := by
  intro s
  rw [autocommit]
  split <;> exact .of_eq rfl rfl

lemma keeps_endStatement (isExplicit isLate : Bool) (r : Ran Schema (List Chunk)) :
    Keeps SameBooks (endStatement isExplicit isLate r : SessionM P _) := by
  intro s
  rw [endStatement]
  split
  · exact sameBooks_release ..
  · split
    · exact trans_of SameBooks (sameBooks_keep true r.tx r.store s) (keeps_liftExcept _ _)
    · split
      · exact .of_eq rfl rfl
      · exact ((keeps_autocommit r.tx).bind fun _ => .pure _) s

lemma keeps_endSnapshot (r : Ran Schema (List Chunk)) :
    Keeps SameBooks (endSnapshot r : SessionM P _) := by
  intro s
  rw [endSnapshot]
  split
  · exact sameBooks_release ..
  · exact ((keeps_autocommit r.tx).bind fun _ => .pure _) s

lemma keeps_beginTransaction : Keeps SameBooks (beginTransaction : SessionM P Unit) := by
  intro s
  rw [beginTransaction]
  split
  · exact refl_of SameBooks s
  · split
    · exact refl_of SameBooks s
    · exact .of_eq rfl rfl

lemma keeps_takeTransaction (f : TxState Schema → Store Schema → Ran Schema Unit) :
    Keeps SameBooks (takeTransaction f : SessionM P Unit) := by
  intro s
  rw [takeTransaction]
  split
  · exact refl_of SameBooks s
  · dsimp only
    split <;> exact .of_eq rfl rfl

lemma keeps_carryOut (action : TransactionAction) :
    Keeps SameBooks (carryOut action : SessionM P String) := by
  cases action with
  | begin => exact keeps_beginTransaction.bind fun _ => .pure _
  | commit | rollback => exact (keeps_takeTransaction _).bind fun _ => .pure _

/-! ## Where a plan comes from -/

lemma source_of_boundStatement (hs : s.CachesSound)
    (hq : P.parse text = .ok q) (h : boundStatement text q s = .ok entry s') :
    q.unionQueries.head? = some entry.source := by
  obtain ⟨cached, s₁, hcached, h⟩ := bind_eq_ok.1 h
  cases hcached
  cases hentry : (s.planCaches (P.cacheShard text)).find? text with
  | some entry' =>
    rw [hentry] at h
    cases h
    obtain ⟨q', hq', hsource⟩ := hs _ _ (Lru.mem_of_find?_eq_some hentry)
    rw [hq] at hq'
    cases hq'
    exact hsource
  | none =>
    rw [hentry] at h
    obtain ⟨s₂, s₃, -, h⟩ := bind_eq_ok.1 h
    obtain ⟨⟨bound, scope⟩, s₄, -, h⟩ := bind_eq_ok.1 h
    cases bound with
    | nil => cases h
    | cons first rest =>
      cases hus : q.unionQueries with
      | nil =>
        rw [hus] at h
        cases h
      | cons u us =>
        rw [hus] at h
        dsimp only at h
        split at h
        · cases h
          rfl
        · cases h
          rfl

lemma source_of_planText (hs : s.CachesSound) (hq : P.parse text = .ok q)
    (h : planText text q s = .ok planned s') : q.unionQueries.head? = some planned.source := by
  obtain ⟨s₀, s₁, hget, h⟩ := bind_eq_ok.1 h
  cases hget
  obtain ⟨x, s₂, hx, h⟩ := bind_eq_ok.1 h
  have hsource : q.unionQueries.head? = some x.2.2 := by
    split at hx
    · obtain ⟨bound, s₃, -, hx⟩ := bind_eq_ok.1 hx
      obtain ⟨plan, s₄, hplan, hx⟩ := bind_eq_ok.1 hx
      obtain ⟨plan', s₅, hplan', hx⟩ := bind_eq_ok.1 hx
      cases hus : q.unionQueries with
      | cons u us =>
        rw [hus] at hx
        cases hx
        rfl
      | nil =>
        rw [hus] at hx
        cases hx
    · obtain ⟨entry, s₃, hentry, hx⟩ := bind_eq_ok.1 hx
      obtain ⟨plan, s₄, hplan, hx⟩ := bind_eq_ok.1 hx
      obtain ⟨plan', s₅, hplan', hx⟩ := bind_eq_ok.1 hx
      cases hx
      exact source_of_boundStatement hs hq hentry
  obtain ⟨physical, s₃, -, h⟩ := bind_eq_ok.1 h
  split at h
  · cases h
    exact hsource
  · cases h
    exact hsource

def planFor (s : Session P) (text : List Char) : Option (Planned P) :=
  (s.physicalPlanCaches (P.cacheShard text)).find? (P.hash text)

lemma source_of_buildPhysicalPlan {snapshotTs : Option ℕ} {explicitTx : Option (TxState Schema)}
    {tx : TxState Schema} (hs : s.CachesSound) (hq : P.parse text = .ok q)
    (h : buildPhysicalPlan text snapshotTs explicitTx s = .ok (planned, tx) s') :
    ((s.planFor text).map (·.source)).or q.unionQueries.head? = some planned.source := by
  obtain ⟨cached, s₁, hcached, h⟩ := bind_eq_ok.1 h
  have hs₁ : s₁.CachesSound := ((keeps_cachedPlan text).of_eq_ok hcached).2 hs
  obtain rfl : s.planFor text = cached := by
    cases hcached
    rfl
  cases hplan : s.planFor text with
  | some planned' =>
    rw [hplan] at h
    obtain ⟨tx', s₂, -, h⟩ := bind_eq_ok.1 h
    cases h
    rfl
  | none =>
    rw [hplan, hq] at h
    obtain ⟨q', s₁', hlift, h⟩ := bind_eq_ok.1 h
    cases hlift
    obtain ⟨u, s₂, hcheck, h⟩ := bind_eq_ok.1 h
    have hs₂ : s₂.CachesSound := ((keeps_checkQuery q _).of_eq_ok hcheck).2 hs₁
    obtain ⟨tx₁, s₃, hopen, h⟩ := bind_eq_ok.1 h
    have hs₃ : s₃.CachesSound := ((keeps_openTransaction _ _ _).of_eq_ok hopen).2 hs₂
    obtain ⟨tx₂, s₄, hflush, h⟩ := bind_eq_ok.1 h
    have hs₄ : s₄.CachesSound := ((keeps_flushPending _ _ _).of_eq_ok hflush).2 hs₃
    obtain ⟨planned', s₅, hplan', h⟩ := bind_eq_ok.1 h
    cases h
    rw [orRelease] at hplan'
    split at hplan'
    next htext =>
      cases hplan'
      exact source_of_planText hs₄ hq htext
    · cases hplan'

/-! ## What a call has run -/

lemma performed_of_transaction (hq : P.parse text = .ok q)
    (h : executeTransactionStatement text s = .ok chunks s') :
    ∃ u, q.unionQueries.head? = some u ∧ s'.performed = s.performed ++ [some (.last u.statement)] := by
  rw [executeTransactionStatement, hq] at h
  obtain ⟨q', s₀, hlift, h⟩ := bind_eq_ok.1 h
  cases hlift
  cases hhead : q.unionQueries.head? with
  | none =>
    rw [hhead] at h
    cases h
  | some u =>
    rw [hhead] at h
    refine ⟨u, rfl, ?_⟩
    cases hu : u.statement with
    | other st =>
      rw [map_some, hu] at h
      cases h
    | transaction action =>
      rw [map_some, hu] at h
      obtain ⟨message, s₁, hcarry, h⟩ := bind_eq_ok.1 h
      cases h
      rw [((keeps_carryOut action).of_eq_ok hcarry).1]

lemma isOk_of_endStatement {isLate : Bool} {r : Ran Schema (List Chunk)}
    (h : endStatement isExplicit isLate r s = .ok chunks s') : r.result.isOk = true := by
  rw [endStatement] at h
  cases hr : r.result with
  | ok => rfl
  | error e =>
    rw [hr] at h
    split at h
    · cases h
    · split at h <;> cases h

/-- A call that returns has run one query. -/
theorem performed_of_execute {params : Params} {isLate : Bool} (hs : s.CachesSound)
    (hq : P.parse text = .ok q) (h : execute text params isLate s = .ok chunks s') :
    ∃ u, s'.performed = s.performed ++ [u] ∧
      if looksLikeTransactionStatement text then
        q.unionQueries.head?.map (fun v => .last v.statement) = u
      else ∃ source, ((s.planFor text).map (·.source)).or q.unionQueries.head? = some source ∧
        carriedOut source true = u := by
  rw [execute] at h
  split at h
  next hlooks =>
    obtain ⟨u, hu, hperformed⟩ := performed_of_transaction hq h
    exact ⟨_, hperformed, by rw [if_pos hlooks, hu]; rfl⟩
  next hlooks =>
    obtain ⟨explicitTx, s₁, hexplicit, h₁⟩ := bind_eq_ok.1 h
    have hs₁ : s₁ = s := by
      rw [explicitTransaction] at hexplicit
      split at hexplicit <;> cases hexplicit
      rfl
    rw [hs₁] at h₁
    obtain ⟨⟨planned, tx⟩, s₂, hbuild, h₂⟩ := bind_eq_ok.1 h₁
    obtain ⟨r, s₃, hprocess, h₃⟩ := bind_eq_ok.1 h₂
    obtain ⟨s₄, s₅, hget, h₄⟩ := bind_eq_ok.1 h₃
    cases hget
    refine ⟨carriedOut planned.source r.result.isOk, ?_, ?_⟩
    · rw [((keeps_endStatement _ _ _).of_eq_ok h₄).1]
      cases hprocess
      rw [((keeps_buildPhysicalPlan _ _ _).of_eq_ok hbuild).1]
    · rw [if_neg hlooks, isOk_of_endStatement _ h₄]
      exact ⟨planned.source, source_of_buildPhysicalPlan hs hq hbuild, rfl⟩

def Sound (s s' : Session P) : Prop := s.CachesSound → s'.CachesSound

instance : IsPreorder (Session P) Sound where
  refl _ := id
  trans _ _ _ h h' := h' ∘ h

lemma keeps_sound {x : SessionM P α} (h : Keeps SameBooks x) : Keeps Sound x :=
  fun s => (h s).2

lemma keeps_process (planned : Planned P) (params : Params) (tx : TxState Schema) :
    Keeps Sound (process planned params tx) := by
  intro s h shard e he
  simp only [process] at he
  split at he
  · exact h shard e he
  · cases he

lemma keeps_executeTransactionStatement (text : List Char) :
    Keeps Sound (executeTransactionStatement text : SessionM P _) := by
  refine (keeps_liftExcept _).bind fun q => ?_
  split
  · exact (keeps_sound (keeps_carryOut _)).bind fun _ => Keeps.bind (fun _ h => h) fun _ => .pure _
  · exact .throw _

lemma CachesSound.call (hs : s.CachesSound) (c : Call) : (s.call c).CachesSound := by
  have hbuild := fun text snapshotTs explicitTx =>
    keeps_sound (keeps_buildPhysicalPlan (P := P) text snapshotTs explicitTx)
  cases c with
  | execute text params isLate =>
    refine (?_ : Keeps Sound (Session.execute text params isLate)) s hs
    rw [Session.execute]
    split
    · exact keeps_executeTransactionStatement text
    · have hexplicit : Keeps Sound (explicitTransaction : SessionM P _) := by
        intro s
        rw [explicitTransaction]
        split <;> exact id
      exact hexplicit.bind fun explicitTx => (hbuild _ _ _).bind fun x =>
        (keeps_process _ _ _).bind fun r => Keeps.get.bind fun s => keeps_sound (keeps_endStatement _ _ r)
  | executeAt text snapshotTs params =>
    refine (?_ : Keeps Sound (Session.executeAt text snapshotTs params)) s hs
    have hrefuse : Keeps Sound (refuseExplicit : SessionM P _) := by
      intro s
      rw [refuseExplicit]
      split <;> exact id
    exact hrefuse.bind fun _ => (hbuild _ _ _).bind fun x =>
      (keeps_process _ _ _).bind fun r => keeps_sound (keeps_endSnapshot r)
  | executeStream text params =>
    refine (?_ : Keeps Sound (Session.executeStream text params)) s hs
    rw [Session.executeStream]
    split
    · exact keeps_executeTransactionStatement text
    · exact (hbuild _ _ _).bind fun x => (keeps_process _ _ _).bind fun r =>
        (Keeps.modify fun s => (sameBooks_release false r.tx r.store s).2).bind fun _ =>
          keeps_liftExcept _

lemma cachesSound_of_reachable (hs : (sessionSystem P).Reachable s) : s.CachesSound := by
  refine hs.invariant ?_ ?_
  · intro s hinit shard e he
    rw [hinit shard] at he
    cases he
  · intro s c s' _ h _ hstep
    cases hstep
    exact h.call c

/-! ## All statements of a text -/

/-- A text of one statement: without UNION, if it is routed as transaction control; without transaction
control otherwise, and the one that a cached plan was made from, if there is a plan under the hash of
the text. -/
def SingleStatement (s : Session P) (text : List Char) (q : Query (Statement P.Stmt)) : Prop :=
  ∃ u, q.unionQueries = [u] ∧
    if looksLikeTransactionStatement text then u.hasNext = false
    else u.all Statement.isOther = true ∧ ∀ planned, s.planFor text = some planned → planned.source = u

/-- Every statement is parsed, and gets the given plan. -/
def constantPlanner (isReadOnly : Bool) (op : Op Unit) : Planner Unit where
  Stmt := Unit
  Bound := Unit
  Scope := Unit
  Logical := Unit
  ast := ⟨200, fun _ => "", fun _ => .ok ()⟩
  isReadOnly _ := isReadOnly
  validate _ := .ok ()
  hash _ := 0
  newScope := ()
  bind _ _ _ := .ok ((), ())
  outputColumns _ := []
  takeTail _ := (none, none, ())
  isQuery _ := true
  plan _ := .ok ()
  optimize _ _ plan := .ok plan
  physical _ _ _ := .ok ⟨fun _ => op, false⟩

/-- An empty database with one column in every table. -/
def emptyStore : Store Unit where
  tm := .new
  rows _ := .new
  pages _ := .null
  versions _ := []
  buffers _ := []
  mutated := []
  shared :=
    { nextRowId := fun _ => 0
      numRows := fun _ => 0
      cardinality := fun _ => 0
      csr := fun _ => none
      compressed := []
      columns := fun _ => ["_id"]
      schema := () }
  invalidations := 0

def connect {Schema : Type} (P : Planner Schema) (store : Store Schema) : Session P where
  store := store
  transaction := none
  skipAuthCheck := false
  queryTimeoutMs := 0
  planCaches _ := ⟨[]⟩
  physicalPlanCaches _ := ⟨[]⟩
  performed := []

/-- A table of nodes without properties. -/
def nodeTable : Table where
  id := 0
  name := "T"
  columns := ["_id"]
  isRel := false
  primaryKey := none
  hasFts := false
  vector := none

lemma parse_constantPlanner {isReadOnly : Bool} {op : Op Unit}
    {q : Query (Statement Unit)} (hcall : NoCall (trim (scan (.text false) text)))
    (h : (match Peg.run cypher 200 false (.rule .query) (trim (scan (.text false) text)) with
      | some (some (_, [.node _ _ children])) =>
        parseQuery ⟨200, fun _ => "", fun _ => .ok ()⟩ children
      | _ => .error "") = .ok q) : (constantPlanner isReadOnly op).parse text = .ok q := by
  rw [Planner.parse, parse, preprocess_eq, normalizeQuery, normalizeLoop_eq_scan,
    distinct_eq_self hcall]
  dsimp only [constantPlanner]
  split at h
  next hrun =>
    rw [hrun]
    dsimp only
    rw [h]
    rfl
  · cases h

/-- The planner of `CREATE (:T)`. -/
def createPlanner : Planner Unit := constantPlanner false (Op.physicalCreate nodeTable [] none)

def twoCreates : List Char := "CREATE (:T); CREATE (:T)".toList

lemma parse_twoCreates :
    createPlanner.parse twoCreates = .ok ⟨[.last (.other ()), .last (.other ())], false, false⟩ :=
  parse_constantPlanner (by decide +kernel) (by decide +kernel)

def commentedBegin : List Char := "/* c */ BEGIN".toList

def beginPlanner : Planner Unit := constantPlanner false (Op.physicalTransaction .begin)

lemma parse_commentedBegin :
    beginPlanner.parse commentedBegin = .ok ⟨[.last (.transaction .begin)], false, false⟩ :=
  parse_constantPlanner (by decide +kernel) (by decide +kernel)

end Session

end LightningDB
