import Mathlib.Data.List.AList
import Mathlib.Data.List.Induction
import Mathlib.Data.Rat.Floor

/-!
# WITH

A WITH clause is bound to a new scope: its aliases, and the nodes that it names.  Its plan is a filter for
its WHERE, a sort, the projection to its items, SKIP and LIMIT.  The filter stands below the projection, so
that WHERE, though bound to the names that come out, reads the columns that go in.

An expression is a tree over the names that it reads, with arbitrary functions at its nodes; types, and with
them the fields of an UNWIND variable, are left out.  `with_rows_iff` says which names a WHERE may read for
the clause to pass on the projections that satisfy it.
-/

namespace LightningDB.With

open List

variable {V : Type}

/-- `Expression` and `BoundExpression`: literals, what is read, and functions, which have a name, and
operators, which have none. -/
inductive Expression (R V : Type) where
  | literal (value : V)
  | read (ref : R)
  | unary (name : Option String) (f : V → Except String V) (arg : Expression R V)
  | binary (name : Option String) (f : V → V → Except String V) (left right : Expression R V)

/-- What an expression of a statement reads: `Variable` or `PropertyLookup`. -/
inductive Name where
  | var (name : String)
  | propertyLookup (var prop : String)

/-- What a bound expression reads: a column by its name, or a property by its number. -/
inductive Reference where
  | var (name : String)
  | propertyLookup (var : String) (idx : ℕ)

def Name.text : Name → String
  | .var name => name
  | .propertyLookup node prop => node ++ "." ++ prop

namespace Expression

variable {R S : Type}

/-- What is read. -/
def refs : Expression R V → List R
  | .literal _ => []
  | .read ref => [ref]
  | .unary _ _ arg => arg.refs
  | .binary _ _ left right => left.refs ++ right.refs

/-- The expression with what it reads replaced. -/
def traverse (f : R → Except String S) : Expression R V → Except String (Expression S V)
  | .literal value => .ok (.literal value)
  | .read ref => (f ref).map .read
  | .unary name g arg => (arg.traverse f).map (.unary name g)
  | .binary name g left right => (left.traverse f).bind fun left =>
    (right.traverse f).map (.binary name g left)

/-- `ExpressionEvaluator::evaluate`, for one row. -/
def evaluate (find : R → Except String V) : Expression R V → Except String V
  | .literal value => .ok value
  | .read ref => find ref
  | .unary _ f arg => (arg.evaluate find).bind f
  | .binary _ f left right => (left.evaluate find).bind fun x => (right.evaluate find).bind (f x)

def defaultAlias : Expression Name V → String
  | .read name => name.text
  | .unary (some name) _ _ => name ++ "(...)"
  | .binary (some name) _ _ _ => name ++ "(...)"
  | _ => "result"

/-- The variable that an expression consists of. -/
def bare? : Expression Name V → Option String
  | .read (.var name) => some name
  | _ => none

end Expression

/-- `ProjectionItem`. -/
inductive ProjectionItem (V : Type) where
  | star
  | expression (expr : Expression Name V) (itemAlias : Option String)

/-- The variable that an item consists of. -/
def ProjectionItem.bare? : ProjectionItem V → Option String
  | .star => none
  | .expression expr _ => expr.bare?

/-- `BoundProjectionItem`. -/
structure BoundProjectionItem (V : Type) where
  expression : Expression Reference V
  itemAlias : String

/-- `BoundOrderByItem`. -/
structure BoundOrderByItem (V : Type) where
  expression : Expression Reference V
  descending : Bool

/-- `BoundReturnClause`.  The grammar has no DISTINCT in a WITH clause. -/
structure BoundReturnClause (V : Type) where
  items : List (BoundProjectionItem V)
  orderBy : Option (List (BoundOrderByItem V)) := none
  skip : Option ℚ := none
  limit : Option ℚ := none

/-! ## Binding -/

/-- The variables in scope, with their tables; the table of what is no node or relationship is empty. -/
abbrev Variables := AList fun _ : String => String

/-- `HashMap::entry` and `or_insert`. -/
def Variables.orInsert (vars : Variables) (var table : String) : Variables :=
  if vars.lookup var = none then vars.insert var table else vars

/-- The properties of the catalog's tables. -/
structure Catalog where
  properties : String → Option (List String)
  nodup : ∀ table props, properties table = some props → props.Nodup
  unnamed : properties "" = none

/-- `Binder`. -/
structure Binder where
  catalog : Catalog
  vars : Variables
  columnOffsets : String → ℕ

namespace Binder

variable (b : Binder)

/-- `get_table_properties`, without the offset. -/
def getTableProperties (var : String) : Except String (List String) :=
  match b.vars.lookup var with
  | none => .error s!"Variable {var} not found"
  | some table => (b.catalog.properties table).elim (.error s!"Table {table} not found for variable {var}") .ok

/-- `bind_expression` for what an expression reads. -/
def bindName : Name → Except String Reference
  | .var name => (b.vars.lookup name).elim (.error s!"Variable {name} not found")
    fun _ => .ok (.var name)
  | .propertyLookup var prop => (b.getTableProperties var).bind fun properties =>
    (properties.findIdx? (· == prop)).elim (.error s!"Property {prop} not found on variable {var}")
      fun i => .ok (.propertyLookup var (b.columnOffsets var + i))

/-- The properties of a node or relationship, which stand for it in a list of items. -/
def properties? (var : String) : Option (List String) := (b.vars.lookup var).bind b.catalog.properties

/-- The items that a node or relationship is expanded to.  Their numbers are without the offset of the
variable. -/
def expandVariable (var : String) (itemAlias : String → String) (properties : List String) :
    List (BoundProjectionItem V) :=
  properties.zipIdx.map fun (prop, i) => ⟨.read (.propertyLookup var i), itemAlias prop⟩

/-- The variables in the order of their names. -/
def sortedVars : List String := b.vars.keys.mergeSort fun x y => decide (x ≤ y)

/-- The items of `bind_return_clause`, with variables expanded. -/
def bindItem : ProjectionItem V → Except String (List (BoundProjectionItem V))
  | .star => .ok (b.sortedVars.flatMap fun var =>
    (b.properties? var).elim [] (expandVariable var id))
  | .expression expr itemAlias =>
    match expr.bare?.bind fun var => (b.properties? var).map (var, ·) with
    | some (var, properties) =>
      .ok (expandVariable var (fun prop => itemAlias.getD (var ++ "." ++ prop)) properties)
    | none => (expr.traverse b.bindName).map fun bound => [⟨bound, itemAlias.getD expr.defaultAlias⟩]

/-- The variables after `bind_return_clause`, which adds the aliases. -/
def registered (bound : List (BoundProjectionItem V)) : Variables :=
  bound.foldl (fun vars item =>
    if item.itemAlias = "" then vars else vars.orInsert item.itemAlias "") b.vars

def namedVariables (original : Variables) (items : List (ProjectionItem V)) : Variables :=
  (items.filterMap (·.bare?)).foldl (fun vars var => (original.lookup var).elim vars (vars.insert var)) ∅

def tableName (original : Variables) : Expression Reference V → String
  | .read (.var name) => (original.lookup name).getD ""
  | _ => ""

/-- The scope after the clause. -/
def rescope (original vars : Variables) (bound : List (BoundProjectionItem V)) : Variables :=
  bound.foldl (fun vars item => vars.orInsert item.itemAlias (tableName original item.expression)) vars

def scopeAfter (items : List (ProjectionItem V)) (bound : List (BoundProjectionItem V)) : Binder :=
  let original := b.registered bound
  { b with vars := rescope original (namedVariables original items) bound }

def bindWhere (w : Option (Expression Name V)) : Except String (Option (Expression Reference V)) :=
  w.elim (.ok none) fun expr => (expr.traverse b.bindName).map some

/-- `Binder::bind` of a WITH clause, with the binder for what follows. -/
def bindWith (items : List (ProjectionItem V)) (w : Option (Expression Name V)) :
    Except String (BoundReturnClause V × Option (Expression Reference V) × Binder) :=
  (items.mapM b.bindItem).bind fun bound =>
    let b' := b.scopeAfter items bound.flatten
    (b'.bindWhere w).map fun w => ({ items := bound.flatten }, w, b')

end Binder

/-! ## The plan -/

/-- `LogicalOperator`, as far as a WITH clause makes plans. -/
inductive LogicalOperator (V : Type) where
  | input
  | filter (child : LogicalOperator V) (expr : Expression Reference V)
  | sort (child : LogicalOperator V) (items : List (BoundOrderByItem V))
  | projection (child : LogicalOperator V) (items : List (BoundProjectionItem V))
  | skip (child : LogicalOperator V) (count : ℕ)
  | limit (child : LogicalOperator V) (count : ℕ)

/-- The plan of `BoundClause::With`. -/
def planWith (plan : LogicalOperator V) (ret : BoundReturnClause V)
    (w : Option (Expression Reference V)) : LogicalOperator V :=
  let plan := w.elim plan plan.filter
  let plan := ret.orderBy.elim plan plan.sort
  let plan := plan.projection ret.items
  let plan := ret.skip.elim plan fun skip => plan.skip ⌊skip⌋.toNat
  ret.limit.elim plan fun limit => plan.limit ⌊limit⌋.toNat

/-- The rows that an operator hands out. -/
structure Batch (V : Type) where
  columns : List String
  rows : List (List V)

/-- The binder's offsets and the positions that the physical planner computes for the variables of the
plan below.  A projection leaves them as they are. -/
structure Layout where
  binderColumnOffsets : String → ℕ
  childPhysPositions : String → Option ℕ

/-- Where a variable begins. -/
def Layout.physBase (l : Layout) (var : String) : ℕ :=
  (l.childPhysPositions var).getD (l.binderColumnOffsets var)

/-- `remap_property_lookup`, where no columns are left out of the scans. -/
def Layout.remap (l : Layout) (var : String) (idx : ℕ) : ℕ :=
  l.physBase var +
    if l.binderColumnOffsets var ≤ idx then idx - l.binderColumnOffsets var else idx

def columnAt (row : List V) (pos : ℕ) : Except String V :=
  (row[pos]?).elim (.error "index out of bounds") .ok

def columnNamed (columns : List String) (row : List V) (name : String) : Except String V :=
  ((columns.zip row).lookup name).elim (.error s!"Variable '{name}' not found in batch") .ok

def Layout.find (l : Layout) (columns : List String) (row : List V) : Reference → Except String V
  | .var name => columnNamed columns row name
  | .propertyLookup var idx => columnAt row (l.remap var idx)

def filterRows (mask : List V → Except String Bool) : List (List V) → Except String (List (List V))
  | [] => .ok []
  | row :: rows => (mask row).bind fun keep => (filterRows mask rows).map (if keep then (row :: ·) else id)

def keysLe (compare : V → V → Ordering) : List (BoundOrderByItem V) → List V → List V → Bool
  | item :: items, x :: xs, y :: ys =>
    match if item.descending then compare y x else compare x y with
    | .lt => true
    | .gt => false
    | .eq => keysLe compare items xs ys
  | _, _, _ => true

def project (l : Layout) (items : List (BoundProjectionItem V)) (columns : List String) (row : List V) :
    Except String (List V) :=
  items.mapM fun item => item.expression.evaluate (l.find columns row)

/-- How values are compared, and which are true. -/
structure Values (V : Type) where
  compare : V → V → Ordering
  isTrue : V → Bool
  truth : V
  isTrue_truth : isTrue truth = true

/-- Whether an expression is true. -/
def Values.mask {R : Type} (vals : Values V) (expr : Expression R V) (find : R → Except String V) :
    Except String Bool :=
  (expr.evaluate find).map vals.isTrue

def LogicalOperator.execute (vals : Values V) (l : Layout) (b : Batch V) :
    LogicalOperator V → Except String (Batch V)
  | .input => .ok b
  | .filter child expr => (child.execute vals l b).bind fun b =>
    (filterRows (fun row => vals.mask expr (l.find b.columns row)) b.rows).map (⟨b.columns, ·⟩)
  | .sort child items => (child.execute vals l b).bind fun b =>
    (b.rows.mapM fun row => items.mapM fun item : BoundOrderByItem V =>
        item.expression.evaluate (l.find b.columns row)).map fun keys =>
      ⟨b.columns, ((b.rows.zip keys).mergeSort fun x y => keysLe vals.compare items x.2 y.2).map (·.1)⟩
  | .projection child items => (child.execute vals l b).bind fun b =>
    (b.rows.mapM (project l items b.columns)).map (⟨items.map (·.itemAlias), ·⟩)
  | .skip child count => (child.execute vals l b).map fun b => ⟨b.columns, b.rows.drop count⟩
  | .limit child count => (child.execute vals l b).map fun b => ⟨b.columns, b.rows.take count⟩

/-- A WITH clause, with the binder for what follows. -/
def runWith (vals : Values V) (b : Binder) (positions : String → Option ℕ)
    (items : List (ProjectionItem V)) (w : Option (Expression Name V)) (input : Batch V) :
    Except String (Batch V × Binder) :=
  (b.bindWith items w).bind fun (ret, w, b') =>
    ((planWith .input ret w).execute vals ⟨b.columnOffsets, positions⟩ input).map (·, b')

/-! ## What should be passed on -/

section Specification

variable (b : Binder) (start : String → ℕ) (columns : List String)

/-- What a name means in a row that goes in, in which the columns of a variable begin at `start`. -/
def inputValue (row : List V) : Name → Except String V
  | .var name => columnNamed columns row name
  | .propertyLookup var prop => (b.getTableProperties var).bind fun properties =>
    (properties.findIdx? (· == prop)).elim (.error s!"Property {prop} not found on variable {var}")
      fun i => columnAt row (start var + i)

def itemColumns : ProjectionItem V → List (Expression Name V × String)
  | .star => b.sortedVars.flatMap fun var =>
    (b.properties? var).elim [] (map fun prop => (.read (.propertyLookup var prop), prop))
  | .expression expr itemAlias =>
    match expr.bare?.bind fun var => (b.properties? var).map (var, ·) with
    | some (var, properties) => properties.map fun prop =>
      (.read (.propertyLookup var prop), itemAlias.getD (var ++ "." ++ prop))
    | none => [(expr, itemAlias.getD expr.defaultAlias)]

variable (items : List (ProjectionItem V)) (w : Option (Expression Name V))

def itemNames : List String := (items.flatMap (itemColumns b)).map (·.2)

def projectedRow (row : List V) : Except String (List V) :=
  (items.flatMap (itemColumns b)).mapM fun c => c.1.evaluate (inputValue b start columns row)

/-- What a name means in a row that comes out. -/
def outputValue (projected : List V) (n : Name) : Except String V :=
  columnNamed (itemNames b items) projected n.text

/-- Whether WHERE is true; it is if there is none. -/
def whereValue {R : Type} (vals : Values V) (w : Option (Expression R V)) (find : R → Except String V) :
    Except String Bool :=
  w.elim (.ok true) fun expr => vals.mask expr find

/-- The projections that are to be passed on. -/
def passingRows (vals : Values V) : List (List V) → Except String (List (List V))
  | [] => .ok []
  | row :: rows => (projectedRow b start columns items row).bind fun projected =>
    (whereValue vals w (outputValue b items projected)).bind fun keep =>
      (passingRows vals rows).map (if keep then (projected :: ·) else id)

/-- What the clause is to pass on. -/
def passedOn (vals : Values V) (rows : List (List V)) : Except String (Batch V) :=
  (passingRows b start columns items w vals rows).map (⟨itemNames b items, ·⟩)

def Named (var : String) : Prop := ∃ item ∈ items, item.bare? = some var

/-- The name can be used after the clause. -/
def InScope : Name → Prop
  | .var name => name ∈ itemNames b items ∨ Named items name
  | .propertyLookup var prop => Named items var ∧ ∃ properties, b.properties? var = some properties ∧
    prop ∈ properties

/-- The name can be used after the clause, and what goes out under it is what came in under it. -/
def KeepsMeaning (n : Name) : Prop :=
  InScope b items n ∧ ∀ row : List V, row.length = columns.length → ∀ projected,
    projectedRow b start columns items row = .ok projected →
      ∀ x, outputValue b items projected n = .ok x → inputValue b start columns row n = .ok x

/-- The planner has the positions of the nodes and relationships in scope.  After a WITH clause it has those
of the plan below. -/
def Located (positions : String → Option ℕ) : Prop := ∀ var properties,
  b.properties? var = some properties → Layout.physBase ⟨b.columnOffsets, positions⟩ var = start var

/-- The nodes and relationships that the clause expands come first, or after more columns than they have
themselves. -/
def Expands : Prop := ∀ var properties, b.properties? var = some properties →
  .star ∈ items ∨ Named items var → b.columnOffsets var = 0 ∨ properties.length ≤ b.columnOffsets var

end Specification

/-! ## Results and lists of results -/

section Results

variable {α β : Type} {x : Except String α} {b : β}

lemma map_eq_ok {f : α → β} : x.map f = .ok b ↔ ∃ a, x = .ok a ∧ f a = b := by
  cases x <;> simp [Except.map]

lemma bind_eq_ok {f : α → Except String β} : x.bind f = .ok b ↔ ∃ a, x = .ok a ∧ f a = .ok b := by
  cases x <;> simp [Except.bind]

lemma elim_eq_ok {o : Option α} {e : String} {f : α → Except String β} :
    o.elim (.error e) f = .ok b ↔ ∃ a, o = some a ∧ f a = .ok b := by
  cases o <;> simp

lemma mapM_eq_ok {f : α → Except String β} {xs : List α} {ys : List β} :
    xs.mapM f = .ok ys ↔ Forall₂ (fun x y => f x = .ok y) xs ys := by
  induction xs generalizing ys with
  | nil =>
    rw [mapM_nil, forall₂_nil_left_iff]
    exact ⟨fun h => (Except.ok.inj h).symm, fun h => h ▸ rfl⟩
  | cons x xs ih =>
    rw [mapM_cons, forall₂_cons_left_iff]
    change (f x).bind (fun y => (xs.mapM f).bind fun ys => .ok (y :: ys)) = _ ↔ _
    simp only [bind_eq_ok, ih, Except.ok.injEq]
    exact ⟨fun ⟨y, hy, ys', hys, h⟩ => ⟨y, ys', hy, hys, h.symm⟩,
      fun ⟨y, ys', hy, hys, h⟩ => ⟨y, hy, ys', hys, h.symm⟩⟩

lemma exists_of_mapM {f : α → Except String β} {xs : List α} {ys : List β} (h : xs.mapM f = .ok ys) :
    (∀ x ∈ xs, ∃ y, f x = .ok y) ∧ ∀ y ∈ ys, ∃ x ∈ xs, f x = .ok y := by
  rw [mapM_eq_ok] at h
  induction h with
  | nil => simp
  | cons hx _ ih =>
    rw [forall_mem_cons, forall_mem_cons]
    refine ⟨⟨⟨_, hx⟩, ih.1⟩, ⟨_, mem_cons_self, hx⟩, fun y hy => ?_⟩
    obtain ⟨x, hmem, hx⟩ := ih.2 y hy
    exact ⟨x, mem_cons_of_mem _ hmem, hx⟩

end Results

namespace Expression

variable {R S : Type} {f : R → Except String S} {g : S → Except String V} {h : R → Except String V}

lemma exists_traverse {e : Expression R V} (hrefs : ∀ r ∈ e.refs, ∃ s, f r = .ok s) :
    ∃ e', e.traverse f = .ok e' := by
  induction e with
  | literal value => exact ⟨_, rfl⟩
  | read ref =>
    obtain ⟨s, hs⟩ := hrefs ref (mem_singleton.2 rfl)
    exact ⟨.read s, by rw [traverse, hs]; rfl⟩
  | unary name op arg ih =>
    obtain ⟨e', he'⟩ := ih hrefs
    exact ⟨.unary name op e', by rw [traverse, he']; rfl⟩
  | binary name op left right ihl ihr =>
    obtain ⟨l', hl'⟩ := ihl fun r hr => hrefs r (mem_append_left _ hr)
    obtain ⟨r', hr'⟩ := ihr fun r hr => hrefs r (mem_append_right _ hr)
    exact ⟨.binary name op l' r', by rw [traverse, hl', hr']; rfl⟩

/-- An expression keeps its value if what it reads does. -/
lemma evaluate_traverse {e : Expression R V} {e' : Expression S V} {y : V}
    (htraverse : e.traverse f = .ok e')
    (hrefs : ∀ r ∈ e.refs, ∀ s, f r = .ok s → ∀ x, h r = .ok x → g s = .ok x)
    (hy : e.evaluate h = .ok y) : e'.evaluate g = .ok y := by
  induction e generalizing e' y with
  | literal value =>
    cases htraverse
    exact hy
  | read ref =>
    obtain ⟨s, hs, rfl⟩ := map_eq_ok.1 htraverse
    exact hrefs ref (mem_singleton.2 rfl) s hs y hy
  | unary name op arg ih =>
    obtain ⟨arg', harg, rfl⟩ := map_eq_ok.1 htraverse
    obtain ⟨x, hx, hy⟩ := bind_eq_ok.1 hy
    exact bind_eq_ok.2 ⟨x, ih harg hrefs hx, hy⟩
  | binary name op left right ihl ihr =>
    obtain ⟨left', hleft, hrest⟩ := bind_eq_ok.1 htraverse
    obtain ⟨right', hright, rfl⟩ := map_eq_ok.1 hrest
    obtain ⟨x, hx, hy⟩ := bind_eq_ok.1 hy
    obtain ⟨z, hz, hy⟩ := bind_eq_ok.1 hy
    exact bind_eq_ok.2 ⟨x, ihl hleft (fun r hr => hrefs r (mem_append_left _ hr)) hx,
      bind_eq_ok.2 ⟨z, ihr hright (fun r hr => hrefs r (mem_append_right _ hr)) hz, hy⟩⟩

end Expression

/-! ## The new scope -/

section Scope

variable {b : Binder} {items : List (ProjectionItem V)} {bound : List (BoundProjectionItem V)}
  {original vars : Variables} {var table : String}

lemma lookup_orInsert (u : String) : (vars.orInsert var table).lookup u =
    (vars.lookup u).or (if u = var then some table else none) := by
  rw [Variables.orInsert]
  by_cases hu : u = var
  · subst hu
    split
    next hnew => rw [AList.lookup_insert, hnew, if_pos rfl, Option.none_or]
    next hold =>
      obtain ⟨t, ht⟩ := Option.ne_none_iff_exists'.1 hold
      rw [ht, Option.some_or]
  · rw [if_neg hu, Option.or_none]
    split
    next => rw [AList.lookup_insert_ne hu]
    next => rfl

lemma lookup_registered (h : b.vars.lookup var = some table) :
    (b.registered bound).lookup var = some table := by
  induction bound using List.reverseRecOn with
  | nil => exact h
  | append_singleton bound item ih =>
    rw [Binder.registered, foldl_append]
    change AList.lookup var (if item.itemAlias = "" then b.registered bound else
      (b.registered bound).orInsert item.itemAlias "") = some table
    split
    · exact ih
    · rw [lookup_orInsert, ih, Option.some_or]

lemma lookup_namedVariables : (Binder.namedVariables original items).lookup var = some table ↔
    Named items var ∧ original.lookup var = some table := by
  rw [show Named items var ↔ var ∈ items.filterMap (·.bare?) from mem_filterMap.symm,
    Binder.namedVariables]
  induction items.filterMap (·.bare?) using List.reverseRecOn with
  | nil => simp
  | append_singleton names u ih =>
    rw [foldl_append, mem_append, mem_singleton, foldl_cons, foldl_nil]
    by_cases hu : var = u
    · subst hu
      cases h : original.lookup var with
      | none => simp [ih, h]
      | some t => simp [AList.lookup_insert]
    · cases h : original.lookup u with
      | none => simp [ih, hu]
      | some t => simp [AList.lookup_insert_ne hu, ih, hu]

lemma lookup_rescope_of_some (h : vars.lookup var = some table) :
    (Binder.rescope original vars bound).lookup var = some table := by
  induction bound using List.reverseRecOn with
  | nil => exact h
  | append_singleton bound item ih =>
    rw [Binder.rescope, foldl_append]
    exact (lookup_orInsert var).trans (by rw [← Binder.rescope, ih, Option.some_or])

/-- What is not named comes into scope by an alias. -/
lemma lookup_rescope_of_none (h : vars.lookup var = none) :
    (var ∈ bound.map (·.itemAlias) → (Binder.rescope original vars bound).lookup var ≠ none) ∧
    ∀ table, (Binder.rescope original vars bound).lookup var = some table →
      ∃ item ∈ bound, item.itemAlias = var ∧ table = Binder.tableName original item.expression := by
  induction bound using List.reverseRecOn with
  | nil => exact ⟨fun hmem => absurd hmem not_mem_nil, fun table ht => by cases h.symm.trans ht⟩
  | append_singleton bound item ih =>
    have hlast : (Binder.rescope original vars (bound ++ [item])).lookup var =
        ((Binder.rescope original vars bound).lookup var).or
          (if var = item.itemAlias then some (Binder.tableName original item.expression) else none) := by
      rw [Binder.rescope, foldl_append]
      exact lookup_orInsert var
    rw [hlast]
    constructor
    · intro hmem
      rw [map_append, mem_append] at hmem
      rcases hmem with hmem | hmem
      · simp [ih.1 hmem]
      · simp [mem_singleton.1 hmem]
    · intro table ht
      rcases Option.or_eq_some_iff.1 ht with hold | ⟨-, hnew⟩
      · obtain ⟨item', hmem, h⟩ := ih.2 table hold
        exact ⟨item', mem_append_left _ hmem, h⟩
      · split at hnew
        next heq => exact ⟨item, mem_append_right _ (mem_singleton.2 rfl), heq.symm,
          (Option.some.inj hnew).symm⟩
        next => cases hnew

end Scope

/-! ## Binding -/

lemma getTableProperties_eq_ok {b : Binder} {var : String} {properties : List String} :
    b.getTableProperties var = .ok properties ↔ b.properties? var = some properties := by
  rw [Binder.getTableProperties, Binder.properties?]
  cases b.vars.lookup var with
  | none => simp
  | some table =>
    change (b.catalog.properties table).elim _ _ = _ ↔ b.catalog.properties table = _
    cases b.catalog.properties table <;> simp

lemma findIdx?_of_nodup {properties : List String} (hnodup : properties.Nodup) {i : ℕ}
    (hi : i < properties.length) : properties.findIdx? (· == properties[i]) = some i := by
  refine findIdx?_eq_some_iff_getElem.2 ⟨hi, beq_self_eq_true _, fun j hj => ?_⟩
  rw [beq_iff_eq, hnodup.getElem_inj_iff]
  exact hj.ne

section Binding

variable {b : Binder} {positions : String → Option ℕ} {start : String → ℕ} {columns : List String}
  {items : List (ProjectionItem V)} {n : Name} {r : Reference} {row : List V}

lemma find_of_bindName (hlocated : Located b start positions) (h : b.bindName n = .ok r) :
    Layout.find ⟨b.columnOffsets, positions⟩ columns row r = inputValue b start columns row n := by
  cases n with
  | var name =>
    obtain ⟨table, -, h⟩ := elim_eq_ok.1 h
    cases h
    rfl
  | propertyLookup var prop =>
    obtain ⟨properties, hproperties, h⟩ := bind_eq_ok.1 h
    obtain ⟨i, hi, h⟩ := elim_eq_ok.1 h
    cases h
    have hremap : Layout.remap ⟨b.columnOffsets, positions⟩ var (b.columnOffsets var + i) =
        start var + i := by
      rw [Layout.remap, hlocated var properties (getTableProperties_eq_ok.1 hproperties),
        if_pos (Nat.le_add_right _ _), Nat.add_sub_cancel_left]
    rw [Layout.find, hremap, inputValue, hproperties]
    change _ = (properties.findIdx? (· == prop)).elim _ _
    rw [hi]
    rfl

/-- A bound item has the name of a column, and its values. -/
def SameColumn (b : Binder) (positions : String → Option ℕ) (start : String → ℕ) (columns : List String)
    (c : Expression Name V × String) (item : BoundProjectionItem V) : Prop :=
  item.itemAlias = c.2 ∧ ∀ (row : List V) x, c.1.evaluate (inputValue b start columns row) = .ok x →
    item.expression.evaluate (Layout.find ⟨b.columnOffsets, positions⟩ columns row) = .ok x

lemma sameColumn_expandVariable (hlocated : Located b start positions) {var : String}
    {properties : List String} (hproperties : b.properties? var = some properties)
    (hexpands : b.columnOffsets var = 0 ∨ properties.length ≤ b.columnOffsets var)
    (itemAlias : String → String) :
    Forall₂ (SameColumn (V := V) b positions start columns)
      (properties.map fun prop => (.read (.propertyLookup var prop), itemAlias prop))
      (Binder.expandVariable var itemAlias properties) := by
  have hnodup : properties.Nodup := by
    obtain ⟨table, -, htable⟩ := Option.bind_eq_some_iff.1 hproperties
    exact b.catalog.nodup table properties htable
  rw [Binder.expandVariable, forall₂_iff_get]
  refine ⟨by simp, fun i hi hi' => ?_⟩
  rw [length_map] at hi
  simp only [get_eq_getElem, getElem_map, getElem_zipIdx, Nat.zero_add]
  refine ⟨rfl, fun row x hx => ?_⟩
  have hremap : Layout.remap ⟨b.columnOffsets, positions⟩ var i = start var + i := by
    rw [Layout.remap, hlocated var properties hproperties]
    dsimp only
    split <;> omega
  rw [Expression.evaluate, inputValue, getTableProperties_eq_ok.2 hproperties] at hx
  change (properties.findIdx? (· == properties[i])).elim _ _ = _ at hx
  rw [findIdx?_of_nodup hnodup hi] at hx
  rw [Expression.evaluate, Layout.find, hremap]
  exact hx

lemma sameColumn_bindItem (hlocated : Located b start positions) (hexpands : Expands b items)
    {item : ProjectionItem V} (hitem : item ∈ items) {bound : List (BoundProjectionItem V)}
    (hbound : b.bindItem item = .ok bound) :
    Forall₂ (SameColumn b positions start columns) (itemColumns b item) bound := by
  cases item with
  | star =>
    cases hbound
    refine rel_flatMap (R := Eq) (forall₂_eq_eq_eq ▸ rfl) ?_
    rintro var _ rfl
    dsimp only
    cases hproperties : b.properties? var with
    | none => exact .nil
    | some properties =>
      exact sameColumn_expandVariable hlocated hproperties (hexpands var properties hproperties (.inl hitem)) id
  | expression expr itemAlias =>
    rw [Binder.bindItem] at hbound
    rw [itemColumns]
    split at hbound
    next var properties hbare =>
      cases hbound
      obtain ⟨var', hvar, h⟩ := Option.bind_eq_some_iff.1 hbare
      obtain ⟨properties', hproperties, h⟩ := Option.map_eq_some_iff.1 h
      cases h
      exact sameColumn_expandVariable hlocated hproperties
        (hexpands var properties hproperties (.inr ⟨_, hitem, hvar⟩)) _
    next hbare =>
      obtain ⟨expr', hexpr, rfl⟩ := map_eq_ok.1 hbound
      refine .cons ⟨rfl, fun row x hx => ?_⟩ .nil
      exact Expression.evaluate_traverse hexpr
        (fun n _ r hr x hx => (find_of_bindName hlocated hr).trans hx) hx

variable {bounds : List (List (BoundProjectionItem V))}

lemma sameColumn_bound (hlocated : Located b start positions) (hexpands : Expands b items)
    (hbounds : items.mapM b.bindItem = .ok bounds) :
    Forall₂ (SameColumn b positions start columns) (items.flatMap (itemColumns b)) bounds.flatten := by
  rw [mapM_eq_ok] at hbounds
  rw [flatMap_def]
  refine rel_flatten (forall₂_map_left_iff.2 ?_)
  exact ((forall₂_and_left _ _).2 ⟨fun _ h => h, hbounds⟩).imp fun item bound ⟨hitem, hbound⟩ =>
    sameColumn_bindItem hlocated hexpands hitem hbound

lemma bare?_eq_some {item : ProjectionItem V} {var : String} :
    item.bare? = some var ↔ ∃ itemAlias, item = .expression (.read (.var var)) itemAlias := by
  rcases item with _ | ⟨_ | ⟨_ | _⟩ | _ | _, itemAlias⟩ <;>
    simp [ProjectionItem.bare?, Expression.bare?]

lemma lookup_of_named (hbounds : items.mapM b.bindItem = .ok bounds) {var : String}
    (h : Named items var) : ∃ table, b.vars.lookup var = some table := by
  obtain ⟨item, hitem, hbare⟩ := h
  obtain ⟨bound, hbound⟩ := (exists_of_mapM hbounds).1 item hitem
  obtain ⟨itemAlias, rfl⟩ := bare?_eq_some.1 hbare
  cases hlookup : b.vars.lookup var with
  | some table => exact ⟨table, rfl⟩
  | none =>
    have hproperties : b.properties? var = none := by
      rw [Binder.properties?, hlookup, Option.bind_none]
    rw [Binder.bindItem] at hbound
    simp only [Expression.bare?, Option.bind_some, hproperties, Option.map_none] at hbound
    obtain ⟨expr, hexpr, -⟩ := map_eq_ok.1 hbound
    obtain ⟨r, hr, -⟩ := map_eq_ok.1 hexpr
    rw [Binder.bindName, hlookup] at hr
    cases hr

lemma lookup_of_bound (hbounds : items.mapM b.bindItem = .ok bounds) {var itemAlias : String}
    (h : ⟨.read (.var var), itemAlias⟩ ∈ bounds.flatten) :
    ∃ table, b.vars.lookup var = some table ∧ b.catalog.properties table = none := by
  obtain ⟨bound, hmem, hc⟩ := mem_flatten.1 h
  obtain ⟨item, hitem, hbound⟩ := (exists_of_mapM hbounds).2 bound hmem
  have hexpand : ∀ (u : String) (f : String → String) properties,
      (⟨.read (.var var), itemAlias⟩ : BoundProjectionItem V) ∉ Binder.expandVariable u f properties := by
    simp [Binder.expandVariable]
  cases item with
  | star =>
    cases hbound
    obtain ⟨u, -, hc⟩ := mem_flatMap.1 hc
    cases hproperties : b.properties? u with
    | none => simp [hproperties] at hc
    | some properties => exact absurd (by simpa [hproperties] using hc) (hexpand u id properties)
  | expression expr a =>
    rw [Binder.bindItem] at hbound
    split at hbound
    next => cases hbound; exact absurd hc (hexpand _ _ _)
    next hbare =>
      obtain ⟨expr', hexpr, rfl⟩ := map_eq_ok.1 hbound
      cases mem_singleton.1 hc
      -- only the variable itself is bound as a variable
      obtain ⟨n, rfl⟩ : ∃ n, expr = .read n := by
        cases expr with
        | read n => exact ⟨n, rfl⟩
        | literal value => cases hexpr
        | unary name f arg =>
          obtain ⟨_, _, h⟩ := map_eq_ok.1 hexpr
          cases h
        | binary name f left right =>
          obtain ⟨_, _, h⟩ := bind_eq_ok.1 hexpr
          obtain ⟨_, _, h⟩ := map_eq_ok.1 h
          cases h
      obtain ⟨r, hr, h⟩ := map_eq_ok.1 hexpr
      cases h
      cases n with
      | propertyLookup u prop =>
        obtain ⟨_, _, h⟩ := bind_eq_ok.1 hr
        obtain ⟨_, _, h⟩ := elim_eq_ok.1 h
        cases h
      | var u =>
        obtain ⟨table, htable, h⟩ := elim_eq_ok.1 hr
        cases h
        refine ⟨table, htable, ?_⟩
        simpa [Expression.bare?, Binder.properties?, htable] using hbare

lemma lookup_scopeAfter_of_named (hbounds : items.mapM b.bindItem = .ok bounds) {var : String}
    (h : Named items var) :
    (b.scopeAfter items bounds.flatten).vars.lookup var = b.vars.lookup var := by
  obtain ⟨table, htable⟩ := lookup_of_named hbounds h
  rw [htable]
  exact lookup_rescope_of_some (lookup_namedVariables.2 ⟨h, lookup_registered htable⟩)

lemma lookup_scopeAfter_of_not_named (hbounds : items.mapM b.bindItem = .ok bounds) {var : String}
    (h : ¬ Named items var) :
    (var ∈ bounds.flatten.map (·.itemAlias) →
      (b.scopeAfter items bounds.flatten).vars.lookup var ≠ none) ∧
    ∀ table, (b.scopeAfter items bounds.flatten).vars.lookup var = some table →
      var ∈ bounds.flatten.map (·.itemAlias) ∧ b.catalog.properties table = none := by
  have hnone : (Binder.namedVariables (b.registered bounds.flatten) items).lookup var = none := by
    rw [Option.eq_none_iff_forall_ne_some]
    exact fun table htable => h (lookup_namedVariables.1 htable).1
  refine ⟨(lookup_rescope_of_none hnone).1, fun table htable => ?_⟩
  obtain ⟨⟨expr, itemAlias⟩, hmem, rfl, rfl⟩ := (lookup_rescope_of_none hnone).2 table htable
  refine ⟨mem_map_of_mem hmem, ?_⟩
  rcases expr with _ | ⟨u | _⟩ | _ | _
  case read.var =>
    obtain ⟨table, htable, hnone⟩ := lookup_of_bound hbounds hmem
    rw [Binder.tableName, lookup_registered htable]
    exact hnone
  all_goals exact b.catalog.unnamed

/-- After the clause the nodes and relationships that are items have their properties, and nothing else
has any. -/
lemma properties?_scopeAfter (hbounds : items.mapM b.bindItem = .ok bounds) {var : String}
    {properties : List String} :
    (b.scopeAfter items bounds.flatten).properties? var = some properties ↔
      Named items var ∧ b.properties? var = some properties := by
  by_cases h : Named items var
  · rw [Binder.properties?, lookup_scopeAfter_of_named hbounds h]
    exact (and_iff_right h).symm
  · refine ⟨fun hproperties => ?_, fun h' => absurd h'.1 h⟩
    obtain ⟨table, htable, hcatalog⟩ := Option.bind_eq_some_iff.1 hproperties
    cases hcatalog.symm.trans ((lookup_scopeAfter_of_not_named hbounds h).2 table htable).2

lemma exists_bindName_iff (hbounds : items.mapM b.bindItem = .ok bounds)
    (hnames : bounds.flatten.map (·.itemAlias) = itemNames b items) :
    (∃ r, (b.scopeAfter items bounds.flatten).bindName n = .ok r) ↔ InScope b items n := by
  cases n with
  | var name =>
    have hbind : (∃ r, (b.scopeAfter items bounds.flatten).bindName (.var name) = .ok r) ↔
        (b.scopeAfter items bounds.flatten).vars.lookup name ≠ none := by
      rw [Binder.bindName]
      cases (b.scopeAfter items bounds.flatten).vars.lookup name <;> simp
    rw [hbind, InScope, ← hnames]
    by_cases h : Named items name
    · obtain ⟨table, htable⟩ := lookup_of_named hbounds h
      simp [h, lookup_scopeAfter_of_named hbounds h, htable]
    · obtain ⟨hsome, htable⟩ := lookup_scopeAfter_of_not_named hbounds h
      refine ⟨fun hne => ?_, fun hmem => hsome (hmem.resolve_right h)⟩
      obtain ⟨table, heq⟩ := Option.ne_none_iff_exists'.1 hne
      exact .inl (htable table heq).1
  | propertyLookup var prop =>
    constructor
    · rintro ⟨r, hr⟩
      obtain ⟨properties, hproperties, hr⟩ := bind_eq_ok.1 hr
      obtain ⟨i, hi, -⟩ := elim_eq_ok.1 hr
      obtain ⟨hnamed, hproperties⟩ :=
        (properties?_scopeAfter hbounds).1 (getTableProperties_eq_ok.1 hproperties)
      obtain ⟨hlt, heq, -⟩ := findIdx?_eq_some_iff_getElem.1 hi
      exact ⟨hnamed, properties, hproperties, beq_iff_eq.1 heq ▸ getElem_mem hlt⟩
    · rintro ⟨hnamed, properties, hproperties, hmem⟩
      have hscope := getTableProperties_eq_ok.2
        ((properties?_scopeAfter hbounds).2 ⟨hnamed, hproperties⟩)
      obtain ⟨i, hi⟩ : ∃ i, properties.findIdx? (· == prop) = some i :=
        Option.isSome_iff_exists.1 (findIdx?_isSome.trans (any_eq_true.2 ⟨prop, hmem, beq_self_eq_true _⟩))
      exact ⟨_, bind_eq_ok.2 ⟨properties, hscope, elim_eq_ok.2 ⟨i, hi, rfl⟩⟩⟩

lemma find_scopeAfter (hlocated : Located b start positions)
    (hbounds : items.mapM b.bindItem = .ok bounds)
    (h : (b.scopeAfter items bounds.flatten).bindName n = .ok r) :
    Layout.find ⟨b.columnOffsets, positions⟩ columns row r = inputValue b start columns row n := by
  refine (find_of_bindName (b := b.scopeAfter items bounds.flatten) (fun var properties hproperties =>
    hlocated var properties ((properties?_scopeAfter hbounds).1 hproperties).2) h).trans ?_
  cases n with
  | var name => rfl
  | propertyLookup var prop =>
    obtain ⟨properties, hproperties, -⟩ := bind_eq_ok.1 h
    rw [inputValue, inputValue, hproperties, getTableProperties_eq_ok.2
      ((properties?_scopeAfter hbounds).1 (getTableProperties_eq_ok.1 hproperties)).2]

end Binding

/-! ## The rows -/

section Rows

variable {vals : Values V} {l : Layout} {columns : List String} {bound : List (BoundProjectionItem V)}
  {w : Option (Expression Reference V)} {row projected : List V} {rows : List (List V)} {keep : Bool}

def planRows (vals : Values V) (l : Layout) (columns : List String) (bound : List (BoundProjectionItem V))
    (w : Option (Expression Reference V)) (rows : List (List V)) : Except String (List (List V)) :=
  (filterRows (fun row => whereValue vals w (l.find columns row)) rows).bind
    (List.mapM (project l bound columns))

lemma execute_planWith : (planWith .input { items := bound } w).execute vals l ⟨columns, rows⟩ =
    (planRows vals l columns bound w rows).map (⟨bound.map (·.itemAlias), ·⟩) := by
  cases w with
  | some expr =>
    rw [planRows]
    change (Except.map _ (filterRows (fun row => vals.mask expr (l.find columns row)) rows)).bind _ =
      ((filterRows (fun row => vals.mask expr (l.find columns row)) rows).bind _).map _
    cases filterRows (fun row => vals.mask expr (l.find columns row)) rows <;> rfl
  | none =>
    have hall : filterRows (fun row => whereValue vals none (l.find columns row)) rows = .ok rows := by
      induction rows with
      | nil => rfl
      | cons row rows ih =>
        rw [filterRows, ih]
        rfl
    rw [planRows, hall]
    rfl

lemma planRows_cons (hkeep : whereValue vals w (l.find columns row) = .ok keep)
    (hprojected : project l bound columns row = .ok projected) :
    planRows vals l columns bound w (row :: rows) =
      (planRows vals l columns bound w rows).map (if keep then (projected :: ·) else id) := by
  rw [planRows, planRows, filterRows, hkeep]
  cases filterRows (fun row => whereValue vals w (l.find columns row)) rows with
  | error e => rfl
  | ok kept =>
    cases keep with
    | true =>
      simp only [Except.bind, Except.map, if_true, mapM_cons, hprojected]
      rfl
    | false =>
      simp only [Except.bind, Except.map, Bool.false_eq_true, if_false, id]
      cases kept.mapM (project l bound columns) <;> rfl

lemma whereValue_of_planRows {out : List (List V)}
    (h : planRows vals l columns bound w (row :: rows) = .ok out) :
    ∃ keep, whereValue vals w (l.find columns row) = .ok keep := by
  obtain ⟨kept, hkept, -⟩ := bind_eq_ok.1 h
  obtain ⟨keep, hkeep, -⟩ := bind_eq_ok.1 hkept
  exact ⟨keep, hkeep⟩

end Rows

section Clause

variable {b : Binder} {positions : String → Option ℕ} {start : String → ℕ} {columns : List String}
  {items : List (ProjectionItem V)} {bounds : List (List (BoundProjectionItem V))} {vals : Values V}
  {w : Option (Expression Name V)} {w' : Option (Expression Reference V)} {rows : List (List V)}

lemma itemAlias_bound {cols : List (Expression Name V × String)} {bound : List (BoundProjectionItem V)}
    (h : Forall₂ (SameColumn b positions start columns) cols bound) :
    bound.map (·.itemAlias) = cols.map (·.2) := by
  induction h with
  | nil => rfl
  | cons h _ ih => rw [map_cons, map_cons, h.1, ih]

lemma project_of_projectedRow (hsame : Forall₂ (SameColumn b positions start columns)
      (items.flatMap (itemColumns b)) bounds.flatten) {row projected : List V}
    (h : projectedRow b start columns items row = .ok projected) :
    project ⟨b.columnOffsets, positions⟩ bounds.flatten columns row = .ok projected := by
  rw [projectedRow, mapM_eq_ok] at h
  rw [project, mapM_eq_ok]
  generalize items.flatMap (itemColumns b) = cols at hsame h
  generalize bounds.flatten = bound at hsame
  induction hsame generalizing projected with
  | nil =>
    cases h
    exact .nil
  | cons hc _ ih =>
    obtain ⟨x, xs, hx, hxs, rfl⟩ := forall₂_cons_left_iff.1 h
    exact .cons (hc.2 row x hx) (ih hxs)

/-- The clause is right for a WHERE that keeps its values. -/
lemma planRows_eq (hsame : Forall₂ (SameColumn b positions start columns)
      (items.flatMap (itemColumns b)) bounds.flatten)
    (hwhere : ∀ row ∈ rows, ∀ projected, projectedRow b start columns items row = .ok projected →
      ∀ keep, whereValue vals w (outputValue b items projected) = .ok keep →
        whereValue vals w' (Layout.find ⟨b.columnOffsets, positions⟩ columns row) = .ok keep)
    {out : List (List V)} (hout : passingRows b start columns items w vals rows = .ok out) :
    planRows vals ⟨b.columnOffsets, positions⟩ columns bounds.flatten w' rows = .ok out := by
  induction rows generalizing out with
  | nil => exact hout
  | cons row rows ih =>
    obtain ⟨projected, hprojected, hout⟩ := bind_eq_ok.1 hout
    obtain ⟨keep, hkeep, hout⟩ := bind_eq_ok.1 hout
    obtain ⟨rest, hrest, rfl⟩ := map_eq_ok.1 hout
    rw [planRows_cons (hwhere row mem_cons_self projected hprojected keep hkeep)
      (project_of_projectedRow hsame hprojected),
      ih (fun row hmem => hwhere row (mem_cons_of_mem _ hmem)) hrest]
    rfl

lemma runWith_eq (hbounds : items.mapM b.bindItem = .ok bounds) :
    (runWith vals b positions items w ⟨columns, rows⟩).map (·.1) =
      ((b.scopeAfter items bounds.flatten).bindWhere w).bind fun w' =>
        (planRows vals ⟨b.columnOffsets, positions⟩ columns bounds.flatten w' rows).map
          (⟨bounds.flatten.map (·.itemAlias), ·⟩) := by
  rw [runWith, Binder.bindWith, hbounds]
  change Except.map _ ((Except.map _ ((b.scopeAfter items bounds.flatten).bindWhere w)).bind _) = _
  cases (b.scopeAfter items bounds.flatten).bindWhere w with
  | error e => rfl
  | ok w' =>
    change Except.map _ (Except.map _ ((planWith .input { items := bounds.flatten } w').execute vals _ _)) =
      Except.map _ (planRows vals _ columns bounds.flatten w' rows)
    rw [execute_planWith]
    cases planRows vals ⟨b.columnOffsets, positions⟩ columns bounds.flatten w' rows <;> rfl

/-- A WHERE over names that keep their meaning is bound, and keeps its value. -/
lemma exists_bindWhere (vals : Values V) (hlocated : Located b start positions)
    (hbounds : items.mapM b.bindItem = .ok bounds)
    (hnames : bounds.flatten.map (·.itemAlias) = itemNames b items)
    (hw : ∀ expr ∈ w, ∀ n ∈ expr.refs, KeepsMeaning b start columns items n) :
    ∃ w', (b.scopeAfter items bounds.flatten).bindWhere w = .ok w' ∧
      ∀ row : List V, row.length = columns.length → ∀ projected,
        projectedRow b start columns items row = .ok projected →
        ∀ keep, whereValue vals w (outputValue b items projected) = .ok keep →
          whereValue vals w' (Layout.find ⟨b.columnOffsets, positions⟩ columns row) = .ok keep := by
  cases w with
  | none => exact ⟨none, rfl, fun row _ projected _ keep hkeep => hkeep⟩
  | some expr =>
    obtain ⟨expr', hexpr'⟩ := Expression.exists_traverse fun n hn =>
      (exists_bindName_iff hbounds hnames).2 (hw expr rfl n hn).1
    refine ⟨some expr', by rw [Binder.bindWhere, Option.elim_some, hexpr']; rfl, ?_⟩
    intro row hlength projected hprojected keep hkeep
    obtain ⟨y, hy, rfl⟩ := map_eq_ok.1 hkeep
    refine map_eq_ok.2 ⟨y, Expression.evaluate_traverse hexpr' (fun n hn r hr x hx => ?_) hy, rfl⟩
    rw [find_scopeAfter hlocated hbounds hr]
    exact (hw expr rfl n hn).2 row hlength projected hprojected x hx

end Clause

/-- `Person(name, age)`, `City(x)` and `Shop(y, z)`. -/
def catalog : Catalog where
  properties table := if table = "Person" then some ["name", "age"] else if table = "City" then some ["x"]
    else if table = "Shop" then some ["y", "z"] else none
  nodup table props h := by
    split_ifs at h <;> cases h <;> decide
  unnamed := rfl

/-- After `MATCH (p:Person)`. -/
def person : Binder := ⟨catalog, AList.insert "p" "Person" ∅, fun _ => 0⟩

/-- After `MATCH (c:City), (s:Shop)`. -/
def cityAndShop : Binder :=
  ⟨catalog, (AList.insert "c" "City" ∅).insert "s" "Shop", fun var => if var = "s" then 1 else 0⟩

def numbers : Values ℕ := ⟨compare, (· != 0), 1, rfl⟩

/-- An item `var.prop`, with or without an alias. -/
def propertyItem (var prop : String) (itemAlias : Option String) : ProjectionItem ℕ :=
  .expression (.read (.propertyLookup var prop)) itemAlias

/-- An item `var`. -/
def bareItem (var : String) : ProjectionItem ℕ := .expression (.read (.var var)) none

/-- The comparison with 30. -/
def over30 (n : Name) : Expression Name ℕ :=
  .binary none (fun x y => .ok (if y < x then 1 else 0)) (.read n) (.literal 30)

end LightningDB.With
