import LightningDB.Framework.Fallible
import LightningDB.Query.Operators
import Mathlib.Algebra.GroupWithZero.Nat

/-!
# The connection

`Connection::execute`, `execute_at` and `execute_stream`, from the text of a query to the end of its
transaction, over the caches, the binder and the planner of the source.  What the binder, the
optimizer and the physical planner make of one statement is a parameter (`Planner`); what the code
around them does with the list of statements, the caches and the transactions is not.

`performed` is not in the source: it lists the queries whose plans have been run, and the transaction
statements that have been carried out.
-/

namespace LightningDB

open Framework

/-- `LogicalOperator`, as far as `plan_query` builds it. -/
inductive LogicalPlan (L : Type) where
  | statement (l : L)
  | singleRow
  | union (left right : LogicalPlan L) (isAll : Bool)
  | skip (plan : LogicalPlan L) (n : ℕ)
  | limit (plan : LogicalPlan L) (n : ℕ)
  | profile (plan : LogicalPlan L)
  | explain (plan : LogicalPlan L)

abbrev Params := Option (List (String × Value))

/-- A physical plan: the root operator under given parameters, and `is_read_only` of it. -/
structure PhysicalPlan (Schema : Type) where
  op : Params → Op Schema
  isReadOnly : Bool

/-- What the development leaves open about parsing, binding and planning. -/
structure Planner (Schema : Type) where
  Stmt : Type
  Bound : Type
  /-- The state of a `Binder`, with its column offsets. -/
  Scope : Type
  Logical : Type
  ast : AstBuilder Stmt
  isReadOnly : Stmt → Bool
  /-- `validate_statement_no_auth_tables`. -/
  validate : Stmt → Except LightningError Unit
  /-- `DefaultHasher`. -/
  hash : List Char → UInt64
  newScope : Scope
  /-- `Binder::bind`. -/
  bind : Shared Schema → Scope → Statement Stmt → Except LightningError (Bound × Scope)
  /-- `get_output_columns`: names and types, as they are printed. -/
  outputColumns : Bound → List (String × String)
  /-- Take SKIP and LIMIT off the RETURN of a statement. -/
  takeTail : Bound → Option ℕ × Option ℕ × Bound
  /-- Whether a statement is a `BoundStatement::Query`. -/
  isQuery : Bound → Bool
  /-- `LogicalPlanner::plan`. -/
  plan : Bound → Except LightningError Logical
  optimize : Shared Schema → Scope → LogicalPlan Logical →
    Except LightningError (LogicalPlan Logical)
  /-- `PhysicalPlanner::plan`. -/
  physical : Shared Schema → Scope → LogicalPlan Logical →
    Except LightningError (PhysicalPlan Schema)

variable {Schema : Type} (P : Planner Schema)

/-- A plan, and the query it was made from. -/
structure Planned where
  plan : PhysicalPlan Schema
  source : UnionQuery (Statement P.Stmt)

structure BoundEntry where
  bound : P.Bound
  scope : P.Scope
  source : UnionQuery (Statement P.Stmt)

/-- `Connection` and the database behind it. -/
structure Session where
  store : Store Schema
  /-- The explicit transaction. -/
  transaction : Option (TxState Schema)
  skipAuthCheck : Bool
  queryTimeoutMs : ℕ
  planCaches : Fin 4 → Lru (List Char) (BoundEntry P)
  physicalPlanCaches : Fin 4 → Lru UInt64 (Planned P)
  /-- The queries that have been carried out, and `none` for each plan that has been run without. -/
  performed : List (Option (UnionQuery (Statement P.Stmt)))

/-- A call on a connection. -/
abbrev SessionM (α : Type) := EStateM LightningError (Session P) α

variable {P}

def liftExcept {α : Type} : Except LightningError α → SessionM P α
  | .ok a => pure a
  | .error e => throw e

namespace Planner

variable (P)

/-- `parse`, as the connection calls it. -/
def parse (text : List Char) : Except LightningError (Query (Statement P.Stmt)) :=
  (LightningDB.parse P.ast text).mapError .query

/-- `Statement::is_read_only`. -/
def statementReadOnly : Statement P.Stmt → Bool
  | .transaction _ => false
  | .other st => P.isReadOnly st

variable (q : Query (Statement P.Stmt))

/-- `Query::is_read_only`. -/
def queryReadOnly : Bool :=
  q.unionQueries.all (UnionQuery.all P.statementReadOnly)

/-- `validate_no_auth_table_access`: the first arm of each query. -/
def validateNoAuthTableAccess : Except LightningError Unit :=
  q.unionQueries.forM fun u =>
    match u.statement with
    | .transaction _ => .ok ()
    | .other st => P.validate st

def cacheShard (text : List Char) : Fin 4 :=
  ⟨(P.hash text).toNat % 4, Nat.mod_lt _ (by decide)⟩

/-! ## Binding and planning -/

/-- Both arms of a UNION have the same columns. -/
def checkColumns (left right : List (String × String)) : Except LightningError Unit :=
  if left.length ≠ right.length then
    .error (.query "UNION subqueries must have the same number of columns")
  else
    (left.zip right).forM fun (l, r) =>
      if l.1 ≠ r.1 then
        .error (.query ("Column name mismatch in UNION for column " ++ l.1 ++ ": " ++ l.1.quote ++
          " vs " ++ r.1.quote))
      else if l.2 ≠ r.2 then
        .error (.query ("Column type mismatch in UNION for column " ++ l.1 ++ ": " ++ l.2 ++
          " vs " ++ r.2))
      else .ok ()

/-- `bind_union_query`.  Each arm but the first has a binder of its own. -/
def bindUnionQuery (sh : Shared Schema) :
    P.Scope → UnionQuery (Statement P.Stmt) → Except LightningError (UnionQuery P.Bound × P.Scope)
  | scope, .last st => do
    let (bound, scope) ← P.bind sh scope st
    return (.last bound, scope)
  | scope, .union st next isAll => do
    let (bound, scope) ← P.bind sh scope st
    let (rest, _) ← bindUnionQuery sh P.newScope next
    checkColumns (P.outputColumns bound) (P.outputColumns rest.statement)
    return (.union bound rest isAll, scope)

/-- `take_union_tail`. -/
def takeUnionTail : UnionQuery P.Bound → Option ℕ × Option ℕ × UnionQuery P.Bound
  | .last bound =>
    let (skip, limit, bound) := P.takeTail bound
    (skip, limit, .last bound)
  | .union bound next isAll =>
    let (skip, limit, next) := takeUnionTail next
    (skip, limit, .union bound next isAll)

/-- `BoundUnionQuery`, with SKIP and LIMIT of the whole union. -/
structure BoundUnionQuery where
  query : UnionQuery P.Bound
  unionSkip : Option ℕ
  unionLimit : Option ℕ

/-- `bind_query`: all queries, with one binder. -/
def bindQuery (sh : Shared Schema) : P.Scope → List (UnionQuery (Statement P.Stmt)) →
      Except LightningError (List (BoundUnionQuery P) × P.Scope)
  | scope, [] => .ok ([], scope)
  | scope, u :: us => do
    let (bound, scope) ← P.bindUnionQuery sh scope u
    let first : BoundUnionQuery P :=
      if bound.hasNext then
        let (skip, limit, query) := P.takeUnionTail bound
        ⟨query, skip, limit⟩
      else ⟨bound, none, none⟩
    let (rest, scope) ← bindQuery sh scope us
    return (first :: rest, scope)

/-- `plan_union_query`. -/
def planUnionQuery : UnionQuery P.Bound → Except LightningError (LogicalPlan P.Logical)
  | .last bound => do return .statement (← P.plan bound)
  | .union bound next isAll => do
    let left ← P.plan bound
    let right ← planUnionQuery next
    return .union (.statement left) right isAll

/-- The wrapper of PROFILE and EXPLAIN. -/
def wrap (plan : LogicalPlan P.Logical) : LogicalPlan P.Logical :=
  if q.isProfile then .profile plan else if q.isExplain then .explain plan else plan

/-- `plan_query`: the first of the bound queries. -/
def planQuery : List (BoundUnionQuery P) → Except LightningError (LogicalPlan P.Logical)
  | [] => .ok (P.wrap q .singleRow)
  | first :: _ => do
    let plan ← P.planUnionQuery first.query
    let plan := first.unionSkip.elim plan (.skip plan)
    let plan := first.unionLimit.elim plan (.limit plan)
    return P.wrap q plan

end Planner

namespace Session

/-! ## Plans -/

variable (text : List Char)

def cachedPlan : SessionM P (Option (Planned P)) := fun s =>
  let shard := P.cacheShard text
  let cache := s.physicalPlanCaches shard
  .ok (cache.find? (P.hash text))
    { s with
      physicalPlanCaches := Function.update s.physicalPlanCaches shard (cache.get (P.hash text)) }

def cachedBound : SessionM P (Option (BoundEntry P)) := fun s =>
  let shard := P.cacheShard text
  let cache := s.planCaches shard
  .ok (cache.find? text)
    { s with planCaches := Function.update s.planCaches shard (cache.get text) }

/-- `cache.put` of a bound statement. -/
def cacheBound (entry : BoundEntry P) : SessionM P Unit := fun s =>
  let shard := P.cacheShard text
  .ok ()
    { s with
      planCaches := Function.update s.planCaches shard ((s.planCaches shard).put 256 text entry) }

/-- `cache.put` of a read-only plan. -/
def cachePlan (planned : Planned P) : SessionM P Unit := fun s =>
  let shard := P.cacheShard text
  .ok ()
    { s with
      physicalPlanCaches := Function.update s.physicalPlanCaches shard
        ((s.physicalPlanCaches shard).put 64 (P.hash text) planned) }

variable (q : Query (Statement P.Stmt))

/-- The bound statement of a text without UNION, from the cache or the binder. -/
def boundStatement : SessionM P (BoundEntry P) := do
  match ← cachedBound text with
  | some entry => return entry
  | none =>
    let sh := (← get).store.shared
    let (bound, scope) ← liftExcept (P.bindQuery sh P.newScope q.unionQueries)
    match bound, q.unionQueries with
    | first :: _, u :: _ =>
      let entry := ⟨first.query.statement, scope, u⟩
      if P.isQuery entry.bound then cacheBound text entry
      return entry
    | _, _ => throw (.query "No query")

/-- The part of `build_physical_plan` after the transaction has begun. -/
def planText : SessionM P (Planned P) := do
  let sh := (← get).store.shared
  let (plan, scope, source) ←
    (if q.unionQueries.length > 1 || q.unionQueries.any UnionQuery.hasNext then do
      let (bound, scope) ← liftExcept (P.bindQuery sh P.newScope q.unionQueries)
      let plan ← liftExcept (P.planQuery q bound)
      let plan ← liftExcept (P.optimize sh scope plan)
      match q.unionQueries with
      | u :: _ => return (plan, scope, u)
      | [] => throw (.query "No query")
    else do
      let entry ← boundStatement text q
      let plan ← liftExcept (P.plan entry.bound)
      let plan ← liftExcept (P.optimize sh entry.scope (.statement plan))
      return (P.wrap q plan, entry.scope, entry.source))
  let physical ← liftExcept (P.physical sh scope plan)
  let planned := ⟨physical, source⟩
  if physical.isReadOnly then cachePlan text planned
  return planned

/-! ## Transactions -/

/-- `has_other_active`. -/
def hasOtherActive (tm : TransactionManager) (except : ℕ) : Bool :=
  decide (tm.activeTxIds.erase except ≠ ∅) ||
    decide ((tm.activeReadTs.counts.entries.map (·.2)).sum > 1)

/-- `ensure_writable_columns`: compressed columns are rewritten in a transaction of their own. -/
def ensureWritableColumns : SessionM P Unit := fun s =>
  match s.store.shared.compressed with
  | [] => .ok () s
  | (table, col) :: _ =>
    match s.store.beginAt false none with
    | .error e => .error e s
    | .ok (tx, store) =>
      if hasOtherActive store.tm tx.tx.txId then
        let name := (store.shared.columns table).getD col ""
        .error (.internal s!"cannot decompress column '{name}' while other transactions are active")
          { s with store := (store.rollback tx).store }
      else
        let r := { store with shared := { store.shared with compressed := [] } }.commitOwn tx
        match r.1 with
        | .ok () => .ok () { s with store := r.2 }
        | .error e => .error e { s with store := r.2 }

/-- The transaction of a call: the explicit one, or a new one. -/
def openTransaction (isReadOnly : Bool) (snapshotTs : Option ℕ)
    (explicitTx : Option (TxState Schema)) : SessionM P (TxState Schema) := fun s =>
  match explicitTx with
  | some tx => .ok tx s
  | none =>
    match s.store.beginAt (isReadOnly || snapshotTs.isSome) snapshotTs with
    | .error e => .error e s
    | .ok (tx, store) => .ok tx { s with store := store }

variable (isExplicit : Bool) (tx : TxState Schema)

/-- A transaction after a step, and the database.  An explicit one stays with the connection. -/
def keep (store : Store Schema) (s : Session P) : Session P :=
  { s with store := store, transaction := if isExplicit then some tx else s.transaction }

/-- The end of a call: the transaction is dropped, unless it is the explicit one. -/
def release (store : Store Schema) (s : Session P) : Session P :=
  if isExplicit then s.keep true tx store else { s with store := store.drop tx }

/-- An error ends the call. -/
def orRelease {α : Type} (isExplicit : Bool) (tx : TxState Schema) (m : SessionM P α) :
    SessionM P α := fun s =>
  match m s with
  | .ok a s => .ok a s
  | .error e s => .error e (s.release isExplicit tx s.store)

/-- `flush_all_pending`, before a statement that writes. -/
def flushPending (isReadOnly isExplicit : Bool) (tx : TxState Schema) :
    SessionM P (TxState Schema) := fun s =>
  if isReadOnly then .ok tx s
  else
    let r := s.store.flushAllPending tx
    match r.result with
    | .ok () => .ok r.tx (s.keep isExplicit r.tx r.store)
    | .error e => .error e (s.release isExplicit r.tx r.store)

/-- What `build_physical_plan` checks before it begins a transaction.  A statement that writes, outside
of an explicit transaction, has compressed columns rewritten. -/
def checkQuery : SessionM P Unit := do
  liftExcept (if (← get).skipAuthCheck then .ok () else P.validateNoAuthTableAccess q)
  if P.queryReadOnly q || isExplicit then return else ensureWritableColumns

/-- The rest of `build_physical_plan`, in the transaction of the call. -/
def planIn (snapshotTs : Option ℕ)
    (explicitTx : Option (TxState Schema)) : SessionM P (Planned P × TxState Schema) := do
  let tx ← openTransaction (P.queryReadOnly q) snapshotTs explicitTx
  let tx ← flushPending (P.queryReadOnly q) explicitTx.isSome tx
  let planned ← orRelease explicitTx.isSome tx (planText text q)
  return (planned, tx)

/-- `build_physical_plan`. -/
def buildPhysicalPlan (snapshotTs : Option ℕ)
    (explicitTx : Option (TxState Schema)) : SessionM P (Planned P × TxState Schema) := do
  match ← cachedPlan text with
  | some planned =>
    let tx ← openTransaction true snapshotTs explicitTx
    return (planned, tx)
  | none =>
    let q ← liftExcept (P.parse text)
    checkQuery q explicitTx.isSome
    planIn text q snapshotTs explicitTx

/-- What the run of a plan has carried out.  Transaction control is not among it: `PhysicalTransaction`
opens no transaction of the connection and does not take its own away from it. -/
def carriedOut (source : UnionQuery (Statement P.Stmt)) (isOk : Bool) :
    Option (UnionQuery (Statement P.Stmt)) :=
  if isOk && source.all Statement.isOther then some source else none

/-- `Processor::execute`: the plan is pulled to its end.  Changes of the schema clear the caches. -/
def process (planned : Planned P) (params : Params) (tx : TxState Schema) :
    SessionM P (Ran Schema (List Chunk)) := fun s =>
  let r := (planned.plan.op params).run tx s.store
  .ok r
    { s with
      store := r.store
      planCaches := if r.store.invalidations = s.store.invalidations then s.planCaches
        else fun _ => ⟨[]⟩
      physicalPlanCaches :=
        if r.store.invalidations = s.store.invalidations then s.physicalPlanCaches
        else fun _ => ⟨[]⟩
      performed := s.performed ++ [carriedOut planned.source r.result.isOk] }

/-! ## Transaction control -/

def firstWord : List Char :=
  (trimStart text).takeWhile fun c => !isWhitespace c

/-- `strip_suffix(';')`. -/
def stripSemicolon : List Char :=
  if text.getLast? = some ';' then trim text.dropLast else text

/-- `looks_like_transaction_statement`. -/
def looksLikeTransactionStatement : Bool :=
  decide ((firstWord (stripSemicolon (trim text))).map Char.toUpper ∈
    ["BEGIN".toList, "COMMIT".toList, "ROLLBACK".toList])

/-- `Connection::begin`. -/
def beginTransaction : SessionM P Unit := fun s =>
  match s.transaction with
  | some _ => .error (.query "Transaction already active") s
  | none =>
    match s.store.beginAt false none with
    | .error e => .error e s
    | .ok (tx, store) => .ok () { s with store := store, transaction := some tx }

/-- The connection lets go of its transaction, which ends as `f` says. -/
def takeTransaction (f : TxState Schema → Store Schema → Ran Schema Unit) : SessionM P Unit :=
  fun s =>
    match s.transaction with
    | none => .error (.query "No active transaction") s
    | some tx =>
      let r := f tx s.store
      let s := { s with store := r.store.drop r.tx, transaction := none }
      match r.result with
      | .ok () => .ok () s
      | .error e => .error e s

/-- `Connection::commit`. -/
def commitTransaction : SessionM P Unit :=
  takeTransaction fun tx store => (store.flushAllPending tx).andThen fun _ tx store => store.commit tx

/-- `Connection::rollback`. -/
def rollbackTransaction : SessionM P Unit := takeTransaction fun tx store => store.rollback tx

/-- Transaction control, and the text it returns. -/
def carryOut : TransactionAction → SessionM P String
  | .begin => do beginTransaction; return "Transaction started"
  | .commit => do commitTransaction; return "Transaction committed"
  | .rollback => do rollbackTransaction; return "Transaction rolled back"

/-- A transaction statement has been carried out. -/
def notePerformed (u : UnionQuery (Statement P.Stmt)) : SessionM P Unit := fun s =>
  .ok () { s with performed := s.performed ++ [some u] }

/-- `execute_transaction_statement`. -/
def executeTransactionStatement : SessionM P (List Chunk) := do
  let q ← liftExcept (P.parse text)
  match q.unionQueries.head?.map UnionQuery.statement with
  | some (.transaction action) =>
    let message ← carryOut action
    notePerformed (.last (.transaction action))
    return [[[.string message]]]
  | _ => throw (.query "Expected a transaction statement (BEGIN, COMMIT, or ROLLBACK)")

/-! ## Calls -/

/-- The end of an autocommit transaction whose statement has succeeded: a failed commit is rolled
back. -/
def autocommit : SessionM P Unit := fun s =>
  let r := s.store.commit tx
  match r.result with
  | .ok () => .ok () { s with store := r.store }
  | .error e => .error e { s with store := (r.store.rollback r.tx).store }

/-- What `execute` does when the plan has been pulled to its end: an explicit transaction stays open,
another one is committed or, after an error, rolled back.  A call that is out of time has returned
already, and its transaction is dropped. -/
def endStatement (isExplicit isLate : Bool) (r : Ran Schema (List Chunk)) : SessionM P (List Chunk) :=
  fun s =>
    if isLate then
      let ms := s.queryTimeoutMs
      .error (.internal s!"Query timed out after {ms}ms") (s.release isExplicit r.tx r.store)
    else if isExplicit then liftExcept r.result (s.keep true r.tx r.store)
    else
      match r.result with
      | .error e => .error e { s with store := (r.store.rollback r.tx).store }
      | .ok chunks => (do autocommit r.tx; return chunks : SessionM P (List Chunk)) s

/-- The explicit transaction of the connection, if it is still open. -/
def explicitTransaction : SessionM P (Option (TxState Schema)) := fun s =>
  if s.transaction.any (·.finalized) then
    .error (.internal "Transaction has already been committed or rolled back") s
  else .ok s.transaction s

/-- `execute`.  With a time limit the statement runs in a thread of its own, and `isLate` says that it
has not finished in time; it then goes on alone. -/
def execute (params : Params) (isLate : Bool) : SessionM P (List Chunk) :=
  if looksLikeTransactionStatement text then executeTransactionStatement text
  else do
    let explicitTx ← explicitTransaction
    let (planned, tx) ← buildPhysicalPlan text none explicitTx
    let r ← process planned params tx
    endStatement explicitTx.isSome ((← get).queryTimeoutMs > 0 && isLate) r

/-- `execute_at` is refused inside an explicit transaction. -/
def refuseExplicit : SessionM P Unit := fun s =>
  if s.transaction.isSome then
    .error (.query ("execute_at cannot be used inside an explicit transaction; " ++
      "the snapshot timestamp would conflict with the transaction's read timestamp")) s
  else .ok () s

/-- What `execute_at` does in the end.  After an error the transaction is dropped. -/
def endSnapshot (r : Ran Schema (List Chunk)) : SessionM P (List Chunk) := fun s =>
  match r.result with
  | .error e => .error e (s.release false r.tx r.store)
  | .ok chunks => (do autocommit r.tx; return chunks : SessionM P (List Chunk)) s

/-- `execute_at`. -/
def executeAt (snapshotTs : ℕ) (params : Params) : SessionM P (List Chunk) := do
  refuseExplicit
  let (planned, tx) ← buildPhysicalPlan text (some snapshotTs) none
  let r ← process planned params tx
  endSnapshot r

/-- `execute_stream`, with the receiver drained to the end: the chunks, or the first error.  The
statement runs in a transaction of its own, which is dropped. -/
def executeStream (params : Params) : SessionM P (List Chunk) :=
  if looksLikeTransactionStatement text then executeTransactionStatement text
  else do
    let (planned, tx) ← buildPhysicalPlan text none none
    let r ← process planned params tx
    modify (·.release false r.tx r.store)
    liftExcept r.result

end Session

end LightningDB
