import LightningDB.Query.Statements

/-!
# The connection pool of the server

`DbConnection` takes a connection out of the pool for one request and gives it back when the handler,
or the blocking task that runs its query, is done with it.  The pool is a stack; what the connection
has been used for stays with it.

A request runs one statement, so a statement of another request runs inside a transaction exactly when
some BEGIN has succeeded and its connection has gone back to the pool.  `openedBy` and `log` are not in
the source: they record which request has opened the transaction of a connection, and in whose
transaction each statement has been run.
-/

namespace LightningDB

open Framework Function List Session

variable {Schema : Type} {P : Planner Schema}

namespace Session

/-! ## The transaction of a connection -/

/-- Nothing has changed but the caches and the books. -/
structure SameDatabase (s s' : Session P) : Prop where
  store : s'.store = s.store
  transaction : s'.transaction = s.transaction
  skipAuthCheck : s'.skipAuthCheck = s.skipAuthCheck
  queryTimeoutMs : s'.queryTimeoutMs = s.queryTimeoutMs

instance : IsPreorder (Session P) SameDatabase where
  refl _ := ⟨rfl, rfl, rfl, rfl⟩
  trans _ _ _ h h' := ⟨h'.1.trans h.1, h'.2.trans h.2, h'.3.trans h.3, h'.4.trans h.4⟩

lemma keptByCaches_sameDatabase (text : List Char) (q : Query (Statement P.Stmt)) :
    KeptByCaches SameDatabase text q :=
  ⟨fun _ => ⟨rfl, rfl, rfl, rfl⟩, fun _ _ _ => ⟨rfl, rfl, rfl, rfl⟩,
    fun _ _ => ⟨rfl, rfl, rfl, rfl⟩⟩

/-- The connection still has the transaction that it had. -/
def SameTransaction (s s' : Session P) : Prop := s'.transaction = s.transaction

instance : IsPreorder (Session P) SameTransaction where
  refl _ := rfl
  trans _ _ _ h h' := Eq.trans h' h

section Autocommit

variable {α : Type}

variable (tx : TxState Schema)

lemma sameTransaction_release (store : Store Schema) (s : Session P) :
    s.SameTransaction (s.release false tx store) := rfl

lemma sameTransaction_ensureWritableColumns :
    Keeps SameTransaction (ensureWritableColumns : SessionM P Unit) := by
  intro s
  rw [ensureWritableColumns]
  split
  · rfl
  · split
    · rfl
    · split
      · rfl
      · dsimp only
        split <;> rfl

lemma sameTransaction_checkQuery (q : Query (Statement P.Stmt)) (isExplicit : Bool) :
    Keeps SameTransaction (checkQuery q isExplicit) := by
  refine Keeps.get.bind fun s => (keeps_liftExcept _).bind fun _ => ?_
  split
  · exact .pure _
  · exact sameTransaction_ensureWritableColumns

lemma sameTransaction_openTransaction (isReadOnly : Bool) (snapshotTs : Option ℕ) :
    Keeps SameTransaction (openTransaction isReadOnly snapshotTs none : SessionM P _) := by
  intro s
  rw [openTransaction]
  split <;> rfl

lemma sameTransaction_flushPending (isReadOnly : Bool) (tx : TxState Schema) :
    Keeps SameTransaction (flushPending isReadOnly false tx : SessionM P _) := by
  intro s
  rw [flushPending]
  split
  · rfl
  · dsimp only
    split <;> rfl

lemma sameTransaction_orRelease {m : SessionM P α}
    (hm : Keeps SameDatabase m) : Keeps SameTransaction (orRelease false tx m) := by
  intro s
  have h : s.SameTransaction _ := (hm s).transaction
  rw [orRelease]
  split
  next hrun => rwa [hrun] at h
  next s' hrun =>
    rw [hrun] at h
    exact trans_of SameTransaction h (sameTransaction_release tx s'.store s')

lemma sameTransaction_buildPhysicalPlan (text : List Char) (snapshotTs : Option ℕ) :
    Keeps SameTransaction (buildPhysicalPlan text snapshotTs none : SessionM P _) := by
  have hcached : Keeps SameTransaction (cachedPlan text : SessionM P _) := fun _ => rfl
  refine hcached.bind fun cached => ?_
  cases cached with
  | some planned => exact (sameTransaction_openTransaction _ _).bind fun _ => .pure _
  | none =>
    refine (keeps_liftExcept _).bind fun q => (sameTransaction_checkQuery q _).bind fun _ => ?_
    exact (sameTransaction_openTransaction _ _).bind fun tx =>
      (sameTransaction_flushPending _ tx).bind fun tx =>
        (sameTransaction_orRelease tx (keeps_planText (keptByCaches_sameDatabase text q))).bind
          fun _ => .pure _

lemma sameTransaction_process (planned : Planned P) (params : Params) (tx : TxState Schema) :
    Keeps SameTransaction (process planned params tx) := fun _ => rfl

lemma sameTransaction_autocommit : Keeps SameTransaction (autocommit tx : SessionM P Unit) := by
  intro s
  rw [autocommit]
  split <;> rfl

lemma sameTransaction_endStatement (isLate : Bool) (r : Ran Schema (List Chunk)) :
    Keeps SameTransaction (endStatement false isLate r : SessionM P _) := by
  intro s
  rw [endStatement]
  split
  · exact sameTransaction_release r.tx r.store s
  · rw [if_neg Bool.false_ne_true]
    split
    · rfl
    · exact ((sameTransaction_autocommit r.tx).bind fun _ => .pure _) s

lemma sameTransaction_endSnapshot (r : Ran Schema (List Chunk)) :
    Keeps SameTransaction (endSnapshot r : SessionM P _) := by
  intro s
  rw [endSnapshot]
  split
  · exact sameTransaction_release r.tx r.store s
  · exact ((sameTransaction_autocommit r.tx).bind fun _ => .pure _) s

end Autocommit

def BeginsTransaction (s : Session P) (text : List Char) : Prop :=
  looksLikeTransactionStatement text = true ∧
    (∃ q u, P.parse text = .ok q ∧ q.unionQueries.head? = some u ∧
      u.statement = .transaction .begin) ∧
    ∃ begun, s.store.beginAt false none = .ok begun

variable {s : Session P}

/-- On a connection without a transaction, transaction control opens one only by BEGIN. -/
lemma transaction_carryOut (hs : s.transaction = none) (action : TransactionAction) :
    (stateOf (carryOut action s)).transaction = none ↔
      ¬ (action = .begin ∧ ∃ begun, s.store.beginAt false none = .ok begun) := by
  cases action with
  | begin =>
    cases hbegin : s.store.beginAt false none with
    | error e =>
      have hrun : carryOut .begin s = .error e s := by
        simp only [carryOut, bind, EStateM.bind, beginTransaction, hs, hbegin]
      simp [hrun, hs]
    | ok begun =>
      have hrun : carryOut .begin s = .ok "Transaction started"
          { s with store := begun.2, transaction := some begun.1 } := by
        simp only [carryOut, bind, EStateM.bind, beginTransaction, hs, hbegin]
        rfl
      simp [hrun]
  | commit =>
    have hrun : carryOut .commit s = .error (.query "No active transaction") s := by
      simp only [carryOut, commitTransaction, bind, EStateM.bind, takeTransaction, hs]
    simp [hrun, hs]
  | rollback =>
    have hrun : carryOut .rollback s = .error (.query "No active transaction") s := by
      simp only [carryOut, rollbackTransaction, bind, EStateM.bind, takeTransaction, hs]
    simp [hrun, hs]

lemma transaction_executeTransactionStatement (hs : s.transaction = none)
    {text : List Char} (hlooks : looksLikeTransactionStatement text = true) :
    (stateOf (executeTransactionStatement text s)).transaction = none ↔
      ¬ s.BeginsTransaction text := by
  rw [executeTransactionStatement]
  cases hq : P.parse text with
  | error e =>
    rw [bind_of_error (rfl : liftExcept (.error e) s = .error e s)]
    simp [hs, BeginsTransaction, hq]
  | ok q =>
    rw [bind_of_ok (rfl : liftExcept (.ok q) s = .ok q s)]
    cases hhead : q.unionQueries.head? with
    | none =>
      exact iff_of_true hs (by simp [BeginsTransaction, hq, hhead])
    | some u =>
      rw [Option.map_some]
      cases hu : u.statement with
      | other st => exact iff_of_true hs (by simp [BeginsTransaction, hq, hhead, hu])
      | transaction action =>
        have hbegins : s.BeginsTransaction text ↔
            action = .begin ∧ ∃ begun, s.store.beginAt false none = .ok begun := by
          simp [BeginsTransaction, hlooks, hq, hhead, hu]
        rw [hbegins, ← transaction_carryOut hs action]
        dsimp only
        cases hcarry : carryOut action s with
        | error e s' => rw [bind_of_error hcarry]; rfl
        | ok message s' => rw [bind_of_ok hcarry]; rfl

/-- A call of `execute` on a connection without a transaction leaves it so, unless it is a BEGIN. -/
theorem transaction_execute (hs : s.transaction = none) (text : List Char)
    (params : Params) (isLate : Bool) :
    (stateOf (execute text params isLate s)).transaction = none ↔ ¬ s.BeginsTransaction text := by
  rw [execute]
  split
  next hlooks => exact transaction_executeTransactionStatement hs hlooks
  next hlooks =>
    have hexplicit : explicitTransaction s = .ok none s := by
      rw [explicitTransaction, hs]
      rfl
    rw [bind_of_ok hexplicit]
    have hkeeps : Keeps SameTransaction (buildPhysicalPlan text none none >>= fun x : Planned P × _ =>
        process x.1 params x.2 >>= fun r => get >>= fun s' : Session P =>
          endStatement false (s'.queryTimeoutMs > 0 && isLate) r) :=
      (sameTransaction_buildPhysicalPlan text none).bind fun x =>
        (sameTransaction_process _ _ _).bind fun r =>
          Keeps.get.bind fun _ => sameTransaction_endStatement _ r
    exact iff_of_true ((hkeeps s).trans hs) (by simp [BeginsTransaction, hlooks])

/-- A call of `execute_at` leaves the connection without a transaction. -/
theorem transaction_executeAt (hs : s.transaction = none) (text : List Char) (snapshotTs : ℕ)
    (params : Params) : (stateOf (executeAt text snapshotTs params s)).transaction = none := by
  have hrefuse : Keeps SameTransaction (refuseExplicit : SessionM P Unit) := by
    intro s
    rw [refuseExplicit]
    split <;> rfl
  have hkeeps : Keeps SameTransaction (executeAt text snapshotTs params : SessionM P _) :=
    hrefuse.bind fun _ => (sameTransaction_buildPhysicalPlan text _).bind fun x =>
      (sameTransaction_process _ _ _).bind fun r => sameTransaction_endSnapshot r
  exact (hkeeps s).trans hs

end Session

/-! ## The pool -/

/-- A connection of the pool: its transaction, and the request that has opened it. -/
structure PooledConnection (Schema : Type) where
  transaction : Option (TxState Schema)
  openedBy : Option ℕ

/-- `Database::connect`. -/
def PooledConnection.new : PooledConnection Schema := ⟨none, none⟩

def PooledConnection.after (c : PooledConnection Schema) (request : ℕ)
    (transaction : Option (TxState Schema)) : PooledConnection Schema where
  transaction := transaction
  openedBy :=
    match transaction, c.transaction with
    | none, _ => none
    | some _, none => some request
    | some _, some _ => c.openedBy

/-- The handler of a request, with its `DbConnection`. -/
structure Handler (Schema : Type) where
  connection : PooledConnection Schema
  hasRun : Bool

/-- `ConnectionPool`, the database behind it and the handlers at work.  The transactions are those of
the connections, not that of `database`. -/
structure ConnectionPool (P : Planner Schema) where
  database : Session P
  /-- The connection released last comes first. -/
  idle : List (PooledConnection Schema)
  maxSize : ℕ
  handlers : ℕ → Option (Handler Schema)
  /-- The number of requests so far. -/
  requests : ℕ
  /-- Each statement by the request it belongs to, with the request that has opened the transaction
  it was run in. -/
  log : List (ℕ × Option ℕ)

/-- What `query_handler` calls: `execute_at` if the request has a snapshot, or else `execute`. -/
structure QueryCall where
  query : List Char
  snapshotTs : Option ℕ
  params : Params
  isLate : Bool

def QueryCall.run (c : QueryCall) : SessionM P (List Chunk) :=
  match c.snapshotTs with
  | some ts => executeAt c.query ts c.params
  | none => execute c.query c.params c.isLate

inductive PoolStep (P : Planner Schema) where
  | acquire
  | run (request : ℕ) (call : QueryCall)
  | release (request : ℕ)
  /-- Other work on the database. -/
  | other (database : Session P)

namespace ConnectionPool

variable (s : ConnectionPool P)

/-- `acquire`. -/
def acquire : PooledConnection Schema × List (PooledConnection Schema) :=
  match s.idle with
  | [] => (.new, [])
  | c :: idle => (c, idle)

def dropConnection (db : Session P) (c : PooledConnection Schema) : Session P :=
  match c.transaction with
  | none => db
  | some tx => { db with store := db.store.drop tx }

def session (c : PooledConnection Schema) : Session P :=
  { s.database with transaction := c.transaction }

/-- A handler takes a connection, runs its statement, which may outlive the response, and lets go of
the connection.  It may do so without having run anything, when the rest of the request is refused. -/
def step : PoolStep P → Option (ConnectionPool P)
  | .acquire =>
    some { s with
      idle := s.acquire.2
      handlers := update s.handlers s.requests (some ⟨s.acquire.1, false⟩)
      requests := s.requests + 1 }
  | .run request call =>
    match s.handlers request with
    | some ⟨c, false⟩ =>
      let db := stateOf (call.run (s.session c))
      some { s with
        database := db
        handlers := update s.handlers request
          (some ⟨c.after request db.transaction, true⟩)
        log := s.log ++ [(request, c.openedBy)] }
    | _ => none
  | .release request =>
    match s.handlers request with
    | none => none
    | some h =>
      let s := { s with handlers := update s.handlers request none }
      if s.idle.length < s.maxSize then some { s with idle := h.connection :: s.idle }
      else some { s with database := dropConnection s.database h.connection }
  | .other database => some { s with database := database }

end ConnectionPool

/-- The pool of a server that has just been started. -/
def poolSystem (P : Planner Schema) : System (ConnectionPool P) (PoolStep P) where
  init s := s.idle = [] ∧ (∀ n, s.handlers n = none) ∧ s.log = []
  step := ConnectionPool.step

/-- A connection that has been handed out has no transaction, and every statement has been run in a
transaction of its own request, if any. -/
structure ConnectionPool.Isolated (s : ConnectionPool P) : Prop where
  handedOut : ∀ n c, s.handlers n = some ⟨c, false⟩ → c.transaction = none
  ownTransaction : ∀ e ∈ s.log, ∀ opener, e.2 = some opener → opener = e.1

/-- The step is not a statement that opens a transaction. -/
def PoolOk (s : ConnectionPool P) : PoolStep P → Prop
  | .run request call => ∀ c, s.handlers request = some ⟨c, false⟩ →
      call.snapshotTs = none → ¬ (s.session c).BeginsTransaction call.query
  | _ => True

/-! ## Isolation -/

namespace ConnectionPool

/-- No connection has a transaction, in the pool or with a handler. -/
structure Clean (s : ConnectionPool P) : Prop where
  idle : ∀ c ∈ s.idle, c = .new
  handlers : ∀ n h, s.handlers n = some h → h.connection = .new
  log : ∀ e ∈ s.log, e.2 = none

variable {s s' : ConnectionPool P}

lemma Clean.isolated (h : s.Clean) : s.Isolated where
  handedOut n c hc := by
    have hnew : c = .new := h.handlers n _ hc
    rw [hnew]
    rfl
  ownTransaction e he opener hopener := by simp [h.log e he] at hopener

lemma Clean.acquire (h : s.Clean) : s.acquire.1 = .new ∧ ∀ c ∈ s.acquire.2, c = .new := by
  rw [ConnectionPool.acquire]
  split
  · exact ⟨rfl, fun _ hc => absurd hc not_mem_nil⟩
  next c idle hidle =>
    have hall := h.idle
    rw [hidle] at hall
    exact ⟨hall c (mem_cons_self ..), fun c' hc' => hall c' (mem_cons_of_mem _ hc')⟩

lemma Clean.setHandler (h : s.Clean) {request : ℕ} {o : Option (Handler Schema)}
    (ho : ∀ h' ∈ o, h'.connection = .new) :
    ({ s with handlers := update s.handlers request o } : ConnectionPool P).Clean where
  idle := h.idle
  handlers n h' hn := by
    dsimp only at hn
    rw [update_apply] at hn
    split at hn
    · exact ho h' hn
    · exact h.handlers n h' hn
  log := h.log

/-- What a call leaves of a connection without a transaction. -/
lemma transaction_run_iff {c : PooledConnection Schema} (hc : c.transaction = none)
    (call : QueryCall) : (stateOf (call.run (s.session c))).transaction = none ↔
      (call.snapshotTs = none → ¬ (s.session c).BeginsTransaction call.query) := by
  have hsession : (s.session c).transaction = none := hc
  rw [QueryCall.run]
  cases call.snapshotTs with
  | none => simpa using transaction_execute hsession call.query call.params call.isLate
  | some ts =>
    exact iff_of_true (transaction_executeAt hsession _ _ _) fun h => absurd h (by simp)

lemma Clean.step (h : s.Clean) {a : PoolStep P} (hok : PoolOk s a)
    (hstep : s.step a = some s') : s'.Clean := by
  cases a with
  | acquire =>
    cases hstep
    have hidle := h.acquire
    have hset := @Clean.setHandler _ _ _ h s.requests (some ⟨s.acquire.1, false⟩) (by
      rintro h' ⟨⟩
      exact hidle.1)
    exact ⟨hidle.2, hset.handlers, h.log⟩
  | run request call =>
    rw [ConnectionPool.step] at hstep
    split at hstep
    next c hc =>
      cases hstep
      have hnew : c = .new := h.handlers request _ hc
      have htransaction : (stateOf (call.run (s.session c))).transaction = none :=
        (transaction_run_iff (by rw [hnew]; rfl) call).2 (hok c hc)
      have hset := @Clean.setHandler _ _ _ h request
        (some ⟨c.after request (stateOf (call.run (s.session c))).transaction, true⟩) (by
          rintro h' ⟨⟩
          rw [htransaction]
          rfl)
      refine ⟨h.idle, hset.handlers, forall_mem_append.2 ⟨h.log, forall_mem_singleton.2 ?_⟩⟩
      rw [hnew]
      rfl
    · cases hstep
  | release request =>
    rw [ConnectionPool.step] at hstep
    split at hstep
    · cases hstep
    next handler hhandler =>
      have hset := @Clean.setHandler _ _ _ h request none (by simp)
      dsimp only at hstep
      split at hstep
      · cases hstep
        refine ⟨fun c hc => ?_, hset.handlers, h.log⟩
        rcases mem_cons.1 hc with rfl | hc
        · exact h.handlers request handler hhandler
        · exact h.idle c hc
      · cases hstep
        exact ⟨h.idle, hset.handlers, h.log⟩
  | other database =>
    cases hstep
    exact ⟨h.idle, h.handlers, h.log⟩

lemma clean_of_reachable (hs : (poolSystem P).ReachableBy PoolOk s) : s.Clean := by
  refine hs.invariant ?_ fun s a s' _ h hok hstep => h.step hok hstep
  rintro s ⟨hidle, hhandlers, hlog⟩
  exact ⟨by simp [hidle], by simp [hhandlers], by simp [hlog]⟩

/-- A request whose statement opens a transaction hands it on to the next request, if there is room
in the pool. -/
lemma not_isolated_of_begins (h : s.Clean) (hroom : s.idle.length < s.maxSize) {request : ℕ}
    {call : QueryCall} (hstep : s.step (.run request call) = some s')
    (hbegins : ¬ PoolOk s (.run request call)) :
    ∃ t, (poolSystem P).exec s' [.release request, .acquire] = some t ∧ ¬ t.Isolated := by
  rw [ConnectionPool.step] at hstep
  split at hstep
  next c hc =>
    cases hstep
    have hnew : c = .new := h.handlers request _ hc
    have htransaction : (stateOf (call.run (s.session c))).transaction ≠ none := by
      intro hnone
      refine hbegins fun c' hc' => ?_
      rw [hc] at hc'
      cases hc'
      exact (transaction_run_iff (by rw [hnew]; rfl) call).1 hnone
    simp only [poolSystem, System.exec_cons, ConnectionPool.step, update_self, hroom]
    refine ⟨_, rfl, fun hisolated => htransaction ?_⟩
    exact hisolated.handedOut s.requests _ (update_self ..)
  · cases hstep

end ConnectionPool

/-- **Isolation of pooled connections.**  As long as no statement opens a transaction, every
connection that is handed out is without one, and no statement is run in a transaction of another
request; the first statement that does ends this, two steps later. -/
theorem pool_isolated {s : ConnectionPool P} (hs : (poolSystem P).ReachableBy PoolOk s) :
    s.Isolated ∧
      ∀ request call s', s.idle.length < s.maxSize → s.step (.run request call) = some s' →
        ¬ PoolOk s (.run request call) →
          ∃ t, (poolSystem P).exec s' [.release request, .acquire] = some t ∧ ¬ t.Isolated :=
  have hclean := ConnectionPool.clean_of_reachable hs
  ⟨hclean.isolated, fun _ _ _ hroom hstep hbegins =>
    ConnectionPool.not_isolated_of_begins hclean hroom hstep hbegins⟩

def newPool (P : Planner Unit) : ConnectionPool P where
  database := connect P emptyStore
  idle := []
  maxSize := 64
  handlers _ := none
  requests := 0
  log := []

def createCall : QueryCall := ⟨"CREATE (:T)".toList, none, none, false⟩

/-- No statement looks like transaction control. -/
def PoolStep.isPlain : PoolStep P → Bool
  | .run _ call => !looksLikeTransactionStatement call.query
  | _ => true

lemma poolOk_of_isPlain {s : ConnectionPool P} {a : PoolStep P} (h : a.isPlain = true) :
    PoolOk s a := by
  cases a with
  | run request call =>
    rintro c - - ⟨hlooks, -⟩
    simp [PoolStep.isPlain, hlooks] at h
  | acquire | release | other => trivial

/-- A statement, and a request that gets its connection. -/
theorem pool_isolated_create :
    ∃ s, (poolSystem createPlanner).exec (newPool createPlanner)
        [.acquire, .run 0 createCall, .release 0, .acquire] = some s ∧ s.Isolated := by
  refine ⟨_, rfl, (pool_isolated ?_).1⟩
  exact System.ReachableBy.execIf (fun s a _ h => poolOk_of_isPlain h)
    (.init ⟨rfl, fun _ => rfl, rfl⟩)
    (rfl : (poolSystem createPlanner).execIf (fun _ a => a.isPlain)
      (newPool createPlanner) [.acquire, .run 0 createCall, .release 0, .acquire] = some _)

/-- Transaction control by two requests. -/
def beginCall : QueryCall := ⟨"BEGIN".toList, none, none, false⟩

def commitCall : QueryCall := ⟨"COMMIT".toList, none, none, false⟩

lemma parse_begin : createPlanner.parse beginCall.query =
    .ok ⟨[.last (.transaction .begin)], false, false⟩ :=
  parse_constantPlanner (by decide +kernel) (by decide +kernel)

lemma parse_commit : createPlanner.parse commitCall.query =
    .ok ⟨[.last (.transaction .commit)], false, false⟩ :=
  parse_constantPlanner (by decide +kernel) (by decide +kernel)

lemma run_of_transaction {call : QueryCall} {action : TransactionAction} {s : Session P}
    (hsnapshot : call.snapshotTs = none)
    (hlooks : looksLikeTransactionStatement call.query = true)
    (hparse : P.parse call.query = .ok ⟨[.last (.transaction action)], false, false⟩) :
    call.run s = (carryOut action >>= fun message =>
      notePerformed (.last (.transaction action)) >>= fun _ =>
        pure [[[.string message]]]) s := by
  rw [QueryCall.run, hsnapshot]
  rw [execute, if_pos hlooks, executeTransactionStatement, hparse]
  rfl

/-- The second request gets the connection with the transaction of the first one, and commits it. -/
theorem pool_not_isolated :
    ∃ s, (poolSystem createPlanner).exec (newPool createPlanner)
        [.acquire, .run 0 beginCall, .release 0, .acquire] = some s ∧
      (∃ c, s.handlers 1 = some ⟨c, false⟩ ∧ c.transaction.isSome) ∧
      (∃ t, s.step (.run 1 commitCall) = some t ∧ t.log = [(0, none), (1, some 0)] ∧
        ∃ c, t.handlers 1 = some ⟨c, true⟩ ∧ c.transaction = none) ∧ ¬ s.Isolated := by
  have hbegin := fun s : Session createPlanner =>
    @run_of_transaction _ _ beginCall _ s rfl rfl parse_begin
  have hcommit := fun s : Session createPlanner =>
    @run_of_transaction _ _ commitCall _ s rfl rfl parse_commit
  refine ⟨_, rfl, ⟨_, rfl, ?_⟩, ⟨_, rfl, ?_, _, rfl, ?_⟩, fun hisolated => ?_⟩
  · dsimp only [PooledConnection.after]
    rw [hbegin]
    rfl
  · dsimp only [PooledConnection.after]
    rw [hbegin]
    rfl
  · dsimp only [PooledConnection.after]
    rw [hcommit]
    rw [hbegin]
    rfl
  · have hnone := hisolated.handedOut 1 _ rfl
    rw [hbegin] at hnone
    cases hnone

end LightningDB
