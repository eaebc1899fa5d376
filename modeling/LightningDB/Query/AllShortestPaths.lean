import Mathlib.Algebra.Order.Ring.Nat
import LightningDB.Query.RecursiveJoin

/-!
# All shortest paths, row by row

`PhysicalASP::get_next` is a small state machine: a chunk of its child with a cursor, a phase and a queue
of results.  It reads the endpoints from columns 0 and 1, wherever the variables are; after a row that it
has read it goes on by two, and the last row of a chunk it does not read; and at a row without endpoints it
returns `None`, whatever input is left.

`round_spec` says what one round of its loop does to the rows that are still to be read (`left`), and
`drain_spec` what all the calls come to.  `asp_answers_iff` says for which input the paths are those that
were asked for and the operator ends only when its input has ended.
-/

namespace LightningDB.AllShortestPaths

open List RecursiveJoin

variable {F : Type}

/-- `bfs_shortest_path` on an index. -/
abbrev Paths := ℕ → ℕ → List (List ℕ)

/-- `PhysicalASP`: the positions of its variables in the input, the index that `get_csr` gives, and the
cast of `f64`. -/
structure PhysicalASP (F : Type) where
  srcIdx : ℕ
  dstIdx : ℕ
  getCsr : Option Paths
  asU64 : F → ℕ

abbrev PathRow := (ℕ × ℕ) × List ℕ

inductive BFSPhase where
  | idle
  | active

/-- The chunks that the child has still to give, and the fields of `PhysicalASP` that change. -/
structure ASPState (F : Type) where
  child : List (List (Row F))
  currentChunk : Option (List (Row F))
  chunkRowIdx : ℕ
  results : List (List PathRow)
  bfsPhase : BFSPhase
  cachedCsr : Option Paths

/-- `PhysicalASP::new`. -/
def ASPState.new (child : List (List (Row F))) : ASPState F := ⟨child, none, 0, [], .idle, none⟩

/-- The first lines of the loop: the next chunk, if there is no current one. -/
def ASPState.fetch (st : ASPState F) : ASPState F :=
  match st.currentChunk with
  | some _ => st
  | none =>
    { st with
      child := st.child.tail
      currentChunk := st.child.head?
      chunkRowIdx := 0
      bfsPhase := .active }

namespace PhysicalASP

variable (asp : PhysicalASP F)

/-- A node, or a number that stands for one. -/
def nodeId : Value F → Option ℕ
  | .node id => some id
  | .number n => some (asp.asU64 n)
  | _ => none

def endpoints (src dst : ℕ) (row : Row F) : Option (ℕ × ℕ) := do
  let srcId ← row[src]?.bind asp.nodeId
  let dstId ← row[dst]?.bind asp.nodeId
  return (srcId, dstId)

/-- `find_all_shortest_paths` and `build_chunk_for_source`: a row for every path. -/
def buildChunk (csr : Option Paths) (ends : ℕ × ℕ) : List PathRow :=
  csr.elim [] fun find => (find ends.1 ends.2).map (ends, ·)

/-- One round of the loop of `get_next`: the state it leaves, and what is returned, if anything is. -/
def round (st : ASPState F) : ASPState F × Option (Option (List PathRow)) :=
  let st := st.fetch
  match st.currentChunk, st.bfsPhase with
  | none, _ => (st, some none)
  | some _, .idle => ({ st with currentChunk := none }, none)
  | some chunk, .active =>
    if st.chunkRowIdx + 1 < chunk.length then
      match asp.endpoints 0 1 (chunk[st.chunkRowIdx]?.getD []) with
      | none => (st, some none)
      | some ends =>
        let csr := st.cachedCsr.or asp.getCsr
        let st := { st with chunkRowIdx := st.chunkRowIdx + 2, cachedCsr := csr }
        if (buildChunk csr ends).isEmpty then (st, none)
        else
          match st.results ++ [buildChunk csr ends] with
          | [] => (st, none)
          | res :: results => ({ st with results := results }, some (some res))
    else ({ st with currentChunk := none, cachedCsr := none, bfsPhase := .idle }, none)

/-- The loop of `get_next`; `fuel` bounds its rounds. -/
def loop : ℕ → ASPState F → Option (Option (List PathRow) × ASPState F)
  | 0, _ => none
  | fuel + 1, st =>
    match asp.round st with
    | (st, some r) => some (r, st)
    | (st, none) => loop fuel st

/-- `get_next`. -/
def getNext (fuel : ℕ) (st : ASPState F) : Option (Option (List PathRow) × ASPState F) :=
  match st.results with
  | res :: results => some (some res, { st with results := results })
  | [] => asp.loop fuel st

/-- Calls of `get_next` until it returns `None`: the chunks, and the state at the end. -/
def drain (fuel : ℕ) : ℕ → ASPState F → Option (List (List PathRow) × ASPState F)
  | 0, _ => none
  | calls + 1, st =>
    match asp.getNext fuel st with
    | none => none
    | some (none, st) => some ([], st)
    | some (some res, st) => (drain fuel calls st).map fun (out, st) => (res :: out, st)

/-- The child has given all it has, and nothing of it is left. -/
def Exhausted (st : ASPState F) : Prop := st.child = [] ∧ st.currentChunk = none

/-! ## The rows that are read -/

/-- The rows of a chunk that are read: every second one, but not the last. -/
def rowsRead : List (Row F) → List (Row F)
  | row :: _ :: rows => row :: rowsRead rows
  | _ => []

/-- The rows that are still to be read. -/
def left (st : ASPState F) : List (Row F) :=
  (st.currentChunk.elim [] fun chunk => rowsRead (chunk.drop st.chunkRowIdx)) ++
    st.child.flatMap rowsRead

/-- How many rounds the rest of the input can take. -/
def work (st : ASPState F) : ℕ :=
  (st.currentChunk.elim 0 fun chunk => chunk.length - st.chunkRowIdx + 1) +
    (st.child.map fun chunk => chunk.length + 2).sum

/-- The endpoints that are read, up to the first row that has none. -/
def endsRead : List (Row F) → List (ℕ × ℕ)
  | [] => []
  | row :: rows => (asp.endpoints 0 1 row).elim [] (· :: endsRead rows)

def asked (rows : List (Row F)) : List (ℕ × ℕ) := rows.filterMap (asp.endpoints asp.srcIdx asp.dstIdx)

/-- What holds of the state at the beginning of a call. -/
structure Ready (st : ASPState F) : Prop where
  results : st.results = []
  phase : st.currentChunk.isSome → st.bfsPhase = .active
  csr : st.cachedCsr = none ∨ st.cachedCsr = asp.getCsr

variable {asp} {st : ASPState F}

lemma rowsRead_short {rows : List (Row F)} (h : rows.length ≤ 1) : rowsRead rows = [] := by
  match rows, h with
  | [], _ => rfl
  | [_], _ => rfl

lemma rowsRead_drop {chunk : List (Row F)} {i : ℕ} (h : i + 1 < chunk.length) :
    rowsRead (chunk.drop i) = chunk[i]?.getD [] :: rowsRead (chunk.drop (i + 2)) := by
  rw [drop_eq_getElem_cons (by omega), drop_eq_getElem_cons h, rowsRead,
    getElem?_eq_getElem (by omega : i < chunk.length)]
  rfl

lemma Ready.fetch (h : asp.Ready st) : asp.Ready st.fetch ∧ left st.fetch = left st ∧
    work st.fetch ≤ work st ∧ (st.fetch.currentChunk = none → Exhausted st.fetch ∧ left st = []) := by
  rw [ASPState.fetch]
  split
  next hsome => exact ⟨h, rfl, le_rfl, fun hnone => by rw [hsome] at hnone; cases hnone⟩
  next hnone =>
    refine ⟨⟨h.results, fun _ => rfl, h.csr⟩, ?_⟩
    cases hchild : st.child with
    | nil => simp [left, work, Exhausted, hnone, hchild]
    | cons chunk chunks =>
      simp only [left, work, hnone, hchild, tail_cons, head?_cons, Option.elim_none, Option.elim_some,
        drop_zero, flatMap_cons, nil_append, map_cons, sum_cons, true_and]
      exact ⟨by omega, nofun⟩

/-- What a round comes to: the input is at its end; the next row has no endpoints; the next row is read;
or a chunk is left behind. -/
inductive Round (asp : PhysicalASP F) (st st' : ASPState F) : Option (Option (List PathRow)) → Prop
  | exhausted (hrest : left st = []) (hend : Exhausted st') : Round asp st st' (some none)
  | stopped (row : Row F) (rows : List (Row F)) (hrow : left st = row :: rows)
      (hnone : asp.endpoints 0 1 row = none) (hleft : ¬ Exhausted st') : Round asp st st' (some none)
  | answered (row : Row F) (ends : ℕ × ℕ) (hrow : left st = row :: left st')
      (hends : asp.endpoints 0 1 row = some ends) (hne : buildChunk asp.getCsr ends ≠ [])
      (hready : asp.Ready st') (hwork : work st' < work st) :
      Round asp st st' (some (some (buildChunk asp.getCsr ends)))
  | unanswered (row : Row F) (ends : ℕ × ℕ) (hrow : left st = row :: left st')
      (hends : asp.endpoints 0 1 row = some ends) (hnil : buildChunk asp.getCsr ends = [])
      (hready : asp.Ready st') (hwork : work st' < work st) : Round asp st st' none
  | next (hrest : left st' = left st) (hready : asp.Ready st') (hwork : work st' < work st) :
      Round asp st st' none

/-- **One round.** -/
lemma round_spec (h : asp.Ready st) : Round asp st (asp.round st).1 (asp.round st).2 := by
  obtain ⟨hready, hleft, hwork, hend⟩ := h.fetch
  rw [round]
  generalize st.fetch = f at *
  obtain ⟨child, currentChunk, i, results, phase, cachedCsr⟩ := f
  obtain rfl : results = [] := hready.results
  cases currentChunk with
  | none => exact .exhausted (hend rfl).2 (hend rfl).1
  | some chunk =>
    obtain rfl : phase = .active := hready.phase rfl
    have hcsr : cachedCsr.or asp.getCsr = asp.getCsr := by
      rcases hready.csr with hcsr | hcsr <;> dsimp only at hcsr <;> rw [hcsr]
      · rfl
      · exact Option.or_self
    dsimp only
    by_cases hlt : i + 1 < chunk.length
    · -- the row under the cursor is the next one that is read
      have hrow : left st = chunk[i]?.getD [] ::
          left ⟨child, some chunk, i + 2, [], .active, asp.getCsr⟩ := by
        rw [← hleft]
        simp only [left, Option.elim_some, rowsRead_drop hlt, cons_append]
      have hless : work ⟨child, some chunk, i + 2, [], .active, asp.getCsr⟩ < work st := by
        refine lt_of_lt_of_le ?_ hwork
        simp only [work, Option.elim_some]
        omega
      have hready' : asp.Ready ⟨child, some chunk, i + 2, [], .active, asp.getCsr⟩ :=
        ⟨rfl, fun _ => rfl, .inr rfl⟩
      rw [if_pos hlt]
      cases hends : asp.endpoints 0 1 (chunk[i]?.getD []) with
      | none => exact .stopped _ _ hrow hends fun hexhausted => Option.some_ne_none _ hexhausted.2
      | some ends =>
        simp only [hcsr]
        split
        next hempty => exact .unanswered _ ends hrow hends (isEmpty_iff.1 hempty) hready' hless
        next hne => exact .answered _ ends hrow hends (by simpa using hne) hready' hless
    · -- at most the last row of the chunk is left
      rw [if_neg hlt]
      refine .next ?_ ⟨rfl, nofun, .inl rfl⟩ (lt_of_lt_of_le ?_ hwork)
      · rw [← hleft]
        simp only [left, Option.elim_none, Option.elim_some]
        rw [rowsRead_short (by rw [length_drop]; omega)]
      · simp only [work, Option.elim_none, Option.elim_some]
        omega

/-- Every row that is read has endpoints. -/
def AllEnds (asp : PhysicalASP F) (rows : List (Row F)) : Prop :=
  ∀ row ∈ rows, (asp.endpoints 0 1 row).isSome

lemma allEnds_cons {row : Row F} {rows : List (Row F)} {ends : ℕ × ℕ}
    (h : asp.endpoints 0 1 row = some ends) : AllEnds asp (row :: rows) ↔ AllEnds asp rows := by
  rw [AllEnds, forall_mem_cons, h]
  exact and_iff_right rfl

lemma endsRead_cons {row : Row F} {rows : List (Row F)} {ends : ℕ × ℕ}
    (h : asp.endpoints 0 1 row = some ends) : asp.endsRead (row :: rows) = ends :: asp.endsRead rows := by
  rw [endsRead, h]
  rfl

lemma endsRead_eq_filterMap {rows : List (Row F)} (h : AllEnds asp rows) :
    asp.endsRead rows = rows.filterMap (asp.endpoints 0 1) := by
  induction rows with
  | nil => rfl
  | cons row rows ih =>
    obtain ⟨hrow, hrows⟩ := forall_mem_cons.1 h
    obtain ⟨ends, hends⟩ := Option.isSome_iff_exists.1 hrow
    rw [endsRead_cons hends, filterMap_cons_some hends, ih hrows]

/-- The paths that are still to be returned. -/
abbrev pathsLeft (asp : PhysicalASP F) (st : ASPState F) : List PathRow :=
  (asp.endsRead (left st)).flatMap (buildChunk asp.getCsr)

/-- What a call returns: the next of the paths that are left, or `None`, at the end of the input or at a
row without endpoints. -/
inductive Call (asp : PhysicalASP F) (st st' : ASPState F) : Option (List PathRow) → Prop
  | some (chunk : List PathRow) (hpaths : pathsLeft asp st = chunk ++ pathsLeft asp st')
      (hall : AllEnds asp (left st) ↔ AllEnds asp (left st')) (hready : asp.Ready st')
      (hwork : work st' < work st) : Call asp st st' (some chunk)
  | none (hpaths : pathsLeft asp st = []) (hend : Exhausted st' ↔ AllEnds asp (left st)) :
      Call asp st st' none

lemma loop_spec {fuel : ℕ} (h : asp.Ready st) (hfuel : work st < fuel) :
    ∃ r st', asp.loop fuel st = some (r, st') ∧ Call asp st st' r := by
  induction fuel generalizing st with
  | zero => exact absurd hfuel (Nat.not_lt_zero _)
  | succ fuel ih =>
    have hround := round_spec h
    rw [loop]
    generalize asp.round st = out at *
    obtain ⟨st', r⟩ := out
    cases hround with
    | exhausted hrest hend =>
      exact ⟨none, st', rfl, .none (by simp [hrest, endsRead]) (by simp [hrest, hend, AllEnds])⟩
    | stopped row rows hrow hnone hleft =>
      exact ⟨none, st', rfl, .none (by simp [hrow, endsRead, hnone])
        (by simp [hrow, hleft, AllEnds, hnone])⟩
    | answered row ends hrow hends hne hready hwork =>
      refine ⟨_, st', rfl, .some _ ?_ ?_ hready hwork⟩
      · rw [pathsLeft, hrow, endsRead_cons hends, flatMap_cons]
      · rw [hrow, allEnds_cons hends]
    | unanswered row ends hrow hends hnil hready hwork =>
      -- the loop goes on, with less work left
      obtain ⟨r, st'', hrun, hcall⟩ := ih hready (by omega)
      have hpaths : pathsLeft asp st = pathsLeft asp st' := by
        rw [pathsLeft, hrow, endsRead_cons hends, flatMap_cons, hnil, nil_append]
      have hall : AllEnds asp (left st) ↔ AllEnds asp (left st') := by rw [hrow, allEnds_cons hends]
      refine ⟨r, st'', hrun, ?_⟩
      cases hcall with
      | some chunk hpaths' hall' hready' hwork' =>
        exact .some chunk (hpaths.trans hpaths') (hall.trans hall') hready' (hwork'.trans hwork)
      | none hpaths' hend => exact .none (hpaths.trans hpaths') (hend.trans hall.symm)
    | next hrest hready hwork =>
      obtain ⟨r, st'', hrun, hcall⟩ := ih hready (by omega)
      refine ⟨r, st'', hrun, ?_⟩
      cases hcall with
      | some chunk hpaths hall hready' hwork' =>
        exact .some chunk (by rw [pathsLeft, ← hrest]; exact hpaths) (by rw [← hrest]; exact hall)
          hready' (hwork'.trans hwork)
      | none hpaths hend =>
        exact .none (by rw [pathsLeft, ← hrest]; exact hpaths) (by rw [← hrest]; exact hend)

/-- **All calls.**  They return the paths that are left, and end at the end of the input exactly if every
row that is read has endpoints. -/
lemma drain_spec {fuel calls : ℕ} (h : asp.Ready st) (hfuel : work st < fuel) (hcalls : work st < calls) :
    ∃ out st', asp.drain fuel calls st = some (out, st') ∧ out.flatten = pathsLeft asp st ∧
      (Exhausted st' ↔ AllEnds asp (left st)) := by
  induction calls generalizing st with
  | zero => exact absurd hcalls (Nat.not_lt_zero _)
  | succ calls ih =>
    obtain ⟨r, st', hrun, hcall⟩ := loop_spec h hfuel
    have hnext : asp.getNext fuel st = some (r, st') := by rw [getNext, h.results, hrun]
    rw [drain, hnext]
    cases hcall with
    | some chunk hpaths hall hready hwork =>
      obtain ⟨out, st'', hdrain, hout, hend⟩ := ih hready (by omega) (by omega)
      refine ⟨chunk :: out, st'', by simp [hdrain], ?_, hend.trans hall.symm⟩
      rw [flatten_cons, hout, hpaths]
    | none hpaths hend => exact ⟨[], st', rfl, hpaths.symm, hend⟩

lemma ready_new (chunks : List (List (Row F))) : asp.Ready (.new chunks) := ⟨rfl, nofun, .inl rfl⟩

end PhysicalASP

open PhysicalASP

/-- The operator returns, with enough fuel, the paths that the rows of its input ask for, in order, and
ends only when its input has ended. -/
def Answers (asp : PhysicalASP F) (chunks : List (List (Row F))) : Prop :=
  ∃ N, ∀ fuel ≥ N, ∃ out st, asp.drain fuel fuel (.new chunks) = some (out, st) ∧
    out.flatten = (asp.asked chunks.flatten).flatMap (buildChunk asp.getCsr) ∧ Exhausted st

lemma answers_iff (asp : PhysicalASP F) (chunks : List (List (Row F))) :
    Answers asp chunks ↔ AllEnds asp (chunks.flatMap rowsRead) ∧
      (asp.endsRead (chunks.flatMap rowsRead)).flatMap (buildChunk asp.getCsr) =
        (asp.asked chunks.flatten).flatMap (buildChunk asp.getCsr) := by
  have hdrain : ∀ fuel, work (.new chunks) < fuel → ∃ out st,
      asp.drain fuel fuel (.new chunks) = some (out, st) ∧
        out.flatten = (asp.endsRead (chunks.flatMap rowsRead)).flatMap (buildChunk asp.getCsr) ∧
        (Exhausted st ↔ AllEnds asp (chunks.flatMap rowsRead)) :=
    fun fuel hfuel => drain_spec (ready_new chunks) hfuel hfuel
  constructor
  · rintro ⟨N, h⟩
    obtain ⟨out, st, hrun, hout, hend⟩ := h (max N (work (.new chunks) + 1)) (le_max_left _ _)
    obtain ⟨out', st', hrun', hout', hend'⟩ := hdrain _ (le_max_right N (work (.new chunks) + 1))
    rw [hrun, Option.some.injEq, Prod.mk.injEq] at hrun'
    obtain ⟨rfl, rfl⟩ := hrun'
    exact ⟨hend'.1 hend, hout'.symm.trans hout⟩
  · rintro ⟨hall, hpaths⟩
    refine ⟨work (.new chunks) + 1, fun fuel hfuel => ?_⟩
    obtain ⟨out, st, hrun, hout, hend⟩ := hdrain fuel hfuel
    exact ⟨out, st, hrun, hout.trans hpaths, hend.2 hall⟩

/-- **All shortest paths for every row.**  Whatever the graph, the operator returns the paths that its rows
ask for, in order, and ends only with its input, exactly if every row that it reads has endpoints in
columns 0 and 1 and these are the endpoints of all rows in the columns of the variables. -/
theorem asp_answers_iff (asp : PhysicalASP F) (chunks : List (List (Row F))) :
    (∀ csr, Answers { asp with getCsr := csr } chunks) ↔
      (∀ row ∈ chunks.flatMap rowsRead, (asp.endpoints 0 1 row).isSome) ∧
        (chunks.flatMap rowsRead).filterMap (asp.endpoints 0 1) = asp.asked chunks.flatten := by
  simp only [answers_iff]
  constructor
  · intro h
    -- in a graph in which each node leads to every other one
    obtain ⟨hall, hpaths⟩ := h (some fun s t => [if s = t then [s] else [s, t]])
    refine ⟨hall, ?_⟩
    rw [endsRead_eq_filterMap hall] at hpaths
    have hends := congrArg (map Prod.fst) hpaths
    simp only [buildChunk, Option.elim_some, map_flatMap, map_cons, map_nil, flatMap_singleton'] at hends
    exact hends
  · rintro ⟨hall, heq⟩ csr
    refine ⟨hall, ?_⟩
    have hends := endsRead_eq_filterMap (show AllEnds { asp with getCsr := csr } _ from hall)
    rw [hends]
    exact congrArg (flatMap (buildChunk csr)) heq

/-- **A single row** is not answered. -/
theorem single_row_unanswered :
    PhysicalASP.asked ⟨0, 1, some fun s t => [[s, t]], id⟩ [[.node 1, .node 2]] = [(1, 2)] ∧
      ((PhysicalASP.drain ⟨0, 1, some fun s t => [[s, t]], id⟩ 3 1 (.new [[[.node 1, .node 2]]])).map
        Prod.fst) = some [] := ⟨rfl, rfl⟩

-- two rows without endpoints end the operator before the chunk behind them
example : (PhysicalASP.drain ⟨0, 1, some fun s t => [[s, t]], id⟩ 3 1
      (.new [[[.null, .null], [.null, .null]], [[.node 1, .node 2], [.node 1, .node 2]]])).map
        (fun r => (r.1, r.2.child.length)) = some ([], 1) := rfl

end LightningDB.AllShortestPaths
