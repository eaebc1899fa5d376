import LightningDB.Framework.Runs
import LightningDB.Transaction.Manager
import Mathlib.Data.List.TakeWhile

/-!
# Row ids and rollback

The row ids of a table come from one counter, `next_row_id`.  A statement that creates a row loads
the counter, notes the value it has seen (`note_table_write` keeps the first one), and only then
takes an id with `fetch_add`.  Rollback discards the rows of its transaction, leaves
`active_tx_ids`, looks whether that set is empty, and if so stores the noted value back into the
counter; otherwise it begins a transaction of its own that tombstones the ids.  Each of these
accesses is a step here.

The ids in use are those of committed rows and of rows that a transaction still holds.  They are
below the counter (`RowsBelow`), so that the next `fetch_add` gives out fresh ids, in every run in
which a rollback that stores its noted value finds that no other transaction has been given ids in
the meantime, those rolled back excepted (`rollback_frame`).
-/

namespace LightningDB

open Framework List Option

/-- How far a transaction has come with its rollback. -/
inductive RowIdPhase where
  /-- Not rolled back. -/
  | running
  /-- Its rows are discarded and it has left `active_tx_ids`. -/
  | discarded
  /-- It has found `active_tx_ids` empty. -/
  | storing
deriving DecidableEq

/-- What a transaction keeps of one table: the counter as last loaded, the entry of
`rollback_table_bases`, the rows it holds, and those in `allocated_rows`. -/
structure RowIdTx where
  tx : Transaction
  loaded : Option ℕ
  base : Option ℕ
  rows : List ℕ
  allocated : List ℕ
  phase : RowIdPhase

/-- A table's counter, the transactions, and the ids of the committed rows. -/
structure RowIdState where
  tm : TransactionManager
  nextRowId : ℕ
  live : FinMap ℕ RowIdTx
  committed : List ℕ

/-- The steps of the system. -/
inductive RowIdAction where
  | begin
  | loadNextRowId (t : ℕ)
  | noteTableWrite (t : ℕ)
  /-- `fetch_add`, `reserve_rows` and, for the statements that call it, `note_allocated`. -/
  | reserveRows (t count : ℕ) (noteAllocated : Bool)
  | commit (t : ℕ)
  | rollbackDiscard (t : ℕ)
  | rollbackCheck (t : ℕ)
  | rollbackStore (t : ℕ)
deriving DecidableEq

namespace RowIdTx

/-- A transaction that has just begun. -/
def start (tx : Transaction) : RowIdTx where
  tx := tx
  loaded := none
  base := none
  rows := []
  allocated := []
  phase := .running

/-- `note_table_write`: the first value stays. -/
def noteTableWrite (rt : RowIdTx) (b : ℕ) : RowIdTx :=
  { rt with loaded := none, base := some (rt.base.getD b) }

/-- `reserve_rows` and `note_allocated`. -/
def reserveRows (rt : RowIdTx) (ids : List ℕ) (noteAllocated : Bool) : RowIdTx :=
  { rt with
    rows := rt.rows ++ ids
    allocated := if noteAllocated then rt.allocated ++ ids else rt.allocated }

/-- The transaction has loaded or noted the value `b` of the counter. -/
def Noted (rt : RowIdTx) (b : ℕ) : Prop := rt.loaded = some b ∨ rt.base = some b

end RowIdTx

namespace RowIdState

variable (s : RowIdState)

def endRollback (t : ℕ) (rt : RowIdTx) : RowIdState :=
  { s with tm := s.tm.removeReadTs rt.tx.readTs, live := s.live.erase t }

/-- A transaction begins, unless the ids are exhausted. -/
def beginTx : Option RowIdState :=
  (s.tm.beginAt false none).map fun (tx, tm) =>
    { s with tm := tm, live := s.live.insert tx.txId (.start tx) }

/-- One step.  The transaction that tombstones ids creates no rows; it counts as active until it
commits. -/
def step : RowIdAction → Option RowIdState
  | .begin => s.beginTx
  | .loadNextRowId t =>
    (s.live.lookup t).bind fun rt =>
      if rt.phase = .running then
        some { s with live := s.live.insert t { rt with loaded := some s.nextRowId } }
      else none
  | .noteTableWrite t =>
    (s.live.lookup t).bind fun rt =>
      if rt.phase = .running then
        rt.loaded.map fun b => { s with live := s.live.insert t (rt.noteTableWrite b) }
      else none
  | .reserveRows t count noteAllocated =>
    (s.live.lookup t).bind fun rt =>
      if rt.phase = .running then
        some { s with
          nextRowId := s.nextRowId + count
          live := s.live.insert t
            (rt.reserveRows (List.range' s.nextRowId count) noteAllocated) }
      else none
  | .commit t =>
    (s.live.lookup t).bind fun rt =>
      if rt.phase = .running then
        some { s with
          tm := s.tm.finish rt.tx
          live := s.live.erase t
          committed := s.committed ++ rt.rows }
      else none
  | .rollbackDiscard t =>
    (s.live.lookup t).bind fun rt =>
      if rt.phase = .running then
        some { s with
          tm := s.tm.removeActive rt.tx.txId
          live := s.live.insert t { rt with rows := [], phase := .discarded } }
      else none
  | .rollbackCheck t =>
    (s.live.lookup t).bind fun rt =>
      if rt.phase = .discarded then
        if rt.base = none then some (s.endRollback t rt)
        else if s.tm.activeTxIds = ∅ then
          some { s with live := s.live.insert t { rt with phase := .storing } }
        else if rt.allocated = [] then some (s.endRollback t rt)
        else some ((s.endRollback t rt).beginTx.getD (s.endRollback t rt))
      else none
  | .rollbackStore t =>
    (s.live.lookup t).bind fun rt =>
      if rt.phase = .storing then
        rt.base.map fun b => { s.endRollback t rt with nextRowId := b }
      else none

/-- A table with `n` committed rows and no transaction. -/
def opened (n : ℕ) : RowIdState where
  tm := .new
  nextRowId := n
  live := ∅
  committed := List.range n

/-- The id belongs to a committed row, or to one that a transaction still holds. -/
def InUse (row : ℕ) : Prop :=
  row ∈ s.committed ∨ ∃ t rt, s.live.lookup t = some rt ∧ row ∈ rt.rows

def RowsBelow : Prop := ∀ row, s.InUse row → row < s.nextRowId

end RowIdState

def rowIdSystem : System RowIdState RowIdAction where
  init s := ∃ n, s = .opened n
  step := RowIdState.step

/-! ## The schedule -/

namespace RowIdAction

/-- The part of a schedule from the first load of the counter by `t` on. -/
def since (t : ℕ) (acts : List RowIdAction) : List RowIdAction :=
  acts.dropWhile (· ≠ .loadNextRowId t)

/-- The holders after one more action: who is given ids is one, until it discards its rows. -/
def holdersStep (holders : List ℕ) : RowIdAction → List ℕ
  | .reserveRows t count _ => if count = 0 then holders else t :: holders
  | .rollbackDiscard t => holders.filter (· ≠ t)
  | _ => holders

/-- The transactions that are given ids in a part of a schedule and do not discard them in it. -/
def holders (acts : List RowIdAction) : List ℕ := acts.foldl holdersStep []

/-- A rollback stores the noted value only if since the first load of its transaction no other one
has been given ids, except for those that have been rolled back. -/
def StoresAlone (acts : List RowIdAction) : RowIdAction → Prop
  | .rollbackStore t => ∀ t' ∈ holders (since t acts), t' = t
  | _ => True

instance (acts : List RowIdAction) (a : RowIdAction) : Decidable (StoresAlone acts a) := by
  cases a <;> unfold StoresAlone <;> infer_instance

variable {acts : List RowIdAction} {t t' : ℕ} {a : RowIdAction}

lemma since_concat (h : since t acts ≠ []) : since t (acts ++ [a]) = since t acts ++ [a] := by
  rw [since, dropWhile_append]
  exact if_neg (mt List.isEmpty_iff.1 h)

lemma since_concat_load : since t (acts ++ [.loadNextRowId t]) ≠ [] := by
  intro hnil
  have hall := dropWhile_eq_nil_iff.1 hnil (.loadNextRowId t) (mem_append_right _ (mem_singleton_self _))
  simp at hall

lemma holders_concat : holders (acts ++ [a]) = holdersStep (holders acts) a := by
  rw [holders, foldl_append]
  rfl

lemma mem_holdersStep {hs : List ℕ} (h : t' ∈ hs) (ha : a ≠ .rollbackDiscard t') :
    t' ∈ holdersStep hs a := by
  cases a with
  | reserveRows t count note =>
    rw [holdersStep]
    split
    · exact h
    · exact mem_cons_of_mem t h
  | rollbackDiscard t =>
    refine mem_filter.2 ⟨h, ?_⟩
    simpa using fun heq : t' = t => ha (heq ▸ rfl)
  | _ => exact h

end RowIdAction

open RowIdAction

/-! ## What a step does -/

namespace RowIdState

variable {s s' : RowIdState}

/-- What a step does to the transaction `t`, which becomes `rt'`: it begins, or its rows are some of
those it had and those it is given, and the values it knows are those it knew and the one it
loads. -/
def Becomes (s : RowIdState) (a : RowIdAction) (t : ℕ) (rt' : RowIdTx) : Prop :=
  (t = s.tm.nextTxId ∧ rt'.rows = [] ∧ ∀ b, ¬ rt'.Noted b) ∨
  ∃ rt, s.live.lookup t = some rt ∧ a ≠ .commit t ∧
    (∀ row ∈ rt'.rows, (row ∈ rt.rows ∧ a ≠ .rollbackDiscard t) ∨
      ∃ count note, a = .reserveRows t count note ∧ row ∈ range' s.nextRowId count) ∧
    ∀ b, rt'.Noted b → rt.Noted b ∨ (a = .loadNextRowId t ∧ b = s.nextRowId)

/-- What a step does to the table: the counter is moved past the ids given out, or set to the value
that the transaction rolled back has noted. -/
def Counts (s : RowIdState) (a : RowIdAction) (n : ℕ) : Prop :=
  (s.nextRowId ≤ n ∧ ∀ t count note, a = .reserveRows t count note → n = s.nextRowId + count) ∨
  ∃ t rt, a = .rollbackStore t ∧ s.live.lookup t = some rt ∧ rt.Noted n

structure Stepped (s : RowIdState) (a : RowIdAction) (s' : RowIdState) : Prop where
  nextTxId : s.tm.nextTxId ≤ s'.tm.nextTxId
  begun : ∀ t rt', s'.live.lookup t = some rt' → t = s.tm.nextTxId → t < s'.tm.nextTxId
  live : ∀ t rt', s'.live.lookup t = some rt' → s.Becomes a t rt'
  committed : ∀ row ∈ s'.committed, row ∈ s.committed ∨
    ∃ t rt, a = .commit t ∧ s.live.lookup t = some rt ∧ row ∈ rt.rows
  discards : ∀ t, a = .rollbackDiscard t → s.live.lookup t ≠ none
  stored : ∀ t, a = .rollbackStore t → s'.live.lookup t = none
  counter : s.Counts a s'.nextRowId

variable {t n : ℕ} {rt rt' : RowIdTx} {a : RowIdAction} {tm : TransactionManager}

lemma becomes_same (h : s.live.lookup t = some rt) (hcommit : a ≠ .commit t)
    (hdiscard : a ≠ .rollbackDiscard t) : s.Becomes a t rt :=
  .inr ⟨rt, h, hcommit, fun _ hrow => .inl ⟨hrow, hdiscard⟩, fun _ hb => .inl hb⟩

/-- The transactions alive at the start have ids below the next one. -/
def Fresh (s : RowIdState) : Prop := ∀ t rt, s.live.lookup t = some rt → t < s.tm.nextTxId

/-- A step of `t` that replaces what it keeps. -/
lemma stepped_insert (hfresh : s.Fresh) (ht : s.live.lookup t = some rt)
    (htm : tm.nextTxId = s.tm.nextTxId)
    (hcommit : ∀ t', a ≠ .commit t') (hstore : ∀ t', a ≠ .rollbackStore t')
    (hdiscard : ∀ t', a = .rollbackDiscard t' → t' = t) (hnew : s.Becomes a t rt')
    (hcounter : s.Counts a n) :
    s.Stepped a { s with tm := tm, nextRowId := n, live := s.live.insert t rt' } where
  nextTxId := htm.ge
  begun t' rt'' ht' heq := by
    rcases FinMap.of_lookup_insert ht' with ⟨rfl, -⟩ | ⟨-, ht'⟩
    · exact htm.symm ▸ hfresh t' rt ht
    · exact htm.symm ▸ hfresh t' rt'' ht'
  live t' rt'' ht' := by
    rcases FinMap.of_lookup_insert ht' with ⟨rfl, rfl⟩ | ⟨hne, ht'⟩
    · exact hnew
    · exact becomes_same ht' (hcommit t') fun h => hne (hdiscard t' h)
  committed row hrow := .inl hrow
  discards t' h := by
    rw [hdiscard t' h, ht]
    exact some_ne_none rt
  stored t' h := absurd h (hstore t')
  counter := hcounter

lemma counts_same (h : ∀ t count note, a ≠ .reserveRows t count note) : s.Counts a s.nextRowId :=
  .inl ⟨le_rfl, fun t count note heq => absurd heq (h t count note)⟩

/-- A step of `t` that ends it. -/
lemma stepped_erase (hfresh : s.Fresh) (htm : tm.nextTxId = s.tm.nextTxId)
    (hdiscard : ∀ t', a ≠ .rollbackDiscard t') (hcommit : ∀ t', a = .commit t' → t' = t)
    (hstore : ∀ t', a = .rollbackStore t' → t' = t) {committed : List ℕ}
    (hcommitted : ∀ row ∈ committed, row ∈ s.committed ∨
      ∃ t rt, a = .commit t ∧ s.live.lookup t = some rt ∧ row ∈ rt.rows) (hcounter : s.Counts a n) :
    s.Stepped a ⟨tm, n, s.live.erase t, committed⟩ where
  nextTxId := htm.ge
  begun t' rt' ht' heq := htm.symm ▸ hfresh t' rt' (FinMap.of_lookup_erase ht').2
  live t' rt' ht' := by
    obtain ⟨hne, ht'⟩ := FinMap.of_lookup_erase ht'
    exact becomes_same ht' (fun h => hne (hcommit t' h)) (hdiscard t')
  committed := hcommitted
  discards t' h := absurd h (hdiscard t')
  stored t' h := by
    rw [FinMap.lookup_erase_eq_ite, if_pos (hstore t' h)]
  counter := hcounter

lemma Stepped.beginTx {s'' : RowIdState} (h : s.Stepped a s') (htm : s'.tm.nextTxId = s.tm.nextTxId)
    (hstore : ∀ t', a ≠ .rollbackStore t') (hbegin : s'.beginTx = some s'') : s.Stepped a s'' := by
  obtain ⟨⟨tx, tm⟩, hat, rfl⟩ := map_eq_some_iff.1 hbegin
  obtain ⟨⟨txId, tm⟩, halloc, ⟨⟩⟩ := map_eq_some_iff.1 hat
  obtain ⟨rfl, rfl⟩ := TransactionManager.allocTxId_eq_some halloc
  refine ⟨h.nextTxId.trans (Nat.le_succ _), fun t' rt' ht' heq => ?_, fun t' rt' ht' => ?_,
    h.committed, h.discards, fun t' heq => absurd heq (hstore t'), h.counter⟩
  · exact heq.trans_lt (htm.symm ▸ Nat.lt_succ_self _)
  · rcases FinMap.of_lookup_insert ht' with ⟨rfl, rfl⟩ | ⟨-, ht'⟩
    · exact .inl ⟨htm, rfl, fun b hb => by rcases hb with hb | hb <;> cases hb⟩
    · exact h.live t' rt' ht'

lemma stepped (hfresh : s.Fresh) (hstep : s.step a = some s') : s.Stepped a s' := by
  cases a with
  | begin =>
    have hsame : s.Stepped .begin s := {
      nextTxId := le_rfl
      begun := fun t rt ht _ => hfresh t rt ht
      live := fun t rt ht => becomes_same ht nofun nofun
      committed := fun row hrow => .inl hrow
      discards := nofun
      stored := nofun
      counter := counts_same nofun }
    exact hsame.beginTx rfl nofun hstep
  | loadNextRowId t =>
    obtain ⟨rt, hrt, -, ⟨⟩⟩ := of_bind_ite hstep
    refine stepped_insert hfresh hrt rfl nofun nofun nofun ?_ (counts_same nofun)
    refine .inr ⟨rt, hrt, nofun, fun row hrow => .inl ⟨hrow, nofun⟩, fun b hb => ?_⟩
    rcases hb with hb | hb
    · exact .inr ⟨rfl, (some.inj hb).symm⟩
    · exact .inl (.inr hb)
  | noteTableWrite t =>
    obtain ⟨rt, hrt, -, hif⟩ := of_bind_ite hstep
    obtain ⟨b, hb, rfl⟩ := map_eq_some_iff.1 hif
    refine stepped_insert hfresh hrt rfl nofun nofun nofun ?_ (counts_same nofun)
    refine .inr ⟨rt, hrt, nofun, fun row hrow => .inl ⟨hrow, nofun⟩, fun b' hb' => .inl ?_⟩
    rcases hb' with hb' | hb'
    · cases hb'
    · cases hbase : rt.base with
      | none =>
        rw [RowIdTx.noteTableWrite, hbase] at hb'
        exact .inl (hb.trans hb')
      | some b₀ =>
        rw [RowIdTx.noteTableWrite, hbase] at hb'
        exact .inr (hbase.trans hb')
  | reserveRows t count note =>
    obtain ⟨rt, hrt, -, ⟨⟩⟩ := of_bind_ite hstep
    refine stepped_insert hfresh hrt rfl nofun nofun nofun ?_
      (.inl ⟨Nat.le_add_right _ _, fun _ _ _ h => by cases h; rfl⟩)
    refine .inr ⟨rt, hrt, nofun, fun row hrow => ?_, fun b hb => .inl hb⟩
    rcases mem_append.1 hrow with hrow | hrow
    · exact .inl ⟨hrow, nofun⟩
    · exact .inr ⟨count, note, rfl, hrow⟩
  | commit t =>
    obtain ⟨rt, hrt, -, ⟨⟩⟩ := of_bind_ite hstep
    refine stepped_erase (a := .commit t) hfresh (TransactionManager.finish_nextTxId _ _) nofun
      (fun _ h => by cases h; rfl) nofun (fun row hrow => ?_) (counts_same nofun)
    rcases mem_append.1 hrow with hrow | hrow
    · exact .inl hrow
    · exact .inr ⟨t, rt, rfl, hrt, hrow⟩
  | rollbackDiscard t =>
    obtain ⟨rt, hrt, -, ⟨⟩⟩ := of_bind_ite hstep
    exact stepped_insert hfresh hrt rfl nofun nofun (fun _ h => by cases h; rfl)
      (.inr ⟨rt, hrt, nofun, nofun, fun b hb => .inl hb⟩) (counts_same nofun)
  | rollbackCheck t =>
    obtain ⟨rt, hrt, -, hif⟩ := of_bind_ite hstep
    have hend : s.Stepped (.rollbackCheck t) (s.endRollback t rt) := by
      rw [endRollback]
      exact stepped_erase (a := .rollbackCheck t) hfresh
        (show (s.tm.removeReadTs rt.tx.readTs).nextTxId = s.tm.nextTxId from rfl) nofun nofun nofun
        (fun row hrow => .inl hrow) (counts_same nofun)
    split at hif
    · cases hif
      exact hend
    · split at hif
      · cases hif
        exact stepped_insert hfresh hrt rfl nofun nofun nofun
          (.inr ⟨rt, hrt, nofun, fun row hrow => .inl ⟨hrow, nofun⟩, fun b hb => .inl hb⟩)
          (counts_same nofun)
      · split at hif
        · cases hif
          exact hend
        · cases hif
          cases hbegin : (s.endRollback t rt).beginTx with
          | none => exact hend
          | some s'' => exact hend.beginTx rfl nofun hbegin
  | rollbackStore t =>
    obtain ⟨rt, hrt, -, hif⟩ := of_bind_ite hstep
    obtain ⟨b, hb, rfl⟩ := map_eq_some_iff.1 hif
    rw [endRollback]
    exact stepped_erase (a := .rollbackStore t) hfresh
      (show (s.tm.removeReadTs rt.tx.readTs).nextTxId = s.tm.nextTxId from rfl) nofun nofun
      (fun _ h => by cases h; rfl) (fun row hrow => .inl hrow) (.inr ⟨t, rt, rfl, hrt, .inr hb⟩)

/-! ## The ids in use -/

/-- What a transaction `t` that knows the value `b` of the counter can rely on: ids at or above `b`
are in use only by transactions that have been given them since its first load. -/
structure Guards (s : RowIdState) (acts : List RowIdAction) (t b : ℕ) : Prop where
  loaded : since t acts ≠ []
  held : ∀ t' rt', t' ≠ t → s.live.lookup t' = some rt' → ∀ row ∈ rt'.rows,
    row < b ∨ t' ∈ holders (since t acts)
  committed : ∀ row ∈ s.committed, row < b ∨
    ∃ t' ∈ holders (since t acts), s.live.lookup t' = none ∧ t' < s.tm.nextTxId

/-- The invariant of the runs. -/
structure Guarded (s : RowIdState) (acts : List RowIdAction) : Prop where
  fresh : s.Fresh
  below : s.RowsBelow
  guards : ∀ t rt b, s.live.lookup t = some rt → rt.Noted b → s.Guards acts t b

variable {acts : List RowIdAction} {b : ℕ}

lemma Stepped.fresh (h : s.Stepped a s') (hfresh : s.Fresh) : s'.Fresh := by
  intro t rt' ht
  rcases h.live t rt' ht with ⟨rfl, -, -⟩ | ⟨rt, hrt, -⟩
  · exact h.begun _ rt' ht rfl
  · exact (hfresh t rt hrt).trans_le h.nextTxId

lemma Stepped.ended (h : s.Stepped a s') {t' : ℕ} (hnone : s.live.lookup t' = none)
    (hlt : t' < s.tm.nextTxId) : s'.live.lookup t' = none := by
  refine eq_none_iff_forall_ne_some.2 fun rt' ht' => ?_
  rcases h.live t' rt' ht' with ⟨rfl, -, -⟩ | ⟨rt, hrt, -⟩
  · exact absurd hlt (lt_irrefl _)
  · rw [hnone] at hrt
    cases hrt

lemma Stepped.rows (h : s.Stepped a s') (ht : s'.live.lookup t = some rt') {row : ℕ}
    (hrow : row ∈ rt'.rows) :
    (∃ rt, s.live.lookup t = some rt ∧ row ∈ rt.rows ∧ a ≠ .rollbackDiscard t) ∨
      ∃ count note, a = .reserveRows t count note ∧ row ∈ range' s.nextRowId count := by
  rcases h.live t rt' ht with ⟨-, hnil, -⟩ | ⟨rt, hrt, -, hrows, -⟩
  · rw [hnil] at hrow
    cases hrow
  · rcases hrows row hrow with ⟨hmem, hne⟩ | hnew
    · exact .inl ⟨rt, hrt, hmem, hne⟩
    · exact .inr hnew

/-- A step of the others keeps what a transaction can rely on. -/
lemma Guards.step (hg : s.Guards acts t b) (hfresh : s.Fresh) (h : s.Stepped a s')
    (ha : a ≠ .commit t) : s'.Guards (acts ++ [a]) t b := by
  have hsince := since_concat (a := a) hg.loaded
  refine ⟨by simp [hsince], fun t' rt' hne ht' row hrow => ?_, fun row hrow => ?_⟩
  · rw [hsince, holders_concat]
    rcases h.rows ht' hrow with ⟨rt, hrt, hmem, hdiscard⟩ | ⟨count, note, rfl, hmem⟩
    · exact (hg.held t' rt hne hrt row hmem).imp_right fun hin => mem_holdersStep hin hdiscard
    · have hcount : count ≠ 0 := by
        rintro rfl
        cases hmem
      rw [holdersStep, if_neg hcount]
      exact .inr mem_cons_self
  · rw [hsince, holders_concat]
    rcases h.committed row hrow with hold | ⟨t₀, rt₀, rfl, hrt₀, hmem⟩
    · refine (hg.committed row hold).imp_right ?_
      rintro ⟨t', hin, hnone, hlt⟩
      refine ⟨t', mem_holdersStep hin fun heq => h.discards t' heq hnone, h.ended hnone hlt, ?_⟩
      exact hlt.trans_le h.nextTxId
    · have hne : t₀ ≠ t := fun heq => ha (heq ▸ rfl)
      refine (hg.held t₀ rt₀ hne hrt₀ row hmem).imp_right fun hin => ⟨t₀, hin, ?_, ?_⟩
      · refine eq_none_iff_forall_ne_some.2 fun rt' ht' => ?_
        rcases h.live t₀ rt' ht' with ⟨rfl, -⟩ | ⟨-, -, hcommit, -⟩
        · exact absurd (hfresh _ rt₀ hrt₀) (lt_irrefl _)
        · exact hcommit rfl
      · exact (hfresh t₀ rt₀ hrt₀).trans_le h.nextTxId

lemma RowsBelow.guards (hbelow : s.RowsBelow) (h : s.Stepped (.loadNextRowId t) s') :
    s'.Guards (acts ++ [.loadNextRowId t]) t s.nextRowId := by
  refine ⟨since_concat_load, fun t' rt' _ ht' row hrow => .inl ?_, fun row hrow => .inl ?_⟩
  · rcases h.rows ht' hrow with ⟨rt, hrt, hmem, -⟩ | ⟨_, _, ⟨⟩, _⟩
    exact hbelow row (.inr ⟨t', rt, hrt, hmem⟩)
  · rcases h.committed row hrow with hold | ⟨_, _, ⟨⟩, _⟩
    exact hbelow row (.inl hold)

lemma Guarded.rowsBelow_step (hg : s.Guarded acts) (h : s.Stepped a s')
    (hok : StoresAlone acts a) : s'.RowsBelow := by
  rcases h.counter with ⟨hle, hcount⟩ | ⟨t, rt, rfl, hrt, hnoted⟩
  · rintro row (hrow | ⟨t, rt', ht, hrow⟩)
    · rcases h.committed row hrow with hold | ⟨t, rt, -, hrt, hmem⟩
      · exact (hg.below row (.inl hold)).trans_le hle
      · exact (hg.below row (.inr ⟨t, rt, hrt, hmem⟩)).trans_le hle
    · rcases h.rows ht hrow with ⟨rt, hrt, hmem, -⟩ | ⟨count, note, heq, hmem⟩
      · exact (hg.below row (.inr ⟨t, rt, hrt, hmem⟩)).trans_le hle
      · rw [hcount t count note heq]
        exact (mem_range'_1.1 hmem).2
  -- The store: what others use is below the value noted, for no other transaction holds ids.
  · have hguard := hg.guards t rt _ hrt hnoted
    rintro row (hrow | ⟨t', rt', ht', hrow⟩)
    · rcases h.committed row hrow with hold | ⟨_, _, ⟨⟩, _⟩
      rcases hguard.committed row hold with hlt | ⟨t', hin, hnone, -⟩
      · exact hlt
      · rw [hok t' hin, hrt] at hnone
        cases hnone
    · have hne : t' ≠ t := by
        rintro rfl
        rw [h.stored t' rfl] at ht'
        cases ht'
      rcases h.rows ht' hrow with ⟨rt₀, hrt₀, hmem, -⟩ | ⟨_, _, ⟨⟩, _⟩
      exact (hguard.held t' rt₀ hne hrt₀ row hmem).resolve_right fun hin => hne (hok t' hin)

theorem Guarded.step (hg : s.Guarded acts) (hok : StoresAlone acts a) (hstep : s.step a = some s') :
    s'.Guarded (acts ++ [a]) := by
  have h := stepped hg.fresh hstep
  refine ⟨h.fresh hg.fresh, hg.rowsBelow_step h hok, fun t rt' b ht hnoted => ?_⟩
  rcases h.live t rt' ht with ⟨-, -, hnone⟩ | ⟨rt, hrt, hcommit, -, hknown⟩
  · exact absurd hnoted (hnone b)
  · rcases hknown b hnoted with hknew | ⟨rfl, rfl⟩
    · exact (hg.guards t rt b hrt hknew).step hg.fresh h hcommit
    · exact hg.below.guards h

end RowIdState

/-- **The frame of a rollback.**  In every run whose rollbacks store the noted value only if no other
transaction has been given ids since, except for those rolled back, all ids in use are below the
counter, and the next ones given out are fresh. -/
theorem rollback_frame (s : RowIdState) (acts : List RowIdAction)
    (h : rowIdSystem.logged.ReachableBy (fun p => StoresAlone p.2) (s, acts)) :
    s.RowsBelow ∧ ∀ count, ∀ row ∈ range' s.nextRowId count, ¬ s.InUse row := by
  have hguarded : s.Guarded acts := by
    refine h.invariant (I := fun p => p.1.Guarded p.2) ?_ ?_
    · rintro ⟨s, acts⟩ ⟨⟨n, rfl⟩, rfl⟩
      refine ⟨nofun, ?_, nofun⟩
      rintro row (hrow | ⟨t, rt, ht, -⟩)
      · exact mem_range.1 hrow
      · cases ht
    · rintro ⟨s, acts⟩ a p - hs hok hstep
      obtain ⟨s', hs', rfl⟩ := map_eq_some_iff.1 hstep
      exact hs.step hok hs'
  refine ⟨hguarded.below, fun count row hrow huse => ?_⟩
  exact absurd (hguarded.below row huse) (not_lt.2 (mem_range'_1.1 hrow).1)

/-- A CREATE of one row by transaction `t`. -/
def createRow (t : ℕ) : List RowIdAction :=
  [.loadNextRowId t, .noteTableWrite t, .reserveRows t 1 true]

/-- A rollback of transaction `t` that finds no writer active. -/
def rollbackAlone (t : ℕ) : List RowIdAction :=
  [.rollbackDiscard t, .rollbackCheck t, .rollbackStore t]

/-- Transactions 1 and 2 create a row each.  Transaction 2 is rolled back while 1 is active, so that a
transaction 3 tombstones its row; then 1 is rolled back and finds no writer active.  Transactions 4
and 5 create rows, and 4 commits. -/
def rollbacksInTurn : List RowIdAction :=
  .begin :: createRow 1 ++ .begin :: createRow 2 ++ [.rollbackDiscard 2, .rollbackCheck 2, .commit 3] ++
    rollbackAlone 1 ++ .begin :: createRow 4 ++ .begin :: createRow 5 ++ [.commit 4]

/-- The row of transaction 4 is committed and that of transaction 5 still held. -/
theorem rollback_frame_in_turn :
    ∃ p, rowIdSystem.logged.execIf (fun p a => decide (StoresAlone p.2 a)) (.opened 0, [])
        rollbacksInTurn = some p ∧
      p.1.committed = [0] ∧ (p.1.live.lookup 5).map RowIdTx.rows = some [1] ∧
      p.1.RowsBelow ∧ ∀ count, ∀ row ∈ range' p.1.nextRowId count, ¬ p.1.InUse row := by
  have hobs : ((rowIdSystem.logged.execIf (fun p a => decide (StoresAlone p.2 a)) (.opened 0, [])
      rollbacksInTurn).map fun p => (p.1.committed, (p.1.live.lookup 5).map RowIdTx.rows)) =
      some ([0], some [1]) := by
    decide +kernel
  obtain ⟨p, hrun, hp⟩ := map_eq_some_iff.1 hobs
  rw [Prod.mk.injEq] at hp
  have hinit : rowIdSystem.logged.ReachableBy (fun p => StoresAlone p.2) (.opened 0, []) :=
    .init ⟨⟨0, rfl⟩, rfl⟩
  have hreach := hinit.execIf (fun p a _ hcheck => of_decide_eq_true hcheck) hrun
  exact ⟨p, hrun, hp.1, hp.2, rollback_frame p.1 p.2 hreach⟩

/-- Transaction 1 notes the counter at 0 and takes row 0.  Transaction 2 takes row 1 and commits it
before transaction 1 is rolled back; or it begins and takes row 1 between the look of transaction 1
at `active_tx_ids` and the store. -/
def loweringRuns : List (List RowIdAction) :=
  [.begin :: createRow 1 ++ .begin :: createRow 2 ++ .commit 2 :: rollbackAlone 1,
   .begin :: createRow 1 ++ [.rollbackDiscard 1, .rollbackCheck 1, .begin] ++ createRow 2 ++
     [.rollbackStore 1]]

/-- **A row id given out twice.**  After each of the runs the counter is 0 while row 1 is in use; two
more rows bring it back to 2, and the second of them has the id of that row. -/
theorem rollback_reuses_row_id : loweringRuns ≠ [] ∧
    ∀ run ∈ loweringRuns, ∃ s, rowIdSystem.exec (.opened 0) run = some s ∧
      rowIdSystem.Reachable s ∧ s.nextRowId = 0 ∧ s.InUse 1 ∧ ¬ s.RowsBelow ∧
      (rowIdSystem.exec s (.begin :: createRow 3 ++ createRow 3)).map
        (fun s => (s.live.lookup 3).map RowIdTx.rows) = some (some [0, 1]) := by
  refine ⟨cons_ne_nil _ _, fun run hmem => ?_⟩
  have hobs : ∀ run ∈ loweringRuns, ((rowIdSystem.exec (.opened 0) run).map fun s =>
      (s.nextRowId, decide (1 ∈ s.committed) ||
        ((s.live.lookup 2).map RowIdTx.rows == some [1]),
        (rowIdSystem.exec s (.begin :: createRow 3 ++ createRow 3)).map
          (fun s => (s.live.lookup 3).map RowIdTx.rows))) = some (0, true, some (some [0, 1])) := by
    decide +kernel
  have hobs := hobs run hmem
  cases hrun : rowIdSystem.exec (.opened 0) run with
  | none =>
    rw [hrun] at hobs
    cases hobs
  | some s =>
    rw [hrun, map_some, some.injEq, Prod.mk.injEq, Prod.mk.injEq] at hobs
    obtain ⟨hnext, huse, hagain⟩ := hobs
    have hinit : rowIdSystem.Reachable (.opened 0) := .init ⟨0, rfl⟩
    have huse : s.InUse 1 := by
      rcases Bool.or_eq_true_iff.1 huse with hmem | hlive
      · exact .inl (of_decide_eq_true hmem)
      · obtain ⟨rt, hrt, hrows⟩ := map_eq_some_iff.1 (eq_of_beq hlive)
        exact .inr ⟨2, rt, hrt, by rw [hrows]; exact mem_singleton_self 1⟩
    refine ⟨s, rfl, hinit.exec hrun, hnext, huse, ?_, hagain⟩
    intro hbelow
    have hlt := hbelow 1 huse
    omega

end LightningDB
