import Mathlib.Algebra.Order.Ring.Nat
import Mathlib.Data.Finset.Insert

/-!
# UNION

`PhysicalUnion`: the chunks of the left input, then those of the right.  Without `ALL` a row is kept
unless an equal one has been.  Rows are compared as what `Value::from_arrow` makes of their cells: by
their hash, and where that was seen before, with the rows kept under it.  Nothing is asked of the hash.

`Value` has one kind of number, an `f64`, and an integer is rounded to it.  Two rows that differ in an
integer beyond `2^53` may be one row to the union (`union_rows_iff`).
-/

namespace LightningDB.Union

open Function List

/-! ## Rows -/

mutual
/-- An entry of an arrow array, by the type of the array. -/
inductive ArrowCell where
  | null
  | utf8 (s : String)
  | float64 (bits : UInt64)
  | boolean (b : Bool)
  | uint64 (n : UInt64)
  | int64 (n : Int64)
  | int32 (n : Int32)
  | date32 (days : Int32)
  | timestamp (micros : Int64)
  | list (entries : ArrowCells)
  | struct (fields : ArrowCells)
  /-- An entry of an array of any other type. -/
  | other (dataType printed : String)
deriving DecidableEq
/-- The entries of a list, or the fields of a struct by their names. -/
inductive ArrowCells where
  | nil
  | cons (name : String) (cell : ArrowCell) (cells : ArrowCells)
deriving DecidableEq
end

mutual
/-- `Value`, as far as `from_arrow` makes values; a number goes by its bits. -/
inductive RowValue where
  | null
  | string (s : String)
  | number (bits : UInt64)
  | boolean (b : Bool)
  | node (id : UInt64)
  | date (days : Int32)
  | timestamp (micros : Int64)
  | list (entries : RowValues)
  | struct (fields : RowValues)
deriving DecidableEq
/-- The entries of a list, or the fields of a struct by their names. -/
inductive RowValues where
  | nil
  | cons (name : String) (value : RowValue) (values : RowValues)
deriving DecidableEq
end

/-- The bits of `n as f64`, for an integer of at most 64 bits: the nearest number, and of two the one
with an even mantissa. -/
def f64OfInt (n : ℤ) : UInt64 :=
  let a := n.natAbs
  if a = 0 then 0
  else
    let e := Nat.log2 a
    let shift := e - 52
    let q := a * 2 ^ (52 - e) / 2 ^ shift
    let r := a % 2 ^ shift
    let mantissa :=
      if 2 ^ shift < 2 * r ∨ 2 * r = 2 ^ shift ∧ 0 < r ∧ q % 2 = 1 then q + 1 else q
    -- a mantissa of `2^53` carries into the exponent
    .ofNat ((if n < 0 then 2 ^ 63 else 0) + (e + 1022) * 2 ^ 52 + mantissa)

mutual
/-- `Value::from_arrow`. -/
def fromArrow : ArrowCell → RowValue
  | .null => .null
  | .utf8 s => .string s
  | .float64 bits => .number bits
  | .boolean b => .boolean b
  | .uint64 n => .node n
  | .int64 n => .number (f64OfInt n.toInt)
  | .int32 n => .number (f64OfInt n.toInt)
  | .date32 days => .date days
  | .timestamp micros => .timestamp micros
  | .list entries => .list (fromArrows entries)
  | .struct fields => .struct (fromArrows fields)
  | .other _ _ => .null
/-- `from_arrow` of the entries of a list or the fields of a struct. -/
def fromArrows : ArrowCells → RowValues
  | .nil => .nil
  | .cons name cell cells => .cons name (fromArrow cell) (fromArrows cells)
end

/-! ## The operator -/

variable {α ρ : Type} [DecidableEq ρ]

/-- `SharedUnionState`. -/
structure SharedUnionState (ρ : Type) where
  seenHashes : Finset UInt64
  collisionRows : UInt64 → List ρ

/-- `PhysicalUnion`, with the conversion and the hash of a row. -/
structure PhysicalUnion (α ρ : Type) where
  isAll : Bool
  fromArrow : α → ρ
  hash : ρ → UInt64

namespace PhysicalUnion

variable (u : PhysicalUnion α ρ)

/-- A row of `deduplicate`: whether its index is kept. -/
def visit (st : SharedUnionState ρ) (row : ρ) : Bool × SharedUnionState ρ :=
  let hash := u.hash row
  let pushed := update st.collisionRows hash (st.collisionRows hash ++ [row])
  if hash ∉ st.seenHashes then (true, ⟨insert hash st.seenHashes, pushed⟩)
  else if (st.collisionRows hash).any (· = row) then (false, st)
  else (true, { st with collisionRows := pushed })

/-- The loop of `deduplicate`: the rows at `filtered_indices`. -/
def filtered : SharedUnionState ρ → List α → List α × SharedUnionState ρ
  | st, [] => ([], st)
  | st, a :: rows =>
    let (new, st) := u.visit st (u.fromArrow a)
    let (rest, st) := filtered st rows
    (if new then a :: rest else rest, st)

/-- `deduplicate`. -/
def deduplicate (st : SharedUnionState ρ) (chunk : List α) : Option (List α) × SharedUnionState ρ :=
  let (rows, st) := u.filtered st chunk
  (if rows.isEmpty then none else if rows.length = chunk.length then chunk else rows, st)

/-- `get_next` for the chunks of one input: a chunk that gives no rows is passed over. -/
def pull : SharedUnionState ρ → List (List α) → List (List α) × SharedUnionState ρ
  | st, [] => ([], st)
  | st, chunk :: chunks =>
    let (out, st) := if u.isAll then (some chunk, st) else u.deduplicate st chunk
    let (rest, st) := pull st chunks
    (out.toList ++ rest, st)

/-- `get_next`, until it returns `None`. -/
def drain (left right : List (List α)) : List (List α) :=
  let out := u.pull ⟨∅, fun _ => []⟩ left
  out.1 ++ (u.pull out.2 right).1

/-- The state knows the rows met: no hash of them is new, and each is among those of its hash. -/
structure Knows (st : SharedUnionState ρ) (met : List ρ) : Prop where
  seen : ∀ row ∈ met, u.hash row ∈ st.seenHashes
  rows : ∀ row, row ∈ st.collisionRows (u.hash row) ↔ row ∈ met

variable {u} {st : SharedUnionState ρ} {met : List ρ}

omit [DecidableEq ρ] in
lemma Knows.push (h : u.Knows st met) (row : ρ) : u.Knows ⟨insert (u.hash row) st.seenHashes,
      update st.collisionRows (u.hash row) (st.collisionRows (u.hash row) ++ [row])⟩ (row :: met) where
  seen := by simpa using fun r hr => .inr (h.seen r hr)
  rows r := by
    by_cases hr : u.hash r = u.hash row
    · simp [hr, ← h.rows r, or_comm]
    · have hne : r ≠ row := fun e => hr (e ▸ rfl)
      simp [hr, hne, h.rows r]

lemma visit_spec (h : u.Knows st met) (row : ρ) :
    (u.visit st row).1 = decide (row ∉ met) ∧ u.Knows (u.visit st row).2 (row :: met) := by
  rw [visit]
  split
  next hnew =>
    have hmet : row ∉ met := fun hr => hnew (h.seen row hr)
    exact ⟨by simp [hmet], h.push row⟩
  next hseen =>
    split
    next hdup =>
      have hmet : row ∈ met := (h.rows row).1 (by simpa using hdup)
      exact ⟨by simp [hmet], fun r hr => h.seen r (by grind), by grind [h.rows]⟩
    next hdup =>
      have hmet : row ∉ met := fun hr => hdup (by simpa using (h.rows row).2 hr)
      exact ⟨by simp [hmet], by simpa [not_not.1 hseen] using h.push row⟩

/-- What the loop keeps: of the rows not met before, the first of each. -/
lemma filtered_fst (h : u.Knows st met) (rows : List α) : (u.filtered st rows).1 =
    (rows.filter (u.fromArrow · ∉ met)).eraseDupsBy (u.fromArrow · = u.fromArrow ·) := by
  induction rows generalizing st met with
  | nil => rfl
  | cons a rows ih =>
    obtain ⟨hnew, hknows⟩ := visit_spec h (u.fromArrow a)
    simp only [filtered, ih hknows, hnew, filter_cons]
    by_cases ha : u.fromArrow a ∈ met
    · have hmet : ∀ row, row ∈ u.fromArrow a :: met ↔ row ∈ met := by grind
      simp [ha, hmet]
    · simp [ha, eraseDupsBy_cons, filter_filter]

variable (st)

lemma filtered_append (rows rows' : List α) :
    u.filtered st (rows ++ rows') = ((u.filtered st rows).1 ++
      (u.filtered (u.filtered st rows).2 rows').1, (u.filtered (u.filtered st rows).2 rows').2) := by
  induction rows generalizing st with
  | nil => rfl
  | cons a rows ih =>
    simp only [cons_append, filtered, ih]
    split <;> rfl

lemma filtered_sublist (rows : List α) : (u.filtered st rows).1 <+ rows := by
  induction rows generalizing st with
  | nil => exact .slnil
  | cons a rows ih =>
    rw [filtered]
    dsimp only
    split
    · exact (ih _).cons_cons a
    · exact (ih _).cons a

lemma deduplicate_eq (chunk : List α) :
    (u.deduplicate st chunk).1.toList.flatten = (u.filtered st chunk).1 := by
  rw [deduplicate]
  dsimp only
  split
  · simp_all
  · split
    · simp [(filtered_sublist st chunk).eq_of_length (by assumption)]
    · simp

variable {st}

lemma pull_eq (hall : u.isAll = false) (st : SharedUnionState ρ) (chunks : List (List α)) :
    (u.pull st chunks).1.flatten = (u.filtered st chunks.flatten).1 ∧
      (u.pull st chunks).2 = (u.filtered st chunks.flatten).2 := by
  induction chunks generalizing st with
  | nil => exact ⟨rfl, rfl⟩
  | cons chunk chunks ih =>
    simp only [pull, hall, flatten_cons, flatten_append, filtered_append]
    exact ⟨by simp [deduplicate_eq, ih]; rfl, by simp [ih]; rfl⟩

lemma pull_all (hall : u.isAll = true) (st : SharedUnionState ρ) (chunks : List (List α)) :
    (u.pull st chunks).1 = chunks := by
  induction chunks generalizing st with
  | nil => rfl
  | cons chunk chunks ih => simp [pull, hall, ih]

end PhysicalUnion

open PhysicalUnion in
/-- The rows of a union, compared as they are converted. -/
lemma flatten_drain (u : PhysicalUnion α ρ) (left right : List (List α)) :
    (u.drain left right).flatten =
      if u.isAll then (left ++ right).flatten
      else (left ++ right).flatten.eraseDupsBy (u.fromArrow · = u.fromArrow ·) := by
  rw [drain]
  split
  · simp [pull_all, *]
  next hall =>
    rw [Bool.not_eq_true] at hall
    have hnew : u.Knows ⟨∅, fun _ => []⟩ [] := ⟨nofun, by simp⟩
    have hrows := filtered_fst hnew (left.flatten ++ right.flatten)
    rw [filtered_append, filter_eq_self.2 (by simp)] at hrows
    simpa [pull_eq hall] using hrows

/-! ## Rows that are told apart -/

/-- Induction along the recursion of `eraseDupsBy`, which goes on with a part of the list. -/
lemma filter_induction {motive : List α → Prop} (p : α → α → Bool) (nil : motive [])
    (cons : ∀ a rows, motive (rows.filter (p a)) → motive (a :: rows)) (rows : List α) :
    motive rows := by
  generalize hn : rows.length = n
  induction n using Nat.strong_induction_on generalizing rows with
  | _ n ih =>
    cases rows with
    | nil => exact nil
    | cons a rows =>
      refine cons a rows (ih _ ?_ _ rfl)
      rw [← hn]
      exact Nat.lt_succ_of_le (length_filter_le _ _)

variable (f : α → ρ)

lemma mem_of_mem_eraseDupsBy {a : α} {rows : List α}
    (h : a ∈ rows.eraseDupsBy (f · = f ·)) : a ∈ rows := by
  induction rows using filter_induction fun b c => decide (f c = f b) = false with
  | nil => exact h
  | cons b rows ih =>
    rw [eraseDupsBy_cons, mem_cons] at h
    rcases h with rfl | h
    · exact mem_cons_self
    · exact mem_cons_of_mem b (mem_of_mem_filter (ih h))

/-- No two of the rows that are kept are converted alike. -/
lemma eq_of_mem_eraseDupsBy {a b : α} {rows : List α} (ha : a ∈ rows.eraseDupsBy (f · = f ·))
    (hb : b ∈ rows.eraseDupsBy (f · = f ·)) (hf : f a = f b) : a = b := by
  induction rows using filter_induction fun c x => decide (f x = f c) = false with
  | nil => cases ha
  | cons c rows ih =>
    -- what is kept after `c` is not converted like it
    have hrest : ∀ x ∈ (rows.filter fun x => decide (f x = f c) = false).eraseDupsBy (f · = f ·),
        f x ≠ f c := by
      intro x hx
      simpa using (mem_filter.1 (mem_of_mem_eraseDupsBy f hx)).2
    rw [eraseDupsBy_cons, mem_cons] at ha hb
    rcases ha with rfl | ha <;> rcases hb with rfl | hb
    · rfl
    · exact absurd hf.symm (hrest b hb)
    · exact absurd hf (hrest a ha)
    · exact ih ha hb

lemma eraseDupsBy_eq_eraseDups_iff [BEq α] [LawfulBEq α] (rows : List α) :
    rows.eraseDupsBy (f · = f ·) = rows.eraseDups ↔ ∀ a ∈ rows, ∀ b ∈ rows, f a = f b → a = b := by
  constructor
  · intro heq a ha b hb hf
    rw [← mem_eraseDups, ← heq] at ha hb
    exact eq_of_mem_eraseDupsBy f ha hb hf
  · intro hinj
    induction rows using filter_induction fun a b : α => !b == a with
    | nil => rfl
    | cons a rows ih =>
      have hkeep : (rows.filter fun b => decide (f b = f a) = false) =
          rows.filter fun b => !b == a := by
        refine filter_congr fun b hb => ?_
        have hiff : f b = f a ↔ b = a :=
          ⟨hinj b (mem_cons_of_mem a hb) a mem_cons_self, fun h => h ▸ rfl⟩
        by_cases hba : b = a <;> simp [hiff, hba]
      rw [eraseDupsBy_cons, eraseDups_cons, hkeep, ih fun b hb c hc =>
        hinj b (mem_cons_of_mem a (mem_of_mem_filter hb)) c
          (mem_cons_of_mem a (mem_of_mem_filter hc))]

/-- `PhysicalUnion` over rows of cells. -/
def ofRows (isAll : Bool) (hash : List RowValue → UInt64) :
    PhysicalUnion (List ArrowCell) (List RowValue) :=
  ⟨isAll, (·.map fromArrow), hash⟩

/-- **The rows of a union**, for inputs of any chunks: with `ALL` all of them, and without it the first
of each, exactly if no two different rows are converted alike. -/
theorem union_rows_iff (isAll : Bool) (hash : List RowValue → UInt64)
    (left right : List (List (List ArrowCell))) :
    ((ofRows isAll hash).drain left right).flatten =
        (if isAll then (left ++ right).flatten else (left ++ right).flatten.eraseDups) ↔
      (isAll = false → ∀ a ∈ (left ++ right).flatten, ∀ b ∈ (left ++ right).flatten,
        a.map fromArrow = b.map fromArrow → a = b) := by
  rw [flatten_drain]
  cases isAll with
  | true => simp [ofRows]
  | false =>
    refine Iff.trans ?_ ⟨fun h _ => h, fun h => h rfl⟩
    exact eraseDupsBy_eq_eraseDups_iff (·.map fromArrow) (left ++ right).flatten

/-- The integers `2^53` and `2^53 + 1` are one number to the union. -/
theorem union_drops_integer :
    ((ofRows false fun _ => 0).drain [[[.int64 9007199254740992]]] [[[.int64 9007199254740993]]]).flatten ≠
      [[.int64 9007199254740992], [.int64 9007199254740993]].eraseDups := by
  decide +kernel

end LightningDB.Union
