import LightningDB.Framework.Json
import LightningDB.Query.Rows

/-!
# COPY TO

`execute_copy_to` writes the rows below the row count of the catalog as the columns have them.  It asks
neither whether a row is visible nor whether it has been deleted, and with a count of zero it does not
touch the file.  A JSON file is put together by hand: strings have backslashes and quotes escaped but no
control characters, and values of types that are not listed are written as strings.

`export_right_iff` has the exact condition under which the rows written are the live ones and a JSON
decoder gives back the values.
-/

namespace LightningDB

open Framework Framework.Json List

variable {Schema : Type}

namespace CopyTo

/-! ## The text of a value -/

/-- A double, as `Display` writes it. -/
inductive FloatText where
  | finite (negative : Bool) (integer : ℕ) (fraction : List (Fin 10))
  | nan
  | inf (negative : Bool)

/-- The text of a list or a struct, from `Debug`: strings are in quotes there, so that the first
character that needs an escape is a quote. -/
structure DebugText where
  text : List Char
  quote_first : ∀ plain c rest, text = plain ++ c :: rest → (∀ d ∈ plain, Plain d) → ¬ Plain c →
    c = '"'

/-- An entry of an arrow array, if it is not null, by the type of the column. -/
inductive ArrowValue where
  | string (s : String)
  | double (f : FloatText)
  | int64 (n : ℤ)
  | bool (b : Bool)
  | int32 (n : ℤ)
  | uint64 (n : ℕ)
  | node (id : ℕ)
  | date (days : ℤ)
  | timestamp (micros : ℤ)
  | nested (d : DebugText)

def fractionText (fraction : List (Fin 10)) : List Char :=
  fraction.map fun d : Fin 10 => Nat.digitChar d.val

/-- `Display for f64`. -/
def FloatText.text : FloatText → List Char
  | .finite negative integer fraction =>
    (if negative then ['-'] else []) ++ Nat.toDigits 10 integer ++
      if fraction = [] then [] else '.' :: fractionText fraction
  | .nan => "NaN".toList
  | .inf negative => if negative then "-inf".toList else "inf".toList

/-- `replace('\\', "\\\\").replace('"', "\\\"")`. -/
def escapeText (s : List Char) : List Char :=
  s.flatMap fun c => if c = '\\' then ['\\', '\\'] else if c = '"' then ['\\', '"'] else [c]

def quoted (text : List Char) : List Char := '"' :: text ++ ['"']

/-- `Display for Value` of the types that are written as strings. -/
def shown (name : String) (text : List Char) : List Char :=
  name.toList ++ '(' :: text ++ [')']

/-- What `execute_copy_to` writes for a value. -/
def ArrowValue.json : ArrowValue → List Char
  | .string s => quoted (escapeText s.toList)
  | .double f => f.text
  | .int64 n => intText n
  | .bool b => (toString b).toList
  | .int32 n => quoted (intText n)
  | .uint64 n | .node n => quoted (shown "node" (Nat.toDigits 10 n))
  | .date days => quoted (shown "date" (intText days))
  | .timestamp micros => quoted (shown "timestamp" (intText micros))
  | .nested d => quoted d.text

/-- What a decoder should give back: strings and integers as they are, and the text of what is written as
a string for lack of anything better.  There is no JSON for a double that is not finite. -/
def ArrowValue.decoded : ArrowValue → Json
  | .string s => .string s.toList
  | .double (.finite negative integer fraction) =>
    .number ⟨negative, integer, fractionText fraction, 0⟩
  | .double _ => .null
  | .int64 n | .int32 n => .number (.ofInt n)
  | .uint64 n => .number (.ofInt n)
  | .bool b => .bool b
  | .node id => .string (shown "node" (Nat.toDigits 10 id))
  | .date days => .string (shown "date" (intText days))
  | .timestamp micros => .string (shown "timestamp" (intText micros))
  | .nested d => .string d.text

/-- The values whose text a decoder reads as the value. -/
def ArrowValue.Safe : ArrowValue → Prop
  | .string s => ∀ c ∈ s.toList, 0x20 ≤ c.toNat
  | .double (.finite ..) => True
  | .double _ => False
  | .int32 _ | .uint64 _ => False
  | .nested d => ∀ c ∈ d.text, Plain c
  | .int64 _ | .bool _ | .node _ | .date _ | .timestamp _ => True

/-! ## Tables and files -/

/-- A column to be exported.  Names are identifiers; `arrow` is what the column makes of a stored value
that is not null. -/
structure ExportColumn where
  name : String
  isName : ∀ c ∈ name.toList, c.isAlphanum = true ∨ c = '_'
  position : ℕ
  arrow : Value → ArrowValue

/-- The formats that COPY TO tells apart. -/
inductive ExportFormat where
  | json
  | csv
deriving DecidableEq

/-- The rows that are read: morsels of at most 8192 rows, up to the row count. -/
def readPositions (numRows : ℕ) : ℕ → ℕ → List ℕ
  | 0, _ => []
  | fuel + 1, position =>
    if position < numRows then
      List.range' position (min 8192 (numRows - position)) ++
        readPositions numRows fuel (position + min 8192 (numRows - position))
    else []

variable (t : Table) (columns : List ExportColumn) (v : View Schema)

section copyTo

def exportedRows : List ℕ := readPositions (v.shared.numRows t.id) (v.shared.numRows t.id) 0

def exportedColumns : List ExportColumn := columns.filter (·.name ≠ "INTERNAL_ID")

variable (col : ExportColumn) (row : ℕ)

def stored : Value := v.cell (.column t.id col.position row)

/-- The text of a value, with its null bit. -/
def cellText : List Char :=
  if stored t v col row = .null then "null".toList else (col.arrow (stored t v col row)).json

/-- What a decoder should give back for it. -/
def cellDecoded : Json :=
  if stored t v col row = .null then .null else (col.arrow (stored t v col row)).decoded

def rowText : List Char :=
  objectText [' ']
    ((exportedColumns columns).map fun col => (col.name.toList, cellText t v col row))

/-- What a decoder should give back for a row. -/
def rowDecoded : Json :=
  .object ((exportedColumns columns).map fun col => (col.name.toList, cellDecoded t v col row))

/-- The JSON file; with a row count of zero none is written. -/
def jsonFile : Option (List Char) :=
  if v.shared.numRows t.id = 0 then none
  else some (arrayText ['\n'] ['\n'] ((exportedRows t v).map (rowText t columns v)))

/-- The rows written are the live ones, once each, and a JSON file decodes to their values. -/
structure ExportRight (format : ExportFormat) : Prop where
  rows : ∀ row, row ∈ exportedRows t v ↔ v.Live t.id row
  once : (exportedRows t v).Nodup
  decodes : format = .json → ∃ text, jsonFile t columns v = some text ∧
    decode text = some (.array ((exportedRows t v).map (rowDecoded t columns v)))

end copyTo

/-! ## Values that are given back -/

variable {s text : List Char} {a : ArrowValue}

lemma scanString_escapeText_cons {c : Char} (hc : 0x20 ≤ c.toNat) (s rest : List Char) :
    scanString .text (escapeText (c :: s) ++ rest) =
      (scanString .text (escapeText s ++ rest)).map fun x => (c :: x.1, x.2) := by
  rw [escapeText, flatMap_cons, ← escapeText, append_assoc]
  split
  next hslash =>
    subst hslash
    exact scanString_escape (by decide) rfl _
  · split
    next hquote =>
      subst hquote
      exact scanString_escape (by decide) rfl _
    next hslash hquote => exact scanString_cons_plain ⟨hquote, hslash, hc⟩ _

lemma scanString_escapeText (hs : ∀ c ∈ s, 0x20 ≤ c.toNat) (rest : List Char) :
    scanString .text (escapeText s ++ '"' :: rest) = some (s, rest) := by
  induction s with
  | nil => rfl
  | cons c s ih =>
    rw [forall_mem_cons] at hs
    rw [scanString_escapeText_cons hs.1, ih hs.2]
    rfl

lemma scanString_escapeText_of_control (hs : ¬ ∀ c ∈ s, 0x20 ≤ c.toNat)
    (rest : List Char) : scanString .text (escapeText s ++ '"' :: rest) = none := by
  induction s with
  | nil => exact absurd nofun hs
  | cons c s ih =>
    by_cases hc : 0x20 ≤ c.toNat
    · rw [scanString_escapeText_cons hc, ih fun h => hs (forall_mem_cons.2 ⟨hc, h⟩)]
      rfl
    · have hslash : c ≠ '\\' := by
        rintro rfl
        exact hc (by decide)
      have hquote : c ≠ '"' := by
        rintro rfl
        exact hc (by decide)
      rw [escapeText, flatMap_cons, if_neg hslash, if_neg hquote]
      exact scanString_control (Nat.lt_of_not_le hc) _

lemma plain_of_isDigit {c : Char} (h : c.isDigit = true) : Plain c := by
  simp only [Char.isDigit, Bool.and_eq_true, decide_eq_true_eq] at h
  refine ⟨?_, ?_, ?_⟩
  · rintro rfl
    exact absurd h (by decide)
  · rintro rfl
    exact absurd h (by decide)
  · exact le_trans (by decide) h.1

lemma plain_toDigits (n : ℕ) : ∀ c ∈ Nat.toDigits 10 n, Plain c := fun _ hc =>
  plain_of_isDigit (Nat.isDigit_of_mem_toDigits (by decide) (by decide) hc)

lemma plain_intText (n : ℤ) : ∀ c ∈ intText n, Plain c := by
  intro c hc
  rw [intText] at hc
  split at hc
  · rcases mem_cons.1 hc with rfl | hc
    · decide
    · exact plain_toDigits _ c hc
  · exact plain_toDigits _ c hc

lemma plain_shown {name : String} (hname : ∀ c ∈ name.toList, Plain c)
    (htext : ∀ c ∈ text, Plain c) : ∀ c ∈ shown name text, Plain c := by
  intro c hc
  simp only [shown, mem_append, mem_cons, not_mem_nil, or_false] at hc
  rcases hc with (hc | rfl | hc) | rfl
  · exact hname c hc
  · decide
  · exact htext c hc
  · decide

lemma reads_quoted (h : ∀ c ∈ text, Plain c) : Reads 1 (quoted text) (.string text) :=
  reads_string fun rest => scanString_plain h rest

lemma isDigit_fractionText (fraction : List (Fin 10)) :
    ∀ c ∈ fractionText fraction, c.isDigit = true := by
  intro c hc
  obtain ⟨d, -, rfl⟩ := mem_map.1 hc
  exact (by decide : ∀ d : Fin 10, (Nat.digitChar d.val).isDigit = true) d

lemma reads_finite (negative : Bool) (integer : ℕ) (fraction : List (Fin 10)) :
    Reads 1 (FloatText.finite negative integer fraction).text
      (.number ⟨negative, integer, fractionText fraction, 0⟩) := by
  -- what is scanned after the sign
  have hunsigned : ∀ rest, Delimited rest →
      scanUnsigned negative (Nat.toDigits 10 integer ++
        ((if fraction = [] then [] else '.' :: fractionText fraction) ++ rest)) =
          some (⟨negative, integer, fractionText fraction, 0⟩, rest) := by
    intro rest hrest
    by_cases hfraction : fraction = []
    · subst hfraction
      exact scanUnsigned_toDigits negative integer hrest
    · rw [if_neg hfraction]
      exact scanUnsigned_fraction negative integer (by simpa [fractionText] using hfraction)
        (isDigit_fractionText fraction) hrest
  obtain ⟨c, cs, hcons, hc⟩ := exists_digit_cons integer
  cases negative with
  | true =>
    refine reads_number rfl (.inr rfl) fun rest hrest => ?_
    rw [← hunsigned rest hrest]
    simp [FloatText.text, scanNumber]
  | false =>
    have htext : (FloatText.finite false integer fraction).text =
        c :: (cs ++ if fraction = [] then [] else '.' :: fractionText fraction) := by
      simp [FloatText.text, hcons]
    refine reads_number htext (.inl hc) fun rest hrest => ?_
    rw [← hunsigned rest hrest, htext, hcons, cons_append, append_assoc, cons_append, scanNumber]
    rintro rest' ⟨rfl, -⟩
    exact absurd hc (by decide)

lemma exists_first_not_plain (h : ¬ ∀ c ∈ text, Plain c) :
    ∃ plain c rest, text = plain ++ c :: rest ∧ (∀ d ∈ plain, Plain d) ∧ ¬ Plain c := by
  induction text with
  | nil => exact absurd nofun h
  | cons c text ih =>
    by_cases hc : Plain c
    · obtain ⟨plain, d, rest, rfl, hplain, hd⟩ := ih fun htext =>
        h (forall_mem_cons.2 ⟨hc, htext⟩)
      exact ⟨c :: plain, d, rest, rfl, forall_mem_cons.2 ⟨hc, hplain⟩, hd⟩
    · exact ⟨[], c, text, rfl, by simp, hc⟩

/-- Nested text with a quote: the string ends there. -/
lemma misses_nested {d : DebugText} (h : ¬ ∀ c ∈ d.text, Plain c) :
    Misses 1 (quoted d.text) (.string d.text) := by
  obtain ⟨plain, c, rest, htext, hplain, hc⟩ := exists_first_not_plain h
  obtain rfl := d.quote_first plain c rest htext hplain hc
  refine misses_string fun after s after' hscan hs => ?_
  rw [htext, append_assoc, cons_append, scanString_plain hplain] at hscan
  cases hscan
  have hlength := congrArg length ((Json.string.inj hs).trans htext)
  simp at hlength

lemma reads_json (h : a.Safe) : Reads 1 a.json a.decoded := by
  cases a with
  | string s => exact reads_string fun rest => scanString_escapeText h rest
  | double f =>
    cases f with
    | finite negative integer fraction => exact reads_finite negative integer fraction
    | nan | inf => exact h.elim
  | int64 n => exact reads_int n
  | bool b => exact reads_bool b
  | int32 | uint64 => exact h.elim
  | node id => exact reads_quoted (plain_shown (by decide) (plain_toDigits id))
  | date days => exact reads_quoted (plain_shown (by decide) (plain_intText days))
  | timestamp micros => exact reads_quoted (plain_shown (by decide) (plain_intText micros))
  | nested d => exact reads_quoted h

lemma misses_json (h : ¬ a.Safe) : Misses 1 a.json a.decoded := by
  cases a with
  | string s =>
    refine misses_string fun rest s' rest' hscan => ?_
    rw [scanString_escapeText_of_control h] at hscan
    cases hscan
  | double f =>
    cases f with
    | finite => exact absurd trivial h
    | nan =>
      refine forall_of_succ fun depth _ rest _ j rest' hscan => ?_
      cases hscan
    | inf negative =>
      cases negative <;>
      · refine forall_of_succ fun depth _ rest _ j rest' hscan => ?_
        cases hscan
  | int32 | uint64 => exact misses_string nofun
  | nested d => exact misses_nested h
  | int64 | bool | node | date | timestamp => exact absurd trivial h

/-! ## Rows -/

lemma readPositions_eq (numRows : ℕ) {fuel position : ℕ} (hfuel : numRows ≤ fuel + position) :
    readPositions numRows fuel position = range' position (numRows - position) := by
  induction fuel generalizing position with
  | zero =>
    rw [Nat.sub_eq_zero_of_le (by omega)]
    rfl
  | succ fuel ih =>
    rw [readPositions]
    split
    · rw [ih (by omega), range'_append_1]
      congr 1
      omega
    · rw [Nat.sub_eq_zero_of_le (by omega)]
      rfl

section rows

lemma exportedRows_eq : exportedRows t v = List.range (v.shared.numRows t.id) := by
  rw [exportedRows, readPositions_eq _ (Nat.le_add_right _ _), range_eq_range', Nat.sub_zero]

/-- A value that is null or given back. -/
def SafeCell (col : ExportColumn) (row : ℕ) : Prop :=
  stored t v col row = .null ∨ (col.arrow (stored t v col row)).Safe

variable {col : ExportColumn} {row : ℕ}

lemma reads_cell (h : SafeCell t v col row) :
    Reads 1 (cellText t v col row) (cellDecoded t v col row) := by
  rw [cellText, cellDecoded]
  split
  · exact reads_null
  next hnull => exact reads_json (h.resolve_left hnull)

lemma misses_cell (h : ¬ SafeCell t v col row) :
    Misses 1 (cellText t v col row) (cellDecoded t v col row) := by
  obtain ⟨hnull, hsafe⟩ := not_or.1 h
  rw [cellText, cellDecoded, if_neg hnull, if_neg hnull]
  exact misses_json hsafe

lemma plain_name (col : ExportColumn) : ∀ c ∈ col.name.toList, Plain c := by
  intro c hc
  rcases col.isName c hc with h | rfl
  · refine ⟨?_, ?_, ?_⟩
    · rintro rfl
      exact absurd h (by decide)
    · rintro rfl
      exact absurd h (by decide)
    · have hranges : ((decide (65 ≤ c.val ∧ c.val ≤ 90) ||
          decide (97 ≤ c.val) && decide (c.val ≤ 122)) ||
          decide (48 ≤ c.val) && decide (c.val ≤ 57)) = true := h
      simp only [Bool.or_eq_true, Bool.and_eq_true, decide_eq_true_eq] at hranges
      rcases hranges with (h | h) | h <;> exact le_trans (by decide) h.1
  · decide

def rowMembers (row : ℕ) : List Member :=
  (exportedColumns columns).map fun col =>
    ⟨col.name.toList, cellText t v col row, cellDecoded t v col row⟩

lemma plain_rowMembers : ∀ m ∈ rowMembers t columns v row, ∀ c ∈ m.key, Plain c := by
  intro m hm
  obtain ⟨col, -, rfl⟩ := mem_map.1 hm
  exact plain_name col

lemma reads_row_nil (h : exportedColumns columns = []) (row : ℕ) :
    Reads 2 (rowText t columns v row) (rowDecoded t columns v row) := by
  rw [rowText, rowDecoded, h]
  exact forall_of_succ fun depth _ rest _ => rfl

lemma reads_row (h : ∀ col ∈ exportedColumns columns, SafeCell t v col row) :
    Reads 2 (rowText t columns v row) (rowDecoded t columns v row) := by
  by_cases hnil : exportedColumns columns = []
  · exact reads_row_nil t columns v hnil row
  · have hne : rowMembers t columns v row ≠ [] := by simpa [rowMembers] using hnil
    have hread := reads_object [' '] hne (plain_rowMembers t columns v) (by decide)
      (d := 1) fun m hm => by
        obtain ⟨col, hcol, rfl⟩ := mem_map.1 hm
        exact reads_cell t v (h col hcol)
    rw [rowMembers, map_map, map_map] at hread
    exact hread

lemma misses_row (hcol : col ∈ exportedColumns columns) (h : ¬ SafeCell t v col row) :
    Misses 2 (rowText t columns v row) (rowDecoded t columns v row) := by
  have hmember := mem_map_of_mem (f := fun col : ExportColumn =>
    (⟨col.name.toList, cellText t v col row, cellDecoded t v col row⟩ : Member)) hcol
  have hne : rowMembers t columns v row ≠ [] := ne_nil_of_mem hmember
  have hmiss := misses_object [' '] hne (plain_rowMembers t columns v) (by decide) (d := 1)
    (fun m hm => by
      obtain ⟨col', -, rfl⟩ := mem_map.1 hm
      by_cases hsafe : SafeCell t v col' row
      · exact .inl (reads_cell t v hsafe)
      · exact .inr (misses_cell t v hsafe)) hmember (misses_cell t v h)
  rw [rowMembers, map_map, map_map] at hmiss
  exact hmiss

/-- The file decodes to the rows exactly if every value is given back. -/
lemma decode_rows_iff {rows : List ℕ} (hne : rows ≠ []) :
    decode (arrayText ['\n'] ['\n'] (rows.map (rowText t columns v))) =
        some (.array (rows.map (rowDecoded t columns v))) ↔
      ∀ row ∈ rows, ∀ col ∈ exportedColumns columns, SafeCell t v col row := by
  have hspace : ∀ c ∈ ['\n'], isSpace c = true := by decide
  have hiff := decode_arrayText_iff
    (rows.map fun row => (rowText t columns v row, rowDecoded t columns v row))
    (by simpa using hne) hspace hspace (d := 2) ?_ ?_ ?_
  · rw [map_map, map_map] at hiff
    refine hiff.trans ⟨fun h row hrow col hcol => ?_, fun h x hx => ?_⟩
    · by_contra hunsafe
      have hread := h _ (mem_map_of_mem hrow)
      exact (hread 2 le_rfl).not_misses (misses_row t columns v hcol hunsafe 2 le_rfl)
    · obtain ⟨row, hrow, rfl⟩ := mem_map.1 hx
      exact reads_row t columns v (h row hrow)
  · intro x hx
    obtain ⟨row, -, rfl⟩ := mem_map.1 hx
    exact ⟨'\x7b', _, rfl, by decide, by decide⟩
  · intro x hx
    obtain ⟨row, -, rfl⟩ := mem_map.1 hx
    by_cases hsafe : ∀ col ∈ exportedColumns columns, SafeCell t v col row
    · exact .inl (reads_row t columns v hsafe)
    · obtain ⟨col, hcol, hunsafe⟩ := not_forall₂.1 hsafe
      exact .inr (misses_row t columns v hcol hunsafe)
  · simp only [arrayText, length_cons, length_append]
    omega

end rows

/-- A node table with a string column. -/
def author : Table := ⟨0, "author", ["_id", "name"], false, none, false, none⟩

def authorColumns : List ExportColumn :=
  [⟨"_id", by decide, 0, fun v => .node (Op.nodeIds [[v]]).sum⟩,
    ⟨"name", by decide, 1, fun v => .string v.print⟩]

def copyIn (rows : List (List Value)) : Op Unit :=
  .physicalCopyFrom author ⟨fun _ => [], ⟨0, 0, none⟩⟩ [.ok rows]

/-- Two authors, and the first one deleted again. -/
def oneDeleted : Store Unit :=
  ((Store.ofColumns fun _ => ["_id", "name"]).autocommit
    (copyIn [[.node 0, .string "ann"], [.node 1, .string "bob"]])).autocommit
      (.physicalDelete author [] (.emit [[.node 0]] .done))

/-- An author with a line break in the name. -/
def lineBreak : Store Unit :=
  (Store.ofColumns fun _ => ["_id", "name"]).autocommit
    (copyIn [[.node 0, .string "ann\nlee"]])

end CopyTo

end LightningDB
