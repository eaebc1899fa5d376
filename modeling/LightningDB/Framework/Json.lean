import Mathlib.Data.List.Basic
import Mathlib.Data.Nat.Basic
import Mathlib.Tactic.Common

/-!
# JSON texts

A decoder for JSON texts, after their standard grammar: strings without raw control characters, with the
escapes and surrogate pairs; numbers without leading zeros; and white space around structure.

A text that is to become part of an array or an object is judged on its own: it either *reads* as a value,
whatever follows, or it *misses* the value, whatever follows (`Reads`, `Misses`).  A list of such texts
reads as the list of values exactly if each of them reads (`decode_arrayText_iff`).
-/

namespace Framework

open List Option

/-- A number, by its parts: sign, integer, digits of the fraction, exponent. -/
structure JsonNumber where
  negative : Bool
  integer : ℕ
  fraction : List Char
  exponent : ℤ
deriving DecidableEq

/-- A decoded JSON text. -/
inductive Json where
  | null
  | bool (b : Bool)
  | number (n : JsonNumber)
  | string (s : List Char)
  | array (items : List Json)
  | object (members : List (List Char × Json))

def JsonNumber.ofInt (n : ℤ) : JsonNumber := ⟨decide (n < 0), n.natAbs, [], 0⟩

namespace Json

/-! ## The decoder -/

/-- White space of JSON. -/
def isSpace (c : Char) : Bool := c = ' ' || c = '\t' || c = '\n' || c = '\r'

/-- Leave out white space. -/
def skipSpace (input : List Char) : List Char := input.dropWhile isSpace

/-- Where the scanner of a string is: in its text, after a backslash, in the digits of a code unit, or
between the halves of a surrogate pair.  The last three know the first half, if there is one. -/
inductive StringState where
  | text
  | escape (high : Option ℕ)
  | unit (high : Option ℕ) (value count : ℕ)
  | pair (high : ℕ)

inductive StringStep where
  | fail
  | close
  | emit (c : Char)
  | go (state : StringState)

def escaped : Char → Option Char
  | '"' => some '"'
  | '\\' => some '\\'
  | '/' => some '/'
  | 'b' => some '\x08'
  | 'f' => some '\x0c'
  | 'n' => some '\n'
  | 'r' => some '\r'
  | 't' => some '\t'
  | _ => none

/-- The value of a hexadecimal digit. -/
def hexDigit (c : Char) : Option ℕ :=
  if '0' ≤ c ∧ c ≤ '9' then some (c.toNat - '0'.toNat)
  else if 'a' ≤ c ∧ c ≤ 'f' then some (c.toNat - 'a'.toNat + 10)
  else if 'A' ≤ c ∧ c ≤ 'F' then some (c.toNat - 'A'.toNat + 10)
  else none

/-- The end of a code unit. -/
def unitStep (high : Option ℕ) (value : ℕ) : StringStep :=
  match high with
  | none =>
    if 0xd800 ≤ value ∧ value < 0xdc00 then .go (.pair value)
    else if 0xdc00 ≤ value ∧ value < 0xe000 then .fail
    else .emit (Char.ofNat value)
  | some high =>
    if 0xdc00 ≤ value ∧ value < 0xe000 then
      .emit (Char.ofNat (0x10000 + (high - 0xd800) * 0x400 + (value - 0xdc00)))
    else .fail

def StringState.step : StringState → Char → StringStep
  | .text, c =>
    if c = '"' then .close
    else if c = '\\' then .go (.escape none)
    else if c.toNat < 0x20 then .fail
    else .emit c
  | .pair high, c => if c = '\\' then .go (.escape (some high)) else .fail
  | .escape high, c =>
    if c = 'u' then .go (.unit high 0 0)
    else
      match high, escaped c with
      | none, some c => .emit c
      | _, _ => .fail
  | .unit high value count, c =>
    match hexDigit c with
    | none => .fail
    | some d =>
      if count < 3 then .go (.unit high (16 * value + d) (count + 1))
      else unitStep high (16 * value + d)

/-- The rest of a string, up to its closing quote. -/
def scanString : StringState → List Char → Option (List Char × List Char)
  | _, [] => none
  | state, c :: rest =>
    match state.step c with
    | .fail => none
    | .close => some ([], rest)
    | .emit c => (scanString .text rest).map fun x => (c :: x.1, x.2)
    | .go state => scanString state rest

/-- The digits at the beginning, and the rest. -/
def scanDigits (input : List Char) : List Char × List Char :=
  (input.takeWhile Char.isDigit, input.dropWhile Char.isDigit)

def digitsValue (digits : List Char) : ℕ := Nat.ofDigitChars 10 digits 0

/-- A sign, if there is one. -/
def scanSign : List Char → Bool × List Char
  | '-' :: rest => (true, rest)
  | '+' :: rest => (false, rest)
  | rest => (false, rest)

def scanExponent (n : JsonNumber) : List Char → Option (JsonNumber × List Char)
  | 'e' :: rest | 'E' :: rest =>
    let signed := scanSign rest
    let scanned := scanDigits signed.2
    if scanned.1 = [] then none
    else
      let value : ℤ := digitsValue scanned.1
      some ({ n with exponent := if signed.1 then -value else value }, scanned.2)
  | rest => some (n, rest)

/-- The fraction of a number, if there is one, and its exponent. -/
def scanFraction (n : JsonNumber) : List Char → Option (JsonNumber × List Char)
  | '.' :: rest =>
    let scanned := scanDigits rest
    if scanned.1 = [] then none else scanExponent { n with fraction := scanned.1 } scanned.2
  | rest => scanExponent n rest

def scanUnsigned (negative : Bool) (input : List Char) : Option (JsonNumber × List Char) :=
  let scanned := scanDigits input
  if scanned.1 = [] ∨ (scanned.1.head? = some '0' ∧ scanned.1 ≠ ['0']) then none
  else scanFraction ⟨negative, digitsValue scanned.1, [], 0⟩ scanned.2

def scanNumber : List Char → Option (JsonNumber × List Char)
  | '-' :: rest => scanUnsigned true rest
  | rest => scanUnsigned false rest

section lists

variable {α : Type}

/-- Items with commas between them, up to a closing character. -/
def scanList (item : List Char → Option (α × List Char)) (close : Char) :
    ℕ → List Char → Option (List α × List Char)
  | 0, _ => none
  | n + 1, input =>
    match item input with
    | none => none
    | some (a, rest) =>
      match skipSpace rest with
      | [] => none
      | c :: rest =>
        if c = ',' then (scanList item close n rest).map fun x => (a :: x.1, x.2)
        else if c = close then some ([a], rest)
        else none

def scanMember (value : List Char → Option (α × List Char)) (input : List Char) :
    Option ((List Char × α) × List Char) :=
  match skipSpace input with
  | '"' :: rest =>
    match scanString .text rest with
    | none => none
    | some (key, rest) =>
      match skipSpace rest with
      | ':' :: rest => (value rest).map fun x => ((key, x.1), x.2)
      | _ => none
  | _ => none

end lists

/-- An array after its opening bracket. -/
def scanArray (value : List Char → Option (Json × List Char)) (input : List Char) :
    Option (Json × List Char) :=
  match skipSpace input with
  | ']' :: rest => some (.array [], rest)
  | _ => (scanList value ']' input.length input).map fun x => (.array x.1, x.2)

/-- An object after its opening brace. -/
def scanObject (value : List Char → Option (Json × List Char)) (input : List Char) :
    Option (Json × List Char) :=
  match skipSpace input with
  | '}' :: rest => some (.object [], rest)
  | _ => (scanList (scanMember value) '}' input.length input).map fun x => (.object x.1, x.2)

/-- A value at the beginning of a text, and the rest; the depth is bounded. -/
def scanValue : ℕ → List Char → Option (Json × List Char)
  | 0, _ => none
  | depth + 1, input =>
    match skipSpace input with
    | 'n' :: 'u' :: 'l' :: 'l' :: rest => some (.null, rest)
    | 't' :: 'r' :: 'u' :: 'e' :: rest => some (.bool true, rest)
    | 'f' :: 'a' :: 'l' :: 's' :: 'e' :: rest => some (.bool false, rest)
    | '"' :: rest => (scanString .text rest).map fun x => (.string x.1, x.2)
    | '[' :: rest => scanArray (scanValue depth) rest
    | '{' :: rest => scanObject (scanValue depth) rest
    | rest => (scanNumber rest).map fun x => (.number x.1, x.2)

/-- The value of a whole text. -/
def decode (text : List Char) : Option Json :=
  match scanValue text.length text with
  | some (j, rest) => if skipSpace rest = [] then some j else none
  | none => none

/-! ## Strings -/

/-- The characters that stand for themselves in a string. -/
def Plain (c : Char) : Prop := c ≠ '"' ∧ c ≠ '\\' ∧ 0x20 ≤ c.toNat

instance (c : Char) : Decidable (Plain c) := inferInstanceAs (Decidable (_ ∧ _ ∧ _))

variable {c : Char} {rest : List Char}

lemma scanString_cons_plain (hc : Plain c) (rest : List Char) :
    scanString .text (c :: rest) = (scanString .text rest).map fun x => (c :: x.1, x.2) := by
  obtain ⟨hquote, hslash, hcontrol⟩ := hc
  simp [scanString, StringState.step, hquote, hslash, not_lt.2 hcontrol]

lemma scanString_escape {e : Char} (he : e ≠ 'u') (hc : escaped e = some c) (rest : List Char) :
    scanString .text ('\\' :: e :: rest) =
      (scanString .text rest).map fun x => (c :: x.1, x.2) := by
  simp [scanString, StringState.step, he, hc]

lemma scanString_control (hc : c.toNat < 0x20) (rest : List Char) :
    scanString .text (c :: rest) = none := by
  have hquote : c ≠ '"' := by
    rintro rfl
    exact absurd hc (by decide)
  have hslash : c ≠ '\\' := by
    rintro rfl
    exact absurd hc (by decide)
  simp [scanString, StringState.step, hquote, hslash, hc]

lemma scanString_plain {s : List Char} (hs : ∀ c ∈ s, Plain c) (rest : List Char) :
    scanString .text (s ++ '"' :: rest) = some (s, rest) := by
  induction s with
  | nil => rfl
  | cons c s ih =>
    rw [cons_append, scanString_cons_plain (hs c (.head _)), ih fun c hc => hs c (.tail _ hc)]
    rfl

/-! ## Numbers -/

/-- What may follow a number. -/
def Delimited (rest : List Char) : Prop :=
  ∀ c, rest.head? = some c → c.isDigit = false ∧ c ≠ '.' ∧ c ≠ 'e' ∧ c ≠ 'E'

/-- The decimal text of an integer. -/
def intText (n : ℤ) : List Char :=
  if n < 0 then '-' :: Nat.toDigits 10 n.natAbs else Nat.toDigits 10 n.natAbs

variable {digits : List Char}

lemma scanDigits_append (hdigits : ∀ c ∈ digits, c.isDigit = true)
    (hrest : ∀ c, rest.head? = some c → c.isDigit = false) :
    scanDigits (digits ++ rest) = (digits, rest) := by
  rw [scanDigits, takeWhile_append_of_pos hdigits, dropWhile_append_of_pos hdigits]
  cases rest with
  | nil => simp
  | cons c rest =>
    have hc := hrest c rfl
    simp [hc]

variable (n : ℕ)

lemma toDigits_head (h : (Nat.toDigits 10 n).head? = some '0') : Nat.toDigits 10 n = ['0'] := by
  induction n using Nat.strong_induction_on with
  | _ n ih =>
    rcases lt_or_ge n 10 with hlt | hge
    · rw [Nat.toDigits_of_lt_base hlt] at h ⊢
      rw [head?_cons, some.injEq] at h
      rw [h]
    · rw [Nat.toDigits_of_base_le (by decide) hge] at h
      rw [head?_append_of_ne_nil _ Nat.toDigits_ne_nil] at h
      have hzero := ih (n / 10) (Nat.div_lt_self (by omega) (by decide)) h
      have hvalue : Nat.ofDigitChars 10 (Nat.toDigits 10 (n / 10)) 0 = n / 10 :=
        Nat.ofDigitChars_toDigits (by decide) (by decide)
      rw [hzero] at hvalue
      have : n / 10 = 0 := hvalue.symm
      omega

lemma scanExponent_delimited (n : JsonNumber) (hrest : Delimited rest) :
    scanExponent n rest = some (n, rest) := by
  cases rest with
  | nil => rfl
  | cons c rest =>
    obtain ⟨-, -, he, hE⟩ := hrest c rfl
    rw [scanExponent]
    · simpa using he
    · simpa using hE

lemma digitsValue_toDigits : digitsValue (Nat.toDigits 10 n) = n :=
  Nat.ofDigitChars_toDigits (by decide) (by decide)

lemma toDigits_number : ¬ (Nat.toDigits 10 n = [] ∨
    ((Nat.toDigits 10 n).head? = some '0' ∧ Nat.toDigits 10 n ≠ ['0'])) := by
  rintro (h | ⟨h, hne⟩)
  · exact Nat.toDigits_ne_nil h
  · exact hne (toDigits_head n h)

lemma scanUnsigned_toDigits (negative : Bool) (n : ℕ) (hrest : Delimited rest) :
    scanUnsigned negative (Nat.toDigits 10 n ++ rest) = some (⟨negative, n, [], 0⟩, rest) := by
  have hdigits : scanDigits (Nat.toDigits 10 n ++ rest) = (Nat.toDigits 10 n, rest) :=
    scanDigits_append (fun c hc => Nat.isDigit_of_mem_toDigits (by decide) (by decide) hc)
      fun c hc => (hrest c hc).1
  rw [scanUnsigned, hdigits]
  rw [if_neg (toDigits_number n), digitsValue_toDigits, scanFraction]
  · exact scanExponent_delimited _ hrest
  · rintro rest' rfl
    exact (hrest '.' rfl).2.1 rfl

lemma scanUnsigned_fraction (negative : Bool) (n : ℕ) (hne : digits ≠ [])
    (hfraction : ∀ c ∈ digits, c.isDigit = true) (hrest : Delimited rest) :
    scanUnsigned negative (Nat.toDigits 10 n ++ '.' :: (digits ++ rest)) =
      some (⟨negative, n, digits, 0⟩, rest) := by
  have hdigits : scanDigits (Nat.toDigits 10 n ++ '.' :: (digits ++ rest)) =
      (Nat.toDigits 10 n, '.' :: (digits ++ rest)) :=
    scanDigits_append (fun c hc => Nat.isDigit_of_mem_toDigits (by decide) (by decide) hc) (by simp)
  rw [scanUnsigned, hdigits]
  rw [if_neg (toDigits_number n), digitsValue_toDigits, scanFraction,
    scanDigits_append hfraction fun c hc => (hrest c hc).1]
  rw [if_neg hne]
  exact scanExponent_delimited _ hrest

lemma exists_digit_cons : ∃ c cs, Nat.toDigits 10 n = c :: cs ∧ c.isDigit = true := by
  obtain ⟨c, cs, h⟩ := exists_cons_of_ne_nil (Nat.toDigits_ne_nil (n := n) (b := 10))
  refine ⟨c, cs, h, Nat.isDigit_of_mem_toDigits (b := 10) (n := n) (by decide) (by decide) ?_⟩
  rw [h]
  exact .head _

lemma scanNumber_intText (n : ℤ) (hrest : Delimited rest) :
    scanNumber (intText n ++ rest) = some (.ofInt n, rest) := by
  rw [intText, JsonNumber.ofInt]
  split
  next hneg =>
    rw [decide_eq_true hneg]
    exact scanUnsigned_toDigits true n.natAbs hrest
  next hneg =>
    rw [decide_eq_false hneg]
    obtain ⟨c, cs, hcons, hdigit⟩ := exists_digit_cons n.natAbs
    rw [← scanUnsigned_toDigits false n.natAbs hrest, hcons, scanNumber]
    rintro rest' ⟨rfl, -⟩
    exact absurd hdigit (by decide)

/-! ## Texts that read, and texts that miss -/

lemma skipSpace_of_not (hc : isSpace c = false) (rest : List Char) :
    skipSpace (c :: rest) = c :: rest := by
  simp [skipSpace, hc]

lemma skipSpace_append {spaces : List Char} (h : ∀ c ∈ spaces, isSpace c = true)
    (rest : List Char) : skipSpace (spaces ++ rest) = skipSpace rest := by
  rw [skipSpace, skipSpace, dropWhile_append_of_pos h]

section lists

variable {α : Type} (item : List Char → Option (α × List Char))

/-- The text is that of an item, whatever follows it. -/
def ReadsBy (text : List Char) (a : α) : Prop :=
  ∀ rest, Delimited rest → item (text ++ rest) = some (a, rest)

/-- The text is not that of the item, whatever follows it. -/
def MissesBy (text : List Char) (a : α) : Prop :=
  ∀ rest, Delimited rest → ∀ a' rest', item (text ++ rest) = some (a', rest') → a' ≠ a

/-- White space before an item does not matter. -/
def SkipsSpace : Prop :=
  ∀ spaces input, (∀ c ∈ spaces, isSpace c = true) → item (spaces ++ input) = item input

variable {text key : List Char} {a : α}

lemma ReadsBy.not_misses {item : List Char → Option (α × List Char)}
    (h : ReadsBy item text a) : ¬ MissesBy item text a := by
  have hnil : Delimited [] := nofun
  exact fun hmiss => hmiss [] hnil a [] (h [] hnil) rfl

/-- Texts with commas between them, and white space after each comma. -/
def commaText (gap : List Char) : List (List Char) → List Char
  | [] => []
  | [text] => text
  | text :: texts => text ++ ',' :: gap ++ commaText gap texts

lemma commaText_cons_cons (gap text text' : List Char) (texts : List (List Char)) :
    commaText gap (text :: text' :: texts) =
      text ++ ',' :: gap ++ commaText gap (text' :: texts) := rfl

lemma length_le_commaText (gap : List Char) (texts : List (List Char)) :
    texts.length ≤ (commaText gap texts).length + 1 := by
  induction texts with
  | nil => exact Nat.zero_le _
  | cons text texts ih =>
    cases texts with
    | nil => exact Nat.le_add_left ..
    | cons text' texts =>
      rw [commaText_cons_cons]
      simp only [length_append, length_cons] at ih ⊢
      omega

lemma delimited_comma (rest : List Char) : Delimited (',' :: rest) := by
  rintro c ⟨⟩
  decide

variable {tail input : List Char} {close : Char}

lemma delimited_close (htail : ∀ c ∈ tail, isSpace c = true)
    (hclose : close = ']' ∨ close = '}') (rest : List Char) :
    Delimited (tail ++ close :: rest) := by
  intro c hc
  cases tail with
  | nil =>
    cases hc
    rcases hclose with rfl | rfl <;> decide
  | cons d tail =>
    obtain rfl : d = c := by simpa using hc
    have hd := htail d (.head _)
    simp only [isSpace, Bool.or_eq_true, decide_eq_true_eq] at hd
    rcases hd with ((rfl | rfl) | rfl) | rfl <;> decide

lemma skipSpace_close (htail : ∀ c ∈ tail, isSpace c = true)
    (hclose : close = ']' ∨ close = '}') (rest : List Char) :
    skipSpace (tail ++ close :: rest) = close :: rest := by
  rw [skipSpace_append htail]
  rcases hclose with rfl | rfl <;> rfl

variable {item} {gap : List Char}

lemma scanList_last (hclose : close = ']' ∨ close = '}') (htail : ∀ c ∈ tail, isSpace c = true)
    {text rest : List Char} {a : α}
    (h : item (text ++ (tail ++ close :: rest)) = some (a, tail ++ close :: rest)) (n : ℕ) :
    scanList item close (n + 1) (text ++ (tail ++ close :: rest)) = some ([a], rest) := by
  have hne : close ≠ ',' := by rcases hclose with rfl | rfl <;> decide
  rw [scanList, h]
  dsimp only
  rw [skipSpace_close htail hclose]
  simp [hne]

lemma scanList_more (hitem : SkipsSpace item) (hgap : ∀ c ∈ gap, isSpace c = true)
    (h : item (text ++ ',' :: (gap ++ input)) = some (a, ',' :: (gap ++ input))) (n : ℕ) :
    scanList item close (n + 1) (text ++ ',' :: (gap ++ input)) =
      (scanList item close n input).map fun x => (a :: x.1, x.2) := by
  have hspace : scanList item close n (gap ++ input) = scanList item close n input := by
    cases n with
    | zero => rfl
    | succ n => rw [scanList, scanList, hitem gap input hgap]
  rw [scanList, h, ← hspace]
  rfl

lemma scanList_head {n : ℕ} {rest : List Char} {as : List α}
    (h : scanList item close n input = some (as, rest)) :
    ∃ a rest', item input = some (a, rest') ∧ as.head? = some a := by
  cases n with
  | zero => cases h
  | succ n =>
    rw [scanList] at h
    cases hitem : item input with
    | none =>
      rw [hitem] at h
      cases h
    | some x =>
      obtain ⟨a, rest'⟩ := x
      rw [hitem] at h
      refine ⟨a, rest', rfl, ?_⟩
      dsimp only at h
      split at h
      · cases h
      · split at h
        · obtain ⟨x, -, heq⟩ := map_eq_some_iff.1 h
          cases heq
          rfl
        · split at h
          · cases h
            rfl
          · cases h

section items

variable (tail) (items : List (List Char × α)) (hclose : close = ']' ∨ close = '}')
  (hitem : SkipsSpace item) (hgap : ∀ c ∈ gap, isSpace c = true)
  (htail : ∀ c ∈ tail, isSpace c = true)

include hclose hitem hgap htail

lemma scanList_of_reads (hne : items ≠ []) (hitems : ∀ x ∈ items, ReadsBy item x.1 x.2) (rest : List Char) {n : ℕ}
    (hn : items.length ≤ n) :
    scanList item close n (commaText gap (items.map (·.1)) ++ (tail ++ close :: rest)) =
      some (items.map (·.2), rest) := by
  induction items generalizing n with
  | nil => exact absurd rfl hne
  | cons x items ih =>
    obtain ⟨n, rfl⟩ := Nat.exists_eq_add_of_le' (lt_of_lt_of_le (Nat.succ_pos _) hn : 0 < n)
    have hx := hitems x (.head _)
    cases items with
    | nil => exact scanList_last hclose htail (hx _ (delimited_close htail hclose rest)) n
    | cons y items =>
      have hrest := ih (cons_ne_nil _ _) (fun z hz => hitems z (.tail _ hz)) (n := n)
        (Nat.le_of_succ_le_succ hn)
      rw [map_cons, map_cons, commaText_cons_cons, ← map_cons, append_assoc,
        append_assoc, cons_append,
        scanList_more hitem hgap (hx _ (delimited_comma _)), hrest]
      rfl

lemma scanList_of_misses (hitems : ∀ x ∈ items, ReadsBy item x.1 x.2 ∨ MissesBy item x.1 x.2)
    {x : List Char × α} (hx : x ∈ items) (hmiss : MissesBy item x.1 x.2) (rest : List Char) {n : ℕ}
    {as : List α} {rest' : List Char}
    (h : scanList item close n (commaText gap (items.map (·.1)) ++ (tail ++ close :: rest)) =
      some (as, rest')) : as ≠ items.map (·.2) := by
  induction items generalizing n as rest' with
  | nil => cases hx
  | cons y items ih =>
    intro heq
    subst heq
    obtain ⟨a, rest'', hvalue, hhead⟩ := scanList_head h
    obtain rfl : y.2 = a := by simpa using hhead
    cases items with
    | nil =>
      obtain rfl : x = y := by simpa using hx
      exact hmiss _ (delimited_close htail hclose rest) _ _ hvalue rfl
    | cons z items =>
      rw [map_cons, map_cons, commaText_cons_cons, append_assoc,
        append_assoc, cons_append] at h hvalue
      rcases hitems y (.head _) with hread | hy
      · -- the others have been scanned after it
        cases n with
        | zero => cases h
        | succ n =>
          rw [scanList_more hitem hgap (hread _ (delimited_comma _)), map_eq_some_iff] at h
          obtain ⟨⟨as, rest₁⟩, hscan, hcons⟩ := h
          rcases mem_cons.1 hx with rfl | hx
          · exact hread.not_misses hmiss
          · exact ih (fun w hw => hitems w (.tail _ hw)) hx hscan
              (cons.inj (Prod.mk.inj hcons).1).2
      · exact hy _ (delimited_comma _) _ _ hvalue rfl

end items

/-! ## Members -/

variable {value : List Char → Option (α × List Char)}

def memberText (key text : List Char) : List Char := '"' :: key ++ '"' :: ':' :: ' ' :: text

lemma scanMember_memberText (hkey : ∀ c ∈ key, Plain c) (hvalue : SkipsSpace value)
    (text rest : List Char) : scanMember value (memberText key text ++ rest) =
      (value (text ++ rest)).map fun x => ((key, x.1), x.2) := by
  have hstring := scanString_plain hkey (':' :: ' ' :: text ++ rest)
  have hspace : value (' ' :: (text ++ rest)) = value (text ++ rest) :=
    hvalue [' '] (text ++ rest) (forall_mem_singleton.2 rfl)
  rw [scanMember, memberText, cons_append, cons_append, append_assoc, skipSpace_of_not (by decide)]
  simp only [cons_append] at hstring ⊢
  rw [hstring, ← hspace]
  rfl

lemma skipsSpace_scanMember (value : List Char → Option (α × List Char)) :
    SkipsSpace (scanMember value) := by
  intro spaces input h
  rw [scanMember, scanMember, skipSpace_append h]

lemma ReadsBy.member (hkey : ∀ c ∈ key, Plain c) (hvalue : SkipsSpace value)
    (h : ReadsBy value text a) : ReadsBy (scanMember value) (memberText key text) (key, a) := by
  intro rest hrest
  rw [scanMember_memberText hkey hvalue, h rest hrest]
  rfl

lemma MissesBy.member (hkey : ∀ c ∈ key, Plain c) (hvalue : SkipsSpace value)
    (h : MissesBy value text a) : MissesBy (scanMember value) (memberText key text) (key, a) := by
  intro rest hrest a' rest' hscan
  rw [scanMember_memberText hkey hvalue, map_eq_some_iff] at hscan
  obtain ⟨x, hx, heq⟩ := hscan
  cases heq
  exact fun hsame => h rest hrest x.1 x.2 hx (Prod.mk.inj hsame).2

end lists

/-! ## Values -/

/-- The text is that of a value of at most the given depth. -/
def Reads (d : ℕ) (text : List Char) (j : Json) : Prop :=
  ∀ depth, d ≤ depth → ReadsBy (scanValue depth) text j

def Misses (d : ℕ) (text : List Char) (j : Json) : Prop :=
  ∀ depth, d ≤ depth → MissesBy (scanValue depth) text j

lemma skipsSpace_scanValue (depth : ℕ) : SkipsSpace (scanValue depth) := by
  intro spaces input h
  cases depth with
  | zero => rfl
  | succ depth => rw [scanValue, scanValue, skipSpace_append h]

variable {text : List Char} {j : Json}

lemma forall_of_succ {d : ℕ} {P : ℕ → Prop} (h : ∀ depth, d ≤ depth → P (depth + 1)) :
    ∀ depth, d + 1 ≤ depth → P depth
  | depth + 1, hdepth => h depth (Nat.le_of_succ_le_succ hdepth)

lemma reads_null : Reads 1 "null".toList .null := forall_of_succ fun _ _ _ _ => rfl

lemma reads_bool (b : Bool) : Reads 1 (toString b).toList (.bool b) := by
  cases b <;> exact forall_of_succ fun _ _ _ _ => rfl

lemma scanValue_quote (depth : ℕ) (text rest : List Char) :
    scanValue (depth + 1) ('"' :: text ++ ['"'] ++ rest) =
      (scanString .text (text ++ '"' :: rest)).map fun x => (.string x.1, x.2) := by
  rw [cons_append, cons_append, append_assoc]
  rfl

lemma reads_string {s : List Char}
    (h : ∀ rest, scanString .text (text ++ '"' :: rest) = some (s, rest)) :
    Reads 1 ('"' :: text ++ ['"']) (.string s) := by
  refine forall_of_succ fun depth _ rest _ => ?_
  rw [scanValue_quote, h rest]
  rfl

lemma misses_string
    (h : ∀ rest s rest', scanString .text (text ++ '"' :: rest) = some (s, rest') → .string s ≠ j) :
    Misses 1 ('"' :: text ++ ['"']) j := by
  refine forall_of_succ fun depth _ rest _ j' rest' hscan => ?_
  rw [scanValue_quote, map_eq_some_iff] at hscan
  obtain ⟨⟨s, rest''⟩, hs, heq⟩ := hscan
  cases heq
  exact h rest s _ hs

lemma ne_of_begins_number {d : Char} (hc : c.isDigit = true ∨ c = '-')
    (hd : d.isDigit = false ∧ d ≠ '-') : c ≠ d := by
  rintro rfl
  rcases hc with hc | hc
  · rw [hd.1] at hc
    cases hc
  · exact hd.2 hc

lemma scanValue_number (hc : c.isDigit = true ∨ c = '-') (depth : ℕ) (rest : List Char) :
    scanValue (depth + 1) (c :: rest) =
      (scanNumber (c :: rest)).map fun x => (.number x.1, x.2) := by
  have hspace : isSpace c = false := by
    simp [isSpace, ne_of_begins_number hc (by decide : (' ' : Char).isDigit = false ∧ _),
      ne_of_begins_number hc (by decide : ('\t' : Char).isDigit = false ∧ _),
      ne_of_begins_number hc (by decide : ('\n' : Char).isDigit = false ∧ _),
      ne_of_begins_number hc (by decide : ('\r' : Char).isDigit = false ∧ _)]
  rw [scanValue, skipSpace_of_not hspace]
  split
  case h_7 => rfl
  all_goals
    rename_i heq
    exact absurd (cons.inj heq).1 (ne_of_begins_number hc (by decide))

lemma reads_number {n : JsonNumber} {cs : List Char}
    (hcons : text = c :: cs) (hc : c.isDigit = true ∨ c = '-')
    (h : ∀ rest, Delimited rest → scanNumber (text ++ rest) = some (n, rest)) :
    Reads 1 text (.number n) := by
  subst hcons
  refine forall_of_succ fun depth _ rest hrest => ?_
  rw [cons_append, scanValue_number hc, ← cons_append, h rest hrest]
  rfl

lemma intText_cons (n : ℤ) : ∃ c cs, intText n = c :: cs ∧ (c.isDigit = true ∨ c = '-') := by
  rw [intText]
  split
  · exact ⟨_, _, rfl, .inr rfl⟩
  · obtain ⟨c, cs, hcons, hc⟩ := exists_digit_cons n.natAbs
    exact ⟨c, cs, hcons, .inl hc⟩

lemma reads_int (n : ℤ) : Reads 1 (intText n) (.number (.ofInt n)) := by
  obtain ⟨c, cs, hcons, hc⟩ := intText_cons n
  exact reads_number hcons hc fun rest hrest => scanNumber_intText n hrest

/-! ## Objects and arrays -/

section structures

variable {gap tail : List Char} {d : ℕ}

variable {input : List Char}

/-- A list of texts begins with the first of them. -/
lemma skipSpace_commaText_ne {c close : Char} (hc : isSpace c = false) (hne : c ≠ close)
    (text : List Char) (texts : List (List Char)) (input rest : List Char) :
    skipSpace (commaText gap ((c :: text) :: texts) ++ input) ≠ close :: rest := by
  have hcons : ∃ cs, commaText gap ((c :: text) :: texts) = c :: cs := by
    cases texts with
    | nil | cons => exact ⟨_, rfl⟩
  obtain ⟨cs, hcs⟩ := hcons
  rw [hcs, cons_append, skipSpace_of_not hc]
  exact fun h => hne (cons.inj h).1

def objectText (gap : List Char) (members : List (List Char × List Char)) : List Char :=
  '{' :: commaText gap (members.map fun x => memberText x.1 x.2) ++ ['}']

lemma scanValue_objectText (gap : List Char) {members : List (List Char × List Char)}
    (hne : members ≠ []) (depth : ℕ) (rest : List Char) : ∃ n, members.length ≤ n ∧
      scanValue (depth + 1) (objectText gap members ++ rest) =
        (scanList (scanMember (scanValue depth)) '}' n
          (commaText gap (members.map fun x => memberText x.1 x.2) ++ '}' :: rest)).map
            fun x => (.object x.1, x.2) := by
  refine ⟨(commaText gap (members.map fun x => memberText x.1 x.2) ++ '}' :: rest).length, ?_, ?_⟩
  · have hlength := length_le_commaText gap (members.map fun x => memberText x.1 x.2)
    rw [length_map] at hlength
    rw [length_append, length_cons]
    omega
  · rw [objectText, cons_append, cons_append, append_assoc]
    change scanObject (scanValue depth) _ = _
    rw [scanObject]
    split
    · obtain ⟨x, _, rfl⟩ := exists_cons_of_ne_nil hne
      exact absurd (by assumption) (skipSpace_commaText_ne (by decide) (by decide) _ _ _ _)
    · rfl

/-- A member with its key, text and value. -/
structure Member where
  key : List Char
  text : List Char
  value : Json

def Member.item (m : Member) : List Char × (List Char × Json) := (memberText m.key m.text, m.key, m.value)

section object

variable (gap) {members : List Member} (hne : members ≠ [])
  (hkeys : ∀ m ∈ members, ∀ c ∈ m.key, Plain c) (hgap : ∀ c ∈ gap, isSpace c = true)

include hne hkeys hgap

lemma reads_object (h : ∀ m ∈ members, Reads d m.text m.value) :
    Reads (d + 1) (objectText gap (members.map fun m => (m.key, m.text)))
      (.object (members.map fun m => (m.key, m.value))) := by
  refine forall_of_succ fun depth hdepth rest _ => ?_
  have hpairs : (members.map fun m => (m.key, m.text)) ≠ [] := by simpa using hne
  obtain ⟨n, hn, hscan⟩ := scanValue_objectText gap hpairs depth rest
  rw [length_map] at hn
  have hlist := scanList_of_reads [] (members.map Member.item) (.inr rfl)
    (skipsSpace_scanMember (scanValue depth)) hgap (by simp) (by simpa using hne) ?_ rest
    (n := n) (by rwa [length_map])
  · simp only [List.map_map] at hscan hlist
    rw [hscan]
    exact congrArg (Option.map _) hlist
  · intro x hx
    obtain ⟨m, hm, rfl⟩ := mem_map.1 hx
    exact (h m hm depth hdepth).member (hkeys m hm) (skipsSpace_scanValue depth)

lemma misses_object (h : ∀ m ∈ members, Reads d m.text m.value ∨ Misses d m.text m.value)
    {m : Member} (hm : m ∈ members) (hmiss : Misses d m.text m.value) :
    Misses (d + 1) (objectText gap (members.map fun m => (m.key, m.text)))
      (.object (members.map fun m => (m.key, m.value))) := by
  refine forall_of_succ fun depth hdepth rest _ j rest' hvalue hj => ?_
  have hpairs : (members.map fun m => (m.key, m.text)) ≠ [] := by simpa using hne
  obtain ⟨n, -, hscan⟩ := scanValue_objectText gap hpairs depth rest
  rw [hscan, map_eq_some_iff] at hvalue
  obtain ⟨⟨values, rest''⟩, hlist, heq⟩ := hvalue
  subst hj
  obtain rfl : values = members.map (fun m => (m.key, m.value)) := by
    simpa using (Prod.mk.inj heq).1
  have hitems : ∀ x ∈ members.map Member.item, ReadsBy (scanMember (scanValue depth)) x.1 x.2 ∨
      MissesBy (scanMember (scanValue depth)) x.1 x.2 := by
    intro x hx
    obtain ⟨m', hm', rfl⟩ := mem_map.1 hx
    exact (h m' hm').imp
      (fun hr => (hr depth hdepth).member (hkeys m' hm') (skipsSpace_scanValue depth))
      fun hr => (hr depth hdepth).member (hkeys m' hm') (skipsSpace_scanValue depth)
  have hmember := (hmiss depth hdepth).member (hkeys m hm) (skipsSpace_scanValue depth)
  have hscanned : scanList (scanMember (scanValue depth)) '}' n
      (commaText gap ((members.map Member.item).map (·.1)) ++ ([] ++ '}' :: rest)) =
        some (members.map fun m => (m.key, m.value), rest'') := by
    rw [List.map_map] at hlist ⊢
    exact hlist
  exact scanList_of_misses [] (members.map Member.item) (.inr rfl)
    (skipsSpace_scanMember (scanValue depth)) hgap (by simp) hitems (mem_map_of_mem hm)
    hmember rest hscanned (by rw [List.map_map]; rfl)

end object

def arrayText (gap tail : List Char) (texts : List (List Char)) : List Char :=
  '[' :: (commaText gap texts ++ (tail ++ [']']))

lemma scanValue_arrayText {texts : List (List Char)} (hne : texts ≠ [])
    (hfirst : ∀ text ∈ texts, ∃ c cs, text = c :: cs ∧ isSpace c = false ∧ c ≠ ']') (depth : ℕ) :
    ∃ n, texts.length ≤ n ∧
      scanValue (depth + 1) (arrayText gap tail texts) =
        (scanList (scanValue depth) ']' n (commaText gap texts ++ (tail ++ [']']))).map
          fun x => (.array x.1, x.2) := by
  refine ⟨(commaText gap texts ++ (tail ++ [']'])).length, ?_, ?_⟩
  · have hlength := length_le_commaText gap texts
    simp only [length_append, length_singleton]
    omega
  · change scanArray (scanValue depth) _ = _
    rw [scanArray]
    split
    · obtain ⟨text, texts, rfl⟩ := exists_cons_of_ne_nil hne
      obtain ⟨c, _, rfl, hspace, hclose⟩ := hfirst text (.head _)
      exact absurd (by assumption) (skipSpace_commaText_ne hspace hclose _ _ _ _)
    · rfl

/-- The text of an array decodes to the array of the values exactly if each text reads. -/
theorem decode_arrayText_iff (items : List (List Char × Json)) (hne : items ≠ [])
    (hgap : ∀ c ∈ gap, isSpace c = true) (htail : ∀ c ∈ tail, isSpace c = true)
    (hfirst : ∀ x ∈ items, ∃ c cs, x.1 = c :: cs ∧ isSpace c = false ∧ c ≠ ']')
    (hitems : ∀ x ∈ items, Reads d x.1 x.2 ∨ Misses d x.1 x.2)
    (hdepth : d < (arrayText gap tail (items.map (·.1))).length) :
    decode (arrayText gap tail (items.map (·.1))) = some (.array (items.map (·.2))) ↔
      ∀ x ∈ items, Reads d x.1 x.2 := by
  obtain ⟨depth, hlength⟩ := Nat.exists_eq_add_of_le' (Nat.lt_of_le_of_lt (Nat.zero_le d) hdepth)
  have hle : d ≤ depth := by omega
  have htexts : ∀ text ∈ items.map (·.1), ∃ c cs, text = c :: cs ∧ isSpace c = false ∧ c ≠ ']' := by
    intro text htext
    obtain ⟨x, hx, rfl⟩ := mem_map.1 htext
    exact hfirst x hx
  obtain ⟨n, hn, hscan⟩ := scanValue_arrayText (by simpa using hne) htexts depth
  rw [length_map] at hn
  rw [decode, hlength, hscan]
  constructor
  · intro h x hx
    refine (hitems x hx).resolve_right fun hmiss => ?_
    cases hlist : scanList (scanValue depth) ']' n
        (commaText gap (items.map (·.1)) ++ (tail ++ [']'])) with
    | none =>
      rw [hlist] at h
      cases h
    | some scanned =>
      rw [hlist] at h
      dsimp only [map_some] at h
      split at h
      · refine scanList_of_misses tail items (.inl rfl) (skipsSpace_scanValue depth) hgap htail
          (fun y hy => (hitems y hy).imp (· depth hle) (· depth hle)) hx (hmiss depth hle) [] hlist ?_
        simpa using h
      · cases h
  · intro h
    rw [scanList_of_reads tail items (.inl rfl) (skipsSpace_scanValue depth) hgap htail hne
      (fun x hx => h x hx depth hle) [] hn]
    rfl

end structures

end Json

end Framework
