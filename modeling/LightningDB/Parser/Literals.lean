import LightningDB.Parser.Distinct
import LightningDB.Parser.Grammar

/-!
# String literals through the preprocessing

What becomes of the string literals of a query text, and of the text between them, on the way
through `normalize_query` and `preprocess_distinct_functions` to the parse tree.

A query text is cut into *pieces*: literals, as the rule `string_literal` delimits them, and what
stands between them, comments included (`pieces`).  On a text without comments the cutting has a
description from outside (`Splits`), and each of the passes is followed through that description.
The result is `literals_preserved`: both passes know nothing of literals, so a literal survives
exactly if they would leave its body alone.
-/

namespace LightningDB

open Framework List Peg.Tree

/-- A part of a query text: a string literal, with its delimiter, or what stands between two. -/
structure Piece where
  quote : Option Char
  text : List Char
deriving DecidableEq

variable (f : List Char → List Char) (p : Piece)

def Piece.map : Piece := { p with text := f p.text }

/-- Change what stands between literals. -/
def Piece.outside : Piece :=
  match p.quote with
  | none => p.map f
  | some _ => p

def Piece.literal : Piece :=
  match p.quote with
  | none => p
  | some _ => p.map f

/-- Where the reader of a query text is. -/
inductive LexMode where
  | outside
  | inside (q : Char)
  | line
  | block (prev : Char)
deriving DecidableEq

def push (c : Char) : List Piece → List Piece
  | [] => []
  | p :: ps => { p with text := c :: p.text } :: ps

/-- A quote opens a literal if the same quote comes again. -/
def opens (c : Char) (cs : List Char) : Bool := isQuote c && decide (c ∈ cs)

lemma opens_eq_true {c : Char} {cs : List Char} :
    opens c cs = true ↔ isQuote c = true ∧ c ∈ cs := by
  rw [opens, Bool.and_eq_true, decide_eq_true_eq]

def pieces : LexMode → List Char → List Piece
  | .inside q, [] => [⟨some q, []⟩]
  | _, [] => [⟨none, []⟩]
  | .outside, '/' :: '/' :: cs => push '/' (push '/' (pieces .line cs))
  | .outside, '/' :: '*' :: cs => push '/' (push '*' (pieces (.block '\x00') cs))
  | .outside, c :: cs =>
    if opens c cs then ⟨none, []⟩ :: pieces (.inside c) cs else push c (pieces .outside cs)
  | .inside q, c :: cs =>
    if c = q then ⟨some q, []⟩ :: pieces .outside cs else push c (pieces (.inside q) cs)
  | .line, c :: cs => push c (pieces (if c = '\n' then .outside else .line) cs)
  | .block prev, c :: cs =>
    push c (pieces (if prev = '*' ∧ c = '/' then .outside else .block c) cs)

/-- What is between the delimiters of the literals, in order. -/
def literals (ps : List Piece) : List (List Char) :=
  ps.filterMap fun p => p.quote.map fun _ => p.text

/-- What stands between the literals, in order. -/
def outsides (ps : List Piece) : List (List Char) :=
  ps.filterMap fun p => if p.quote = none then some p.text else none

/-- Trim the text before the first literal and the text after the last. -/
def trimFirst : List Piece → List Piece
  | [] => []
  | p :: ps => p.outside trimStart :: ps
def trimLast : List Piece → List Piece
  | [] => []
  | [p] => [p.outside trimEnd]
  | p :: p' :: ps => p :: trimLast (p' :: ps)

/-- The pieces of a query text, with comments stripped and whitespace collapsed outside of
literals. -/
def tidied (s : List Char) : List Piece :=
  trimLast (trimFirst ((pieces .outside s).map (Piece.outside (scan (.text false)))))

/-- The text that `parse` hands to the grammar; `none` is a panic. -/
def preprocess (s : List Char) : Option (List Char) :=
  preprocessDistinctFunctions (normalizeQuery s)

mutual

/-- The nodes of the rule `string_literal` with the rule that reads them. -/
def stringSites (parent : CypherRule) : Peg.Tree CypherRule → List (CypherRule × List Char)
  | .node r span children =>
    if r = .stringLiteral then [(parent, span)] else stringSitesOfList r children

/-- The nodes of the rule `string_literal` in a list of trees. -/
def stringSitesOfList (parent : CypherRule) :
    List (Peg.Tree CypherRule) → List (CypherRule × List Char)
  | [] => []
  | t :: ts => stringSites parent t ++ stringSitesOfList parent ts

end

/-- The value in the AST: `parse_literal` takes away the delimiters, the path of a COPY statement is
taken as it is written. -/
def astValue : CypherRule × List Char → List Char
  | (.copyFrom, span) | (.copyTo, span) => span
  | (_, span) => span.tail.dropLast

/-- The values of the string literals of a query in its AST, in the order of the text. -/
def stringValues (tree : Peg.Tree CypherRule) : List (List Char) :=
  (stringSites .query tree).map astValue

/-- The preprocessing preserves string literals and changes what stands between them only in
comments, whitespace and calls of DISTINCT aggregates; and the values of the literals in the AST are
what is between their delimiters. -/
def PreservesLiterals (s : List Char) : Prop :=
  ∃ out, preprocess s = some out ∧
    pieces .outside out = (tidied s).map (Piece.outside rewriteCalls) ∧
    ∀ tree, Peg.Accepts cypher .query out tree →
      stringValues tree = literals (pieces .outside s)

/-! ## Lists of pieces -/

variable {ps : List Piece} {b a s r : List Char} {c q : Char}

lemma mem_literals : b ∈ literals ps ↔ ∃ q, ⟨some q, b⟩ ∈ ps := by
  rw [literals, mem_filterMap]
  constructor
  · rintro ⟨⟨_ | q, text⟩, hp, h⟩
    · cases h
    · cases h
      exact ⟨q, hp⟩
  · rintro ⟨q, hp⟩
    exact ⟨_, hp, rfl⟩

lemma mem_outsides : a ∈ outsides ps ↔ ⟨none, a⟩ ∈ ps := by
  rw [outsides, mem_filterMap]
  constructor
  · rintro ⟨⟨_ | q, text⟩, hp, h⟩
    · cases h
      exact hp
    · cases h
  · exact fun hp => ⟨_, hp, rfl⟩

variable (ps)

/-- A map of pieces that leaves literals alone. -/
lemma literals_cons_outside : literals (p.outside f :: ps) = literals (p :: ps) := by
  obtain ⟨_ | q, -⟩ := p
  · rfl
  · rfl

lemma literals_map_outside : literals (ps.map (Piece.outside f)) = literals ps := by
  induction ps with
  | nil => rfl
  | cons p ps ih =>
    obtain ⟨_ | q, text⟩ := p
    · exact ih
    · exact congrArg (text :: ·) ih

lemma literals_trimFirst : literals (trimFirst ps) = literals ps := by
  match ps with
  | [] => rfl
  | p :: ps => exact literals_cons_outside _ p ps

lemma literals_trimLast : literals (trimLast ps) = literals ps := by
  fun_induction trimLast ps with
  | case1 => rfl
  | case2 p => exact literals_cons_outside _ p []
  | case3 p p' ps ih =>
    obtain ⟨_ | q, text⟩ := p
    · exact ih
    · exact congrArg (text :: ·) ih

variable {ps}

lemma literals_tidied (s : List Char) : literals (tidied s) = literals (pieces .outside s) := by
  rw [tidied, literals_trimLast, literals_trimFirst, literals_map_outside]

lemma Piece.outside_literal (f g : List Char → List Char) (p : Piece) :
    (p.literal g).outside f = (p.outside f).literal g := by
  obtain ⟨_ | q, -⟩ := p
  · rfl
  · rfl

lemma trimFirst_map_literal (g : List Char → List Char) (ps : List Piece) :
    trimFirst (ps.map (Piece.literal g)) = (trimFirst ps).map (Piece.literal g) := by
  match ps with
  | [] => rfl
  | p :: ps => rw [map_cons, trimFirst, trimFirst, map_cons, Piece.outside_literal]

lemma trimLast_map_literal (g : List Char → List Char) (ps : List Piece) :
    trimLast (ps.map (Piece.literal g)) = (trimLast ps).map (Piece.literal g) := by
  fun_induction trimLast ps with
  | case1 => rfl
  | case2 p =>
    rw [map_singleton, trimLast, map_singleton, Piece.outside_literal]
  | case3 p p' ps ih =>
    rw [map_cons, map_cons, trimLast, ← map_cons, ih, map_cons]

/-! ## The first pass -/

/-- The kind of piece being read. -/
def LexMode.quote : LexMode → Option Char
  | .inside q => some q
  | _ => none

/-- The first piece is a part of the text from the left. -/
lemma exists_pieces (m : LexMode) (s : List Char) :
    ∃ t ps, t <+: s ∧ pieces m s = ⟨m.quote, t⟩ :: ps := by
  fun_induction pieces m s with
  | case1 q => exact ⟨[], [], nil_prefix, rfl⟩
  | case2 m h =>
    refine ⟨[], [], nil_prefix, ?_⟩
    match m with
    | .outside | .line | .block _ => rfl
    | .inside q => exact absurd rfl (h q)
  | case3 cs ih | case4 cs ih =>
    obtain ⟨t, ps, ht, hp⟩ := ih
    refine ⟨_ :: _ :: t, ps, ?_, by rw [hp]; rfl⟩
    exact (prefix_cons_inj _).2 ((prefix_cons_inj _).2 ht)
  | case5 | case7 => exact ⟨[], _, nil_prefix, rfl⟩
  | case6 c _ _ _ _ ih | case8 _ c _ _ ih =>
    obtain ⟨t, ps, ht, hp⟩ := ih
    exact ⟨c :: t, ps, (prefix_cons_inj c).2 ht, by rw [hp]; rfl⟩
  | case9 c cs ih | case10 _ c cs ih =>
    obtain ⟨t, ps, ht, hp⟩ := ih
    refine ⟨c :: t, ps, (prefix_cons_inj c).2 ht, ?_⟩
    rw [hp]
    split
    · rfl
    · rfl

lemma literals_push {m : LexMode} (hm : m.quote = none) (c : Char) (s : List Char) :
    literals (push c (pieces m s)) = literals (pieces m s) := by
  obtain ⟨t, ps, -, hp⟩ := exists_pieces m s
  rw [hp, hm]
  rfl

variable {cs r' : List Char}

lemma pieces_outside_cons (h : startsComment (c :: cs) = false) : pieces .outside (c :: cs) =
      if opens c cs then ⟨none, []⟩ :: pieces (.inside c) cs else push c (pieces .outside cs) := by
  obtain ⟨h₁, h₂⟩ := not_comment_of_not_startsComment h
  rw [pieces]
  · exact h₁
  · exact h₂

lemma pieces_inside_append (hb : q ∉ b) (r : List Char) :
    pieces (.inside q) (b ++ q :: r) = ⟨some q, b⟩ :: pieces .outside r := by
  induction b with
  | nil => rw [nil_append, pieces, if_pos rfl]
  | cons c b ih =>
    rw [mem_cons, not_or] at hb
    rw [cons_append, pieces, if_neg (Ne.symm hb.1), ih hb.2]
    rfl

lemma pieces_literal (hq : isQuote q = true) (hb : q ∉ b) (r : List Char) :
    pieces .outside (q :: (b ++ q :: r)) = ⟨none, []⟩ :: ⟨some q, b⟩ :: pieces .outside r := by
  have hopens : opens q (b ++ q :: r) = true := by simp [opens, hq]
  rw [pieces_outside_cons (startsComment_cons (quote_ne_slash hq) _), if_pos hopens,
    pieces_inside_append hb]

lemma mem_scan_quote (hq : isQuote q = true) {m : ScanMode} (h : q ∈ scan m s) : q ∈ s := by
  have hspace : q ≠ ' ' := by
    rintro rfl
    cases hq
  fun_induction scan m s with
  | case1 => exact h
  | case2 _ _ ih | case3 _ _ ih => exact mem_cons_of_mem _ (mem_cons_of_mem _ (ih h))
  | case4 _ _ _ _ _ ih | case8 _ _ _ ih | case9 _ _ _ _ ih | case10 _ _ _ _ ih =>
    exact mem_cons_of_mem _ (ih h)
  | case5 spaced c cs h₁ h₂ hws hspaced ih =>
    exact mem_cons_of_mem _ (ih ((mem_cons.1 h).resolve_left hspace))
  | case6 spaced c cs h₁ h₂ hws ih =>
    rcases mem_cons.1 h with rfl | h
    · exact mem_cons_self
    · exact mem_cons_of_mem _ (ih h)
  | case7 cs ih => exact mem_cons_of_mem _ (ih ((mem_cons.1 h).resolve_left hspace))

/-- The state of the pass and that of the reader outside of literals. -/
inductive LexMode.Scans : LexMode → ScanMode → Prop where
  | text (spaced : Bool) : Scans .outside (.text spaced)
  | line : Scans .line .line
  | block (prev : Char) : Scans (.block prev) (.block prev)

/-- The pass over each piece by itself, the first one in the given state. -/
def scanned (m : ScanMode) : List Piece → List Piece
  | [] => []
  | p :: ps => p.map (scan m) :: ps.map (Piece.map (scan (.text false)))

lemma scanned_push {m m' : ScanMode} (h : ∀ t, scan m (c :: t) = scan m' t) (ps : List Piece) :
    scanned m (push c ps) = scanned m' ps := by
  cases ps with
  | nil => rfl
  | cons p ps => rw [push, scanned, scanned, Piece.map, Piece.map, h]

lemma push_space (r : List Char) : pieces .outside (' ' :: r) = push ' ' (pieces .outside r) := by
  rw [pieces_outside_cons (startsComment_cons (by decide) r), if_neg (by simp [opens, isQuote])]

lemma pieces_scan_plain {spaced : Bool} (hstart : startsComment (c :: cs) = false)
    (hopens : opens c cs = false) (ih : ∀ spaced, pieces .outside (scan (.text spaced) cs) =
      scanned (.text spaced) (pieces .outside cs)) :
    pieces .outside (scan (.text spaced) (c :: cs)) =
      scanned (.text spaced) (pieces .outside (c :: cs)) := by
  obtain ⟨t, ps, ht, hp⟩ := exists_pieces .outside cs
  have hstart' : startsComment (c :: t) = false := by
    match t, ht with
    | [], _ =>
      by_contra h
      obtain ⟨_, h | h⟩ := startsComment_eq_true (by simpa using h)
      · cases h
      · cases h
    | d :: t, ht =>
      obtain ⟨r, rfl⟩ := ht
      rw [cons_append, startsComment_cons_cons] at hstart
      rw [startsComment_cons_cons]
      exact hstart
  have hnext := noMarker_scan (.text spaced) (c :: cs)
  rw [pieces_outside_cons hstart, if_neg (by simp [hopens])]
  rw [hp] at ih ⊢
  rw [scan_text_cons hstart] at hnext ⊢
  rw [push, scanned]
  dsimp only [Piece.map]
  rw [scan_text_cons hstart']
  split
  · split
    · exact ih true
    · rw [push_space, ih true]
      rfl
  next hws =>
    rw [if_neg hws] at hnext
    have hopens' : opens c (scan (.text false) cs) = false := by
      rw [Bool.eq_false_iff, Ne, opens_eq_true] at hopens ⊢
      exact fun h => hopens ⟨h.1, mem_scan_quote h.1 h.2⟩
    rw [pieces_outside_cons hnext.startsComment, if_neg (by simp [hopens']), ih false]
    rfl

/-- **The first pass works piece by piece**, if no literal contains a marker. -/
theorem pieces_scan {lm : LexMode} {sm : ScanMode} (h : lm.Scans sm)
    (hm : ∀ b ∈ literals (pieces lm s), NoMarker b) :
    pieces .outside (scan sm s) = scanned sm (pieces lm s) := by
  induction hn : s.length using Nat.strong_induction_on generalizing s lm sm with
  | _ n ih =>
    subst hn
    match s with
    | [] =>
      cases h <;> rfl
    | c :: cs =>
      have hlt : cs.length < (c :: cs).length := Nat.lt_succ_self _
      cases h with
      | line =>
        rw [pieces] at hm ⊢
        by_cases hc : c = '\n'
        · obtain ⟨t, ps, -, hp⟩ := exists_pieces .outside cs
          rw [if_pos hc, literals_push rfl] at hm
          rw [scan, if_pos hc, if_pos hc, push_space, ih _ hlt (.text true) hm rfl, hp, scanned,
            push, push, scanned]
          dsimp only [Piece.map]
          rw [scan, if_pos hc]
        · rw [if_neg hc, literals_push rfl] at hm
          rw [scan, if_neg hc, if_neg hc, ih _ hlt .line hm rfl]
          exact (scanned_push (fun t => by rw [scan, if_neg hc]) _).symm
      | block prev =>
        rw [pieces] at hm ⊢
        by_cases hc : prev = '*' ∧ c = '/'
        · rw [if_pos hc, literals_push rfl] at hm
          rw [scan, if_pos hc, if_pos hc, ih _ hlt (.text false) hm rfl]
          exact (scanned_push (fun t => by rw [scan, if_pos hc]) _).symm
        · rw [if_neg hc, literals_push rfl] at hm
          rw [scan, if_neg hc, if_neg hc, ih _ hlt (.block c) hm rfl]
          exact (scanned_push (fun t => by rw [scan, if_neg hc]) _).symm
      | text spaced =>
        by_cases hstart : startsComment (c :: cs) = true
        · -- a comment is opened, and both go on inside of it
          obtain ⟨cs', hcs | hcs⟩ := startsComment_eq_true hstart
          · cases hcs
            obtain ⟨t, ps, -, hp⟩ := exists_pieces .line cs'
            have hm' : ∀ b ∈ literals (pieces .line cs'), NoMarker b := by
              rw [pieces, hp] at hm
              rw [hp]
              exact hm
            rw [scan, ih _ (Nat.lt_of_succ_lt hlt) .line hm' rfl, pieces, hp]
            rfl
          · cases hcs
            obtain ⟨t, ps, -, hp⟩ := exists_pieces (.block '\x00') cs'
            have hm' : ∀ b ∈ literals (pieces (.block '\x00') cs'), NoMarker b := by
              rw [pieces, hp] at hm
              rw [hp]
              exact hm
            rw [scan, ih _ (Nat.lt_of_succ_lt hlt) (.block '\x00') hm' rfl, pieces, hp]
            rfl
        · have hstart : startsComment (c :: cs) = false := by simpa using hstart
          by_cases hopens : opens c cs = true
          · -- a literal is opened, and both go on after it
            obtain ⟨hq, hmem⟩ := opens_eq_true.1 hopens
            obtain ⟨b, r, rfl, hb⟩ := eq_append_cons_of_mem hmem
            rw [pieces_literal hq hb] at hm ⊢
            have hbm : NoMarker b := hm b (mem_literals.2 ⟨c, by simp⟩)
            have hrec := ih r.length (by simp; omega) (.text false) (s := r)
              (fun b' hb' => hm b' (mem_cons_of_mem _ hb')) rfl
            rw [scan_quote hq, scan_append_quote hq hbm,
              pieces_literal hq fun h => hb (mem_scan_quote hq h), hrec]
            obtain ⟨t, ps, -, hp⟩ := exists_pieces .outside r
            rw [hp]
            rfl
          · have hopens : opens c cs = false := by simpa using hopens
            refine pieces_scan_plain hstart hopens fun sp => ih _ hlt (.text sp) ?_ rfl
            rw [pieces_outside_cons hstart, if_neg (by simp [hopens]), literals_push rfl] at hm
            exact hm

/-! ## Cutting a text without comments -/

/-- No quote in `a` comes again, in `a` or in what comes after it. -/
def NoOpening (r a : List Char) : Prop := ∀ c ∈ a, isQuote c = true → a.count c = 1 ∧ c ∉ r

lemma noOpening_cons : NoOpening r (c :: a) ↔ opens c (a ++ r) = false ∧ NoOpening r a := by
  rw [Bool.eq_false_iff, Ne, opens_eq_true, mem_append]
  constructor
  · intro h
    refine ⟨fun ⟨hq, hmem⟩ => ?_, fun d hd hq => ?_⟩
    · obtain ⟨hcount, hr⟩ := h c mem_cons_self hq
      rw [count_cons_self, Nat.add_eq_right, count_eq_zero] at hcount
      exact hmem.elim hcount hr
    · obtain ⟨hcount, hr⟩ := h d (mem_cons_of_mem c hd) hq
      have hpos := count_pos_iff.2 hd
      have hle : a.count d ≤ (c :: a).count d := count_le_count_cons
      exact ⟨by omega, hr⟩
  · rintro ⟨hc, ha⟩ d hd hq
    rcases mem_cons.1 hd with rfl | hd
    · have hnot : ¬ (d ∈ a ∨ d ∈ r) := fun h => hc ⟨hq, h⟩
      rw [not_or] at hnot
      rw [count_cons_self, count_eq_zero.2 hnot.1]
      exact ⟨rfl, hnot.2⟩
    · obtain ⟨hcount, hr⟩ := ha d hd hq
      have hne : c ≠ d := by
        rintro rfl
        exact hc ⟨hq, .inl hd⟩
      rw [count_cons_of_ne hne]
      exact ⟨hcount, hr⟩

lemma NoOpening.mono {a' : List Char} (h : NoOpening r a) (ha : a'.Sublist a)
    (hr : ∀ c, isQuote c = true → c ∈ r' → c ∈ r) : NoOpening r' a' := by
  intro c hc hq
  obtain ⟨hcount, hnot⟩ := h c (ha.subset hc) hq
  have hpos := count_pos_iff.2 hc
  have hle := ha.count_le c
  exact ⟨by omega, fun h' => hnot (hr c hq h')⟩

lemma NoOpening.distinct (h : NoOpening r a)
    (hr : ∀ c, isQuote c = true → c ∈ r' → c ∈ r) : NoOpening r' (distinct a) := by
  intro c hc hq
  rw [mem_distinct_quote hq] at hc
  rw [count_distinct_quote hq]
  exact ⟨(h c hc hq).1, fun h' => (h c hc hq).2 (hr c hq h')⟩

/-- The pieces of a text without comments: each literal starts at the first quote that comes again,
and ends where it does. -/
inductive Splits : List Char → List Piece → Prop where
  | last {a : List Char} : NoOpening [] a → Splits a [⟨none, a⟩]
  | literal {q : Char} {a b r : List Char} {ps : List Piece} :
      isQuote q = true → q ∉ b → NoOpening (q :: (b ++ q :: r)) a → Splits r ps →
        Splits (a ++ q :: (b ++ q :: r)) (⟨none, a⟩ :: ⟨some q, b⟩ :: ps)

lemma pieces_append {t : List Char} (hm : NoMarker (a ++ r))
    (ha : NoOpening r a) (hp : pieces .outside r = ⟨none, t⟩ :: ps) :
    pieces .outside (a ++ r) = ⟨none, a ++ t⟩ :: ps := by
  induction a with
  | nil => exact hp
  | cons c a ih =>
    obtain ⟨hc, ha⟩ := noOpening_cons.1 ha
    rw [cons_append] at hm ⊢
    rw [pieces_outside_cons hm.startsComment, if_neg (by simp [hc]), ih hm.tail ha]
    rfl

theorem Splits.pieces_eq (h : Splits s ps) (hm : NoMarker s) : pieces .outside s = ps := by
  induction h with
  | @last a ha =>
    rw [← append_nil a] at hm
    have hp := pieces_append hm ha rfl
    rwa [append_nil] at hp
  | @literal q a b r ps hq hb ha _ ih =>
    have hr : NoMarker r := List.IsChain.suffix hm ⟨a ++ q :: (b ++ [q]), by simp⟩
    have hp := pieces_append hm ha (pieces_literal hq hb r)
    rw [append_nil, ih hr] at hp
    exact hp

lemma exists_opening (s : List Char) : NoOpening [] s ∨
      ∃ a q t, s = a ++ q :: t ∧ isQuote q = true ∧ q ∈ t ∧ NoOpening (q :: t) a := by
  induction s with
  | nil => exact .inl nofun
  | cons c s ih =>
    by_cases hc : opens c s = true
    · obtain ⟨hq, hmem⟩ := opens_eq_true.1 hc
      exact .inr ⟨[], c, s, rfl, hq, hmem, nofun⟩
    · have hc : opens c s = false := by simpa using hc
      rcases ih with ih | ⟨a, q, t, rfl, hq, hmem, ha⟩
      · exact .inl (noOpening_cons.2 ⟨by rwa [append_nil], ih⟩)
      · exact .inr ⟨c :: a, q, t, rfl, hq, hmem, noOpening_cons.2 ⟨hc, ha⟩⟩

lemma exists_splits (s : List Char) : ∃ ps, Splits s ps := by
  induction hn : s.length using Nat.strong_induction_on generalizing s with
  | _ n ih =>
    subst hn
    rcases exists_opening s with h | ⟨a, q, t, rfl, hq, hmem, ha⟩
    · exact ⟨_, .last h⟩
    · obtain ⟨b, r, rfl, hb⟩ := eq_append_cons_of_mem hmem
      obtain ⟨ps, hps⟩ := ih r.length (by simp; omega) r rfl
      exact ⟨_, .literal hq hb ha hps⟩

/-- The reader cuts as `Splits` says. -/
lemma splits_pieces (hm : NoMarker s) : Splits s (pieces .outside s) := by
  obtain ⟨ps, hps⟩ := exists_splits s
  rw [hps.pieces_eq hm]
  exact hps

namespace Splits

variable {s : List Char} {ps : List Piece}

lemma ne_nil (h : Splits s ps) : ps ≠ [] := by
  cases h <;> exact cons_ne_nil _ _

lemma infix_of_mem_literals (h : Splits s ps) {b : List Char} (hb : b ∈ literals ps) :
    b <:+: s := by
  induction h with
  | last => cases hb
  | @literal q a b' r ps _ _ _ _ ih =>
    rcases mem_cons.1 hb with rfl | hb
    · exact ⟨a ++ [q], q :: r, by simp⟩
    · exact (ih hb).trans ⟨a ++ q :: (b' ++ [q]), [], by simp⟩

lemma trimStart (h : Splits s ps) : Splits (trimStart s) (trimFirst ps) := by
  cases h with
  | last ha => exact .last (ha.mono (dropWhile_sublist _) fun c _ hc => hc)
  | @literal q a b r ps hq hb ha hr =>
    have htrim : LightningDB.trimStart (a ++ q :: (b ++ q :: r)) =
        LightningDB.trimStart a ++ q :: (b ++ q :: r) := by
      rw [LightningDB.trimStart, LightningDB.trimStart, dropWhile_append]
      split
      next hnil =>
        rw [isEmpty_iff.1 hnil, dropWhile_cons_of_neg (by simp [isWhitespace_quote hq])]
        rfl
      · rfl
    rw [htrim]
    exact .literal hq hb (ha.mono (dropWhile_sublist _) fun c _ hc => hc) hr

lemma trimEnd (h : Splits s ps) : Splits (trimEnd s) (trimLast ps) := by
  induction h with
  | last ha =>
    exact .last (ha.mono (List.rdropWhile_prefix _ _).sublist fun c _ hc => hc)
  | @literal q a b r ps hq hb ha hr ih =>
    have htrim : ∀ x r, LightningDB.trimEnd (x ++ q :: r) = x ++ q :: LightningDB.trimEnd r := by
      intro x r
      induction r using reverseRecOn with
      | nil => exact rdropWhile_concat_neg _ _ _ (by simp [isWhitespace_quote hq])
      | append_singleton r c ih =>
        rw [LightningDB.trimEnd, LightningDB.trimEnd, ← cons_append, ← append_assoc,
          rdropWhile_concat, rdropWhile_concat]
        split
        · exact ih
        · simp
    have hr' : LightningDB.trimEnd r ⊆ r := (List.rdropWhile_prefix _ _).subset
    obtain ⟨p, ps', rfl⟩ := exists_cons_of_ne_nil hr.ne_nil
    rw [← cons_append, ← append_assoc, htrim, append_assoc, cons_append]
    refine .literal hq hb (ha.mono (List.Sublist.refl _) fun c _ hc => ?_) ih
    simp only [mem_cons, mem_append] at hc ⊢
    rcases hc with hc | hc | hc | hc
    · exact .inl hc
    · exact .inr (.inl hc)
    · exact .inl hc
    · exact .inr (.inr (.inr (hr' hc)))

protected lemma distinct (h : Splits s ps) : Splits (distinct s) (ps.map (Piece.map distinct)) := by
  induction h with
  | last ha => exact .last (ha.distinct fun c _ hc => hc)
  | @literal q a b r ps hq hb ha hr ih =>
    rw [distinct_append_quote hq, distinct_append_quote hq]
    refine .literal hq ?_ (ha.distinct fun c hc hmem => ?_) ih
    · rwa [mem_distinct_quote hq]
    · simp only [mem_cons, mem_append, mem_distinct_quote hc] at hmem ⊢
      exact hmem

end Splits

/-! ## Both passes -/

/-- The passes leave a literal with this body alone. -/
def Untouched (b : List Char) : Prop := NoMarker b ∧ SingleSpaced b ∧ NoCall b

instance (b : List Char) : Decidable (Untouched b) :=
  inferInstanceAs (Decidable (NoMarker b ∧ SingleSpaced b ∧ NoCall b))

lemma preprocess_eq (s : List Char) : preprocess s = some (distinct (normalizeQuery s)) :=
  preprocessDistinctFunctions_eq _

lemma noMarker_normalizeQuery (s : List Char) : NoMarker (normalizeQuery s) := by
  rw [normalizeQuery, normalizeLoop_eq_scan]
  exact List.IsChain.prefix ((noMarker_scan _ s).suffix (dropWhile_suffix _))
    (List.rdropWhile_prefix _ _)

/-- **The preprocessing works piece by piece**, if no literal contains a marker. -/
theorem pieces_preprocess {s : List Char} (hm : ∀ b ∈ literals (pieces .outside s), NoMarker b) :
    pieces .outside (distinct (normalizeQuery s)) =
      (tidied s).map fun p => (p.literal (scan (.text false))).map distinct := by
  have hscan : pieces .outside (normalizeLoop s) =
      ((pieces .outside s).map (Piece.outside (scan (.text false)))).map
        (Piece.literal (scan (.text false))) := by
    obtain ⟨t, ps, -, hp⟩ := exists_pieces .outside s
    have hboth : ∀ p : Piece, (p.outside (scan (.text false))).literal (scan (.text false)) =
        p.map (scan (.text false)) := by
      rintro ⟨_ | q, -⟩
      · rfl
      · rfl
    rw [normalizeLoop_eq_scan, pieces_scan (.text false) hm, map_map, hp]
    exact congrArg _ (map_congr_left fun p _ => (hboth p).symm)
  have hsplits := splits_pieces (noMarker_scan (.text false) s)
  rw [← normalizeLoop_eq_scan] at hsplits
  have hpasses := hsplits.trimStart.trimEnd.distinct
  rw [normalizeQuery, trim, hpasses.pieces_eq
    (noMarker_distinct (noMarker_normalizeQuery s)), hscan, trimFirst_map_literal,
    trimLast_map_literal, map_map]
  rfl

lemma count_underscore_scan {b : List Char} (hm : NoMarker b) (spaced : Bool) :
    (scan (.text spaced) b).count '_' = b.count '_' := by
  induction b generalizing spaced with
  | nil => rfl
  | cons c b ih =>
    rw [scan_text_cons hm.startsComment]
    split
    next hws =>
      have hc : c ≠ '_' := by
        rintro rfl
        exact absurd hws (by decide)
      rw [count_cons_of_ne hc]
      split
      · exact ih hm.tail true
      · rw [count_cons_of_ne (by decide), ih hm.tail true]
    · rw [count_cons, count_cons, ih hm.tail false]

/-- What both passes do to the body of a literal. -/
lemma distinct_scan_eq_self_iff {b : List Char} (hm : NoMarker b) :
    distinct (scan (.text false) b) = b ↔ Untouched b := by
  constructor
  · intro h
    have hcount : (distinct (scan (.text false) b)).count '_' =
        (scan (.text false) b).count '_' := by rw [h, count_underscore_scan hm]
    obtain ⟨hsame, hcall⟩ := (count_underscore_distinct _).2 hcount
    have hscan : scan (.text false) b = b := hsame.symm.trans h
    have hspaced := (singleSpaced_scan hm false).1
    rw [hscan] at hcall hspaced
    exact ⟨hm, hspaced, hcall⟩
  · rintro ⟨-, hspaced, hcall⟩
    rw [scan_eq_self hm hspaced, distinct_eq_self hcall]

/-- Where the preprocessing does to the text what it is meant to do. -/
theorem pieces_preprocess_iff (s : List Char) : pieces .outside (distinct (normalizeQuery s)) =
        (tidied s).map (Piece.outside rewriteCalls) ↔
      (∀ b ∈ literals (pieces .outside s), Untouched b) ∧
        ∀ a ∈ outsides (tidied s), bytes (rewriteCalls a) = bytes a := by
  have hpieces : (∀ b ∈ literals (pieces .outside s), NoMarker b) →
      (pieces .outside (distinct (normalizeQuery s)) =
          (tidied s).map (Piece.outside rewriteCalls) ↔
        ∀ p ∈ tidied s, (p.literal (scan (.text false))).map distinct =
          p.outside rewriteCalls) := by
    intro hm
    rw [pieces_preprocess hm, map_inj_left]
  constructor
  · intro h
    have hm : ∀ b ∈ literals (pieces .outside s), NoMarker b := by
      intro b hb
      rw [← literals_tidied, ← literals_map_outside rewriteCalls, ← h] at hb
      have hout := noMarker_distinct (noMarker_normalizeQuery s)
      exact hout.infix ((splits_pieces hout).infix_of_mem_literals hb)
    have hall := (hpieces hm).1 h
    constructor
    · intro b hb
      rw [← distinct_scan_eq_self_iff (hm b hb)]
      rw [← literals_tidied] at hb
      obtain ⟨q, hp⟩ := mem_literals.1 hb
      exact congrArg Piece.text (hall _ hp)
    · intro a ha
      rw [← distinct_eq_rewriteCalls_iff]
      exact congrArg Piece.text (hall _ (mem_outsides.1 ha))
  · rintro ⟨hlit, hout⟩
    refine (hpieces fun b hb => (hlit b hb).1).2 ?_
    rintro ⟨_ | q, text⟩ hp
    · have htext := (distinct_eq_rewriteCalls_iff text).2 (hout text (mem_outsides.2 hp))
      exact congrArg (Piece.mk none) htext
    · have hb := mem_literals.2 ⟨q, hp⟩
      rw [literals_tidied] at hb
      have htext := (distinct_scan_eq_self_iff (hlit text hb).1).2 (hlit text hb)
      exact congrArg (Piece.mk (some q)) htext

/-! ## The parse tree -/

mutual

lemma map_snd_stringSites (parent : CypherRule) : ∀ t : Peg.Tree CypherRule,
    (stringSites parent t).map Prod.snd = t.texts .stringLiteral
  | .node r span children => by
    rw [stringSites, texts]
    split
    · rfl
    · exact map_snd_stringSitesOfList r children

lemma map_snd_stringSitesOfList (parent : CypherRule) : ∀ ts : List (Peg.Tree CypherRule),
    (stringSitesOfList parent ts).map Prod.snd = textsOfList .stringLiteral ts
  | [] => rfl
  | t :: ts => by
    rw [stringSitesOfList, textsOfList, map_append, map_snd_stringSites,
      map_snd_stringSitesOfList]

end

/-- The pieces of a text made of literals and of characters other than quotes. -/
lemma exists_splits_of_woven {texts : List (List Char)} {s : List Char}
    (h : Peg.Woven quotes IsStringLiteral texts s) :
    ∃ ps, Splits s ps ∧ literals ps = texts.map fun text => text.tail.dropLast := by
  induction h with
  | nil => exact ⟨[⟨none, []⟩], .last nofun, rfl⟩
  | @char c texts s hc _ ih =>
    have hopens : ∀ r, opens c r = false := by
      intro r
      rw [Bool.eq_false_iff, Ne, opens_eq_true]
      rintro ⟨hq, -⟩
      rcases isQuote_cases hq with rfl | rfl
      · exact hc (by decide)
      · exact hc (by decide)
    obtain ⟨ps, hps, hlit⟩ := ih
    cases hps with
    | last ha => exact ⟨_, .last (noOpening_cons.2 ⟨hopens _, ha⟩), hlit⟩
    | literal hq hb ha hr =>
      exact ⟨_, .literal (a := c :: _) hq hb (noOpening_cons.2 ⟨hopens _, ha⟩) hr, hlit⟩
  | @piece p texts s hp _ ih =>
    obtain ⟨q, b, hq, hb, rfl⟩ := hp
    obtain ⟨ps, hps, hlit⟩ := ih
    have hquotes : ∀ q ∈ quotes, isQuote q = true := by decide
    have hq := hquotes q hq
    refine ⟨⟨none, []⟩ :: ⟨some q, b⟩ :: ps, ?_, ?_⟩
    · have hsplits := Splits.literal (a := []) hq hb nofun hps
      rwa [nil_append, append_cons] at hsplits
    · rw [map_cons, ← hlit]
      have hbody : (q :: b ++ [q]).tail.dropLast = b := by simp
      rw [hbody]
      rfl

/-- The literals of a text without markers are those of its parse tree. -/
theorem literals_of_accepts {out : List Char} {tree : Peg.Tree CypherRule} (hm : NoMarker out)
    (h : Peg.Accepts cypher .query out tree) : literals (pieces .outside out) =
        (stringSites .query tree).map (fun site => site.2.tail.dropLast) ∧
      ∀ site ∈ stringSites .query tree, IsStringLiteral site.2 := by
  obtain ⟨n, hrun⟩ := h
  have hcomment : ¬ ['/', '/'] <:+: out := by
    intro hin
    have hmarker := List.IsChain.infix hm hin
    exact absurd hmarker (by decide)
  obtain ⟨⟨used, hout, hwoven⟩, -⟩ := Peg.run_woven cypher_confines hcomment rfl
    (fun h => by cases h) hrun
  have htexts : textsOfList .stringLiteral [tree] =
      (stringSites .query tree).map Prod.snd := by
    rw [textsOfList, textsOfList, append_nil, map_snd_stringSites]
  rw [append_nil] at hout
  subst hout
  rw [htexts] at hwoven
  obtain ⟨ps, hps, hlit⟩ := exists_splits_of_woven hwoven
  constructor
  · rw [hps.pieces_eq hm, hlit, map_map]
    rfl
  · intro site hsite
    exact hwoven.forall_mem _ (mem_map_of_mem hsite)

/-- The value of a literal in the AST is what is between its delimiters, unless it is the path of a
COPY statement. -/
lemma astValue_eq_iff {site : CypherRule × List Char} (h : IsStringLiteral site.2) :
    astValue site = site.2.tail.dropLast ↔ site.1 ≠ .copyFrom ∧ site.1 ≠ .copyTo := by
  obtain ⟨rule, span⟩ := site
  have hne : span ≠ span.tail.dropLast := by
    obtain ⟨q, b, _, _, rfl⟩ := h
    intro heq
    have hlen := congrArg length heq
    simp at hlen
    omega
  by_cases hfrom : rule = .copyFrom
  · subst hfrom
    exact ⟨fun heq => absurd heq hne, fun h => absurd rfl h.1⟩
  · by_cases hto : rule = .copyTo
    · subst hto
      exact ⟨fun heq => absurd heq hne, fun h => absurd rfl h.2⟩
    · refine ⟨fun _ => ⟨hfrom, hto⟩, fun _ => ?_⟩
      rw [astValue]
      · exact fun h => hfrom h
      · exact fun h => hto h

/-- **String literals are preserved** exactly if the passes leave each of them alone, no longer
letter takes part in a DISTINCT call outside of literals, and no literal is the path of a COPY
statement. -/
theorem literals_preserved (s : List Char) : PreservesLiterals s ↔
      (∀ b ∈ literals (pieces .outside s), Untouched b) ∧
        (∀ a ∈ outsides (tidied s), bytes (rewriteCalls a) = bytes a) ∧
        ∀ tree, Peg.Accepts cypher .query (distinct (normalizeQuery s)) tree →
          ∀ site ∈ stringSites .query tree, site.1 ≠ .copyFrom ∧ site.1 ≠ .copyTo := by
  have hm := noMarker_distinct (noMarker_normalizeQuery s)
  have hvalues : pieces .outside (distinct (normalizeQuery s)) =
      (tidied s).map (Piece.outside rewriteCalls) →
      ∀ tree, Peg.Accepts cypher .query (distinct (normalizeQuery s)) tree →
        (stringValues tree = literals (pieces .outside s) ↔
          ∀ site ∈ stringSites .query tree, site.1 ≠ .copyFrom ∧ site.1 ≠ .copyTo) := by
    intro hpieces tree htree
    obtain ⟨hlit, hall⟩ := literals_of_accepts hm htree
    rw [hpieces, literals_map_outside, literals_tidied] at hlit
    rw [hlit, stringValues, map_inj_left]
    exact forall₂_congr fun site hsite => astValue_eq_iff (hall site hsite)
  constructor
  · rintro ⟨out, hout, hpieces, htree⟩
    rw [preprocess_eq, Option.some.injEq] at hout
    subst hout
    obtain ⟨hlit, houtside⟩ := (pieces_preprocess_iff s).1 hpieces
    exact ⟨hlit, houtside, fun tree h => (hvalues hpieces tree h).1 (htree tree h)⟩
  · rintro ⟨hlit, houtside, hcopy⟩
    have hpieces := (pieces_preprocess_iff s).2 ⟨hlit, houtside⟩
    exact ⟨_, preprocess_eq s, hpieces, fun tree h => (hvalues hpieces tree h).2 (hcopy tree h)⟩

/-- A parse tree found by running the reader. -/
lemma exists_accepts (out : List Char) {p : Peg.Tree CypherRule → Bool} (n : ℕ)
    (h : (match Peg.run cypher n false (.rule .query) out with
      | some (some ([], [tree])) => p tree
      | _ => false) = true) : ∃ tree, Peg.Accepts cypher .query out tree ∧ p tree = true := by
  split at h
  next tree hrun => exact ⟨tree, ⟨n, hrun⟩, h⟩
  · cases h

/-- Two spaces in a literal become one, the path of a COPY statement keeps its quotes, and neither
comment markers nor DISTINCT calls in literals are safe. -/
theorem literal_changed : (∃ tree, (∃ out, preprocess "RETURN 'a  b'".toList = some out ∧
        Peg.Accepts cypher .query out tree) ∧ stringValues tree = ["a b".toList]) ∧
      literals (pieces .outside "RETURN 'a  b'".toList) = ["a  b".toList] ∧
      ¬ PreservesLiterals "RETURN 'a  b'".toList ∧
      ¬ PreservesLiterals "RETURN 'http://x'".toList ∧
      ¬ PreservesLiterals "RETURN 'COUNT(DISTINCT x)'".toList ∧
      ¬ PreservesLiterals "RETURN COUNT(DıSTINCT x)".toList ∧
      ¬ PreservesLiterals "COPY t FROM 'x'".toList := by
  have hout : ∀ s : List Char, NoCall (trim (scan (.text false) s)) →
      distinct (normalizeQuery s) = trim (scan (.text false) s) := by
    intro s h
    rw [normalizeQuery, normalizeLoop_eq_scan, distinct_eq_self h]
  have hpres : ∀ s : List Char, PreservesLiterals s →
      (∀ b ∈ literals (pieces .outside s), Untouched b) ∧
        ∀ a ∈ outsides (tidied s), bytes (rewriteCalls a) = bytes a := by
    rintro s ⟨out, hpre, hpieces, -⟩
    rw [preprocess_eq, Option.some.injEq] at hpre
    subst hpre
    exact (pieces_preprocess_iff s).1 hpieces
  refine ⟨?_, by decide, fun h => ?_, fun h => ?_, fun h => ?_, fun h => ?_, ?_⟩
  · obtain ⟨tree, htree, hvalue⟩ := exists_accepts "RETURN 'a b'".toList
      (p := fun tree => stringValues tree = ["a b".toList]) 120 (by decide +kernel)
    refine ⟨tree, ⟨_, preprocess_eq _, ?_⟩, of_decide_eq_true hvalue⟩
    rw [hout _ (by decide +kernel)]
    exact htree
  · exact absurd ((hpres _ h).1 "a  b".toList (by decide)) (by decide)
  · exact absurd ((hpres _ h).1 "http://x".toList (by decide)) (by decide)
  · exact absurd ((hpres _ h).1 "COUNT(DISTINCT x)".toList (by decide)) (by decide)
  · exact absurd ((hpres _ h).2 "RETURN COUNT(DıSTINCT x)".toList (by decide)) (by decide +kernel)
  · rintro ⟨out, hpre, -, htrees⟩
    rw [preprocess_eq, hout _ (by decide +kernel), Option.some.injEq] at hpre
    obtain ⟨tree, htree, hvalue⟩ := exists_accepts "COPY t FROM 'x'".toList
      (p := fun tree => stringValues tree = ["'x'".toList]) 120 (by decide +kernel)
    have heq := htrees tree (hpre ▸ htree)
    rw [of_decide_eq_true hvalue] at heq
    exact absurd heq (by decide)

end LightningDB
