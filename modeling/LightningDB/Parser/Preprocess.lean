import Mathlib.Data.List.Chain
import Mathlib.Data.List.DropRight
import Mathlib.Data.List.TakeWhile

/-!
# The two passes over the query text

Before the grammar sees a query, `normalize_query` strips comments and collapses whitespace, and
`preprocess_distinct_functions` turns `COUNT(DISTINCT x)` into `COUNT_DISTINCT(x)`, likewise for the
other aggregates.  Both work on characters and know nothing of string literals.

The first pass is put into the form of a machine (`scan`) that reads one character at a time, so
that what it does to a text made of parts can be said part by part.  For the second, the lemmas say
which characters a replacement takes away (`Matches`): none of them a quote, a slash or an
underscore, and always whole characters although the source counts bytes.
-/

namespace LightningDB

open List

/-- Bounded quantifiers over characters are decided along the list, not over all characters. -/
instance (priority := 2000) decidableForallMemChar (p : Char → Prop) [DecidablePred p]
    (l : List Char) : Decidable (∀ c ∈ l, p c) :=
  List.decidableBAll p l

instance (priority := 2000) decidableExistsMemChar (p : Char → Prop) [DecidablePred p]
    (l : List Char) : Decidable (∃ c ∈ l, p c) :=
  List.decidableBEx p l

instance (priority := 2000) decidableForallMemOptionChar (p : Char → Prop) [DecidablePred p]
    (o : Option Char) : Decidable (∀ c ∈ o, p c) :=
  Option.decidableForallMem o

/-! ## Comments and whitespace -/

/-- `char::is_whitespace`: the code points with the property White_Space. -/
def isWhitespace (c : Char) : Bool :=
  (9 ≤ c.toNat && c.toNat ≤ 13) || c.toNat == 0x20 || c.toNat == 0x85 || c.toNat == 0xA0 ||
    c.toNat == 0x1680 || (0x2000 ≤ c.toNat && c.toNat ≤ 0x200A) || c.toNat == 0x2028 ||
    c.toNat == 0x2029 || c.toNat == 0x202F || c.toNat == 0x205F || c.toNat == 0x3000

/-- The rest of a text after a block comment that has been opened; `prev` is the character before. -/
def dropBlock (prev : Char) : List Char → List Char
  | [] => []
  | c :: cs => if prev = '*' ∧ c = '/' then cs else dropBlock c cs

lemma length_dropBlock_le (prev : Char) (s : List Char) : (dropBlock prev s).length ≤ s.length := by
  induction s generalizing prev with
  | nil => exact le_rfl
  | cons c cs ih =>
    rw [dropBlock]
    split
    · exact Nat.le_succ _
    · exact (ih c).trans (Nat.le_succ _)

/-- The loop of `normalize_query`. -/
def normalizeLoop : List Char → List Char
  | [] => []
  | '/' :: '/' :: cs => normalizeLoop (cs.dropWhile (· != '\n'))
  | '/' :: '*' :: cs => normalizeLoop (dropBlock '\x00' cs)
  | c :: cs =>
    if isWhitespace c then ' ' :: normalizeLoop (cs.dropWhile isWhitespace)
    else c :: normalizeLoop cs
termination_by s => s.length
decreasing_by
  · exact Nat.lt_succ_of_lt (Nat.lt_succ_of_le (length_dropWhile_le _ _))
  · exact Nat.lt_succ_of_lt (Nat.lt_succ_of_le (length_dropBlock_le _ _))
  · exact Nat.lt_succ_of_le (length_dropWhile_le _ _)
  · exact Nat.lt_succ_self _

variable (s : List Char)

/-- `str::trim_start`, `str::trim_end` and `str::trim`. -/
def trimStart : List Char := s.dropWhile isWhitespace
def trimEnd : List Char := s.rdropWhile isWhitespace
def trim : List Char := trimEnd (trimStart s)

/-- `normalize_query`. -/
def normalizeQuery : List Char := trim (normalizeLoop s)

/-- Where the loop is: in text, after a space it has written or not, or in a comment. -/
inductive ScanMode where
  | text (spaced : Bool)
  | line
  | block (prev : Char)
deriving DecidableEq

/-- The loop, one character at a time. -/
def scan : ScanMode → List Char → List Char
  | _, [] => []
  | .text _, '/' :: '/' :: cs => scan .line cs
  | .text _, '/' :: '*' :: cs => scan (.block '\x00') cs
  | .text spaced, c :: cs =>
    if isWhitespace c then
      if spaced then scan (.text true) cs else ' ' :: scan (.text true) cs
    else c :: scan (.text false) cs
  | .line, c :: cs => if c = '\n' then ' ' :: scan (.text true) cs else scan .line cs
  | .block prev, c :: cs =>
    if prev = '*' ∧ c = '/' then scan (.text false) cs else scan (.block c) cs

def startsComment : List Char → Bool
  | '/' :: '/' :: _ | '/' :: '*' :: _ => true
  | _ => false

variable {c : Char} {s cs : List Char}

lemma startsComment_cons (hc : c ≠ '/') (cs : List Char) : startsComment (c :: cs) = false := by
  rw [startsComment.eq_def]
  split
  next h => exact absurd (cons.inj h).1 hc
  next h => exact absurd (cons.inj h).1 hc
  · rfl

lemma startsComment_eq_true (h : startsComment s = true) :
    ∃ cs, s = '/' :: '/' :: cs ∨ s = '/' :: '*' :: cs := by
  rw [startsComment.eq_def] at h
  split at h
  · exact ⟨_, .inl rfl⟩
  · exact ⟨_, .inr rfl⟩
  · cases h

lemma startsComment_cons_cons (c d : Char) (s : List Char) :
    startsComment (c :: d :: s) = (c == '/' && (d == '/' || d == '*')) := by
  rw [startsComment.eq_def]
  split
  next h =>
    injection h with hc h
    injection h with hd _
    subst hc hd
    rfl
  next h =>
    injection h with hc h
    injection h with hd _
    subst hc hd
    rfl
  next h₁ h₂ =>
    by_cases hc : c = '/'
    · have hd₁ : d ≠ '/' := fun hd => h₁ s (by rw [hc, hd])
      have hd₂ : d ≠ '*' := fun hd => h₂ s (by rw [hc, hd])
      simp [hd₁, hd₂]
    · simp [hc]

lemma not_comment_of_not_startsComment (h : startsComment (c :: cs) = false) :
    (∀ cs', c = '/' → cs = '/' :: cs' → False) ∧ ∀ cs', c = '/' → cs = '*' :: cs' → False := by
  constructor
  · rintro cs' rfl rfl
    cases h
  · rintro cs' rfl rfl
    cases h

lemma scan_text_cons (h : startsComment (c :: cs) = false) (spaced : Bool) :
    scan (.text spaced) (c :: cs) =
      if isWhitespace c then
        if spaced then scan (.text true) cs else ' ' :: scan (.text true) cs
      else c :: scan (.text false) cs := by
  obtain ⟨h₁, h₂⟩ := not_comment_of_not_startsComment h
  rw [scan]
  · exact h₁
  · exact h₂

variable (s)

lemma scan_spaced : scan (.text true) s = scan (.text false) (s.dropWhile isWhitespace) := by
  induction s with
  | nil => rfl
  | cons c cs ih =>
    by_cases hws : isWhitespace c = true
    · have hstart : startsComment (c :: cs) = false :=
        startsComment_cons (by rintro rfl; exact absurd hws (by decide)) cs
      rw [scan_text_cons hstart, if_pos hws, if_pos rfl, dropWhile_cons_of_pos hws, ih]
    · rw [dropWhile_cons_of_neg hws]
      by_cases hstart : startsComment (c :: cs) = true
      · obtain ⟨cs', h | h⟩ := startsComment_eq_true hstart
        · rw [h]
          rfl
        · rw [h]
          rfl
      · have hstart : startsComment (c :: cs) = false := by simpa using hstart
        rw [scan_text_cons hstart, scan_text_cons hstart, if_neg hws, if_neg hws]

lemma scan_line : scan .line s = scan (.text false) (s.dropWhile (· != '\n')) := by
  induction s with
  | nil => rfl
  | cons c cs ih =>
    rw [scan]
    split
    next hc =>
      subst hc
      rfl
    next hc => rw [dropWhile_cons_of_pos (by simpa using hc), ih]

lemma scan_block (prev : Char) (s : List Char) :
    scan (.block prev) s = scan (.text false) (dropBlock prev s) := by
  induction s generalizing prev with
  | nil => rfl
  | cons c cs ih =>
    rw [scan, dropBlock]
    split
    · rfl
    · exact ih c

/-- The loop is the machine. -/
theorem normalizeLoop_eq_scan : normalizeLoop s = scan (.text false) s := by
  fun_induction normalizeLoop s with
  | case1 => rfl
  | case2 cs ih => rw [ih, scan, scan_line]
  | case3 cs ih => rw [ih, scan, scan_block]
  | case4 c cs h1 h2 hws ih =>
    rw [ih, scan, if_pos hws, if_neg Bool.false_ne_true, scan_spaced]
    · exact h1
    · exact h2
  | case5 c cs h1 h2 hws ih =>
    rw [ih, scan, if_neg hws]
    · exact h1
    · exact h2

/-! ## What the first pass leaves

A *marker* is a pair of characters that opens a comment.  There is none in what the loop has
written; and on a text without markers all it does is to collapse whitespace. -/

/-- No comment is opened anywhere in the text. -/
def NoMarker : Prop := s.IsChain fun a b => a = '/' → b ≠ '/' ∧ b ≠ '*'

def SingleSpaced : Prop :=
  (∀ c ∈ s, isWhitespace c = true → c = ' ') ∧
    s.IsChain fun a b => isWhitespace a = true → isWhitespace b = false

variable {s}

instance (s : List Char) : Decidable (NoMarker s) :=
  inferInstanceAs (Decidable (s.IsChain fun a b => a = '/' → b ≠ '/' ∧ b ≠ '*'))

instance (s : List Char) : Decidable (SingleSpaced s) :=
  inferInstanceAs (Decidable ((∀ c ∈ s, isWhitespace c = true → c = ' ') ∧
    s.IsChain fun a b => isWhitespace a = true → isWhitespace b = false))

lemma NoMarker.startsComment (h : NoMarker s) : startsComment s = false := by
  by_contra hstart
  obtain ⟨cs, rfl | rfl⟩ := startsComment_eq_true (by simpa using hstart)
  · exact ((isChain_cons_cons.1 h).1 rfl).1 rfl
  · exact ((isChain_cons_cons.1 h).1 rfl).2 rfl

lemma NoMarker.tail (h : NoMarker (c :: s)) : NoMarker s :=
  List.IsChain.tail h

/-- What the loop writes first, where the input does not go on with a comment. -/
lemma head?_scan (hc : c ≠ '/') (spaced : Bool) :
    ∀ d ∈ (scan (.text spaced) (c :: cs)).head?, isWhitespace c = false → d = c := by
  intro d hd hws
  rw [scan_text_cons (startsComment_cons hc cs), if_neg (by simp [hws])] at hd
  simpa using hd.symm

/-- **The first pass leaves no marker.** -/
lemma noMarker_scan (m : ScanMode) (s : List Char) : NoMarker (scan m s) := by
  fun_induction scan m s with
  | case1 => exact .nil
  | case2 _ _ ih => exact ih
  | case3 _ _ ih => exact ih
  | case4 c cs h₁ h₂ hws ih => exact ih
  | case5 spaced c cs h₁ h₂ hws hspaced ih =>
    exact ih.cons fun d _ h => absurd h (by decide)
  | case6 spaced c cs h₁ h₂ hws ih =>
    refine ih.cons fun d hd hc => ?_
    match cs with
    | [] => cases hd
    | e :: cs =>
      have he₁ : e ≠ '/' := fun he => h₁ cs hc (by rw [he])
      have he₂ : e ≠ '*' := fun he => h₂ cs hc (by rw [he])
      by_cases hws' : isWhitespace e = true
      · rw [scan_text_cons (startsComment_cons he₁ cs), if_pos hws'] at hd
        rw [← Option.some.inj hd]
        decide
      · rw [head?_scan he₁ false d hd (by simpa using hws')]
        exact ⟨he₁, he₂⟩
  | case7 cs ih => exact ih.cons fun d _ h => absurd h (by decide)
  | case8 c cs hc ih => exact ih
  | case9 prev c cs h ih => exact ih
  | case10 prev c cs h ih => exact ih

/-- A character that neither opens a comment nor is collapsed: the delimiters of literals. -/
def isQuote (c : Char) : Bool := c == '\'' || c == '"'

lemma isQuote_cases {q : Char} (hq : isQuote q = true) : q = '\'' ∨ q = '"' := by
  simpa [isQuote] using hq

section Quote

variable {q : Char} (hq : isQuote q = true)
include hq

lemma isWhitespace_quote : isWhitespace q = false := by
  rcases isQuote_cases hq with rfl | rfl
  · decide
  · decide

lemma quote_ne_slash : q ≠ '/' := by
  rintro rfl
  cases hq

lemma quote_ne_star : q ≠ '*' := by
  rintro rfl
  cases hq

lemma scan_quote (spaced : Bool) (r : List Char) :
    scan (.text spaced) (q :: r) = q :: scan (.text false) r := by
  rw [scan_text_cons (startsComment_cons (quote_ne_slash hq) r),
    if_neg (by simp [isWhitespace_quote hq])]

/-- Text without markers up to a quote is read by itself. -/
lemma scan_append_quote {a : List Char} (ha : NoMarker a) (spaced : Bool) (r : List Char) :
    scan (.text spaced) (a ++ q :: r) = scan (.text spaced) a ++ q :: scan (.text false) r := by
  induction a generalizing spaced with
  | nil => exact scan_quote hq spaced r
  | cons c a ih =>
    have hstart : startsComment (c :: (a ++ q :: r)) = false := by
      match a with
      | [] =>
        rw [nil_append, startsComment_cons_cons]
        simp [quote_ne_slash hq, quote_ne_star hq]
      | d :: a =>
        rw [cons_append, startsComment_cons_cons, ← startsComment_cons_cons c d a]
        exact ha.startsComment
    rw [cons_append, scan_text_cons hstart, scan_text_cons ha.startsComment]
    split
    · split
      · exact ih ha.tail true
      · rw [ih ha.tail true, cons_append]
    · rw [ih ha.tail false, cons_append]

end Quote

lemma scan_eq_self {s : List Char} (hm : NoMarker s) (hs : SingleSpaced s) :
    scan (.text false) s = s := by
  induction s with
  | nil => rfl
  | cons c s ih =>
    have hs' : SingleSpaced s :=
      ⟨fun d hd => hs.1 d (mem_cons_of_mem c hd), List.IsChain.tail hs.2⟩
    rw [scan_text_cons hm.startsComment]
    split
    next hws =>
      rw [if_neg Bool.false_ne_true, scan_spaced, hs.1 c mem_cons_self hws]
      congr 1
      -- the next character is no whitespace, so there is nothing to drop
      match s with
      | [] => rfl
      | d :: s =>
        rw [dropWhile_cons_of_neg (by simp [(isChain_cons_cons.1 hs.2).1 hws])]
        exact ih hm.tail hs'
    · rw [ih hm.tail hs']

/-- What is left of a text without markers is single-spaced. -/
lemma singleSpaced_scan {s : List Char} (hm : NoMarker s) (spaced : Bool) :
    SingleSpaced (scan (.text spaced) s) ∧
      (spaced = true → ∀ d ∈ (scan (.text spaced) s).head?, isWhitespace d = false) := by
  induction s generalizing spaced with
  | nil =>
    refine ⟨⟨fun c hc => ?_, .nil⟩, fun _ d hd => ?_⟩
    · cases hc
    · cases hd
  | cons c s ih =>
    rw [scan_text_cons hm.startsComment]
    split
    · obtain ⟨hs, hhead⟩ := ih hm.tail true
      split
      · exact ⟨hs, fun _ => hhead rfl⟩
      next hspaced =>
        refine ⟨⟨?_, hs.2.cons fun d hd _ => hhead rfl d hd⟩, fun h => absurd h hspaced⟩
        intro d hd hws
        rcases mem_cons.1 hd with rfl | hd
        · rfl
        · exact hs.1 d hd hws
    next hws =>
      obtain ⟨hs, _⟩ := ih hm.tail false
      refine ⟨⟨?_, hs.2.cons fun d _ h => absurd h hws⟩, fun _ d hd => ?_⟩
      · intro d hd hws'
        rcases mem_cons.1 hd with rfl | hd
        · exact absurd hws' hws
        · exact hs.1 d hd hws'
      · rw [← Option.some.inj hd]
        simpa using hws

end LightningDB
