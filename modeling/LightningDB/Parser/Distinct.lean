import LightningDB.Parser.Preprocess
import Mathlib.Algebra.GroupWithZero.Nat
import Mathlib.Data.List.Infix

/-!
# The rewriting of DISTINCT aggregates

`preprocess_distinct_functions` looks for `COUNT(DISTINCT ` and its five siblings and replaces each
by `COUNT_DISTINCT(`.  It compares upper cases, and those of Unicode: the ligature `ﬆ` matches `ST`
and the dotless `ı` matches `I`.  It replaces as many *bytes* as the search text has, which may be
fewer than the matching text has.

The lemmas say that this never cuts a character in two (`exists_used`), that what is taken away is
made of characters of the search text, so never a quote, a slash or an underscore, that a
replacement can be recognised by the underscore it adds (`count_underscore_distinct`), and where the
pass does what it is meant to do (`distinct_eq_rewriteCalls_iff`).
-/

namespace LightningDB

open List Option

/-- `char::to_uppercase`.  The code points listed are those whose upper case has ASCII characters;
the upper case of any other non-ASCII character has none, and it stands here for itself, which no
search text contains either. -/
def toUppercase (c : Char) : List Char :=
  if c.toNat < 128 then [c.toUpper]
  else
    match c.toNat with
    | 0x00DF => ['S', 'S']
    | 0x0131 => ['I']
    | 0x0149 => ['\u02bc', 'N']
    | 0x017F => ['S']
    | 0x01F0 => ['J', '\u030c']
    | 0x1E96 => ['H', '\u0331']
    | 0x1E97 => ['T', '\u0308']
    | 0x1E98 => ['W', '\u030a']
    | 0x1E99 => ['Y', '\u030a']
    | 0x1E9A => ['A', '\u02be']
    | 0xFB00 => ['F', 'F']
    | 0xFB01 => ['F', 'I']
    | 0xFB02 => ['F', 'L']
    | 0xFB03 => ['F', 'F', 'I']
    | 0xFB04 => ['F', 'F', 'L']
    | 0xFB05 | 0xFB06 => ['S', 'T']
    | _ => [c]

/-- `str::to_uppercase`. -/
def upperCase (s : List Char) : List Char := s.flatMap toUppercase

def aggregates : List (List Char) :=
  ["COUNT".toList, "SUM".toList, "AVG".toList, "MIN".toList, "MAX".toList, "COLLECT".toList]

/-- What is looked for and what is put in its place. -/
def search (func : List Char) : List Char := func ++ "(DISTINCT ".toList
def replacement (func : List Char) : List Char := func ++ "_DISTINCT(".toList

/-- The rest of a text after its first `n` bytes; `none` if a character ends up in two parts, or
the text is too short: `replace_range` panics then. -/
def dropBytes : ℕ → List Char → Option (List Char)
  | 0, cs => some cs
  | _ + 1, [] => none
  | n + 1, c :: cs => if c.utf8Size ≤ n + 1 then dropBytes (n + 1 - c.utf8Size) cs else none

variable {s func used : List Char} {c y : Char}

variable {n : ℕ} {rest w : List Char}

lemma length_le_of_dropBytes (h : dropBytes n s = some rest) : rest.length ≤ s.length := by
  fun_induction dropBytes n s with
  | case1 => exact (some.inj h) ▸ le_rfl
  | case3 n c s _ ih => exact (ih h).trans (Nat.le_succ _)
  | case2 | case4 => cases h

lemma length_lt_of_dropBytes {cs : List Char} (hn : 0 < n)
    (h : dropBytes n (c :: cs) = some rest) : rest.length < (c :: cs).length := by
  match n, hn with
  | n + 1, _ =>
    rw [dropBytes] at h
    split at h
    · exact Nat.lt_succ_of_le (length_le_of_dropBytes h)
    · cases h

lemma length_search_pos (func : List Char) : 0 < (search func).length := by
  rw [search, length_append]
  exact Nat.add_pos_right _ (by decide)

/-- The loop of `preprocess_distinct_functions` for one aggregate; `none` is a panic. -/
def replaceLoop (func : List Char) : List Char → Option (List Char)
  | [] => some []
  | c :: cs =>
    if (search func).isPrefixOf (upperCase (c :: cs)) then
      match _h : dropBytes (search func).length (c :: cs) with
      | none => none
      | some rest => (replaceLoop func rest).map (replacement func ++ ·)
    else (replaceLoop func cs).map (c :: ·)
termination_by s => s.length
decreasing_by
  · exact length_lt_of_dropBytes (length_search_pos func) (by assumption)
  · exact Nat.lt_succ_self _

/-- `preprocess_distinct_functions`. -/
def preprocessDistinctFunctions (s : List Char) : Option (List Char) :=
  aggregates.foldl (fun result func => result.bind (replaceLoop func)) (some s)

/-! ## Upper cases -/

lemma toUppercase_of_lt (h : c.toNat < 128) : toUppercase c = [c.toUpper] := by
  rw [toUppercase, if_pos h]

/-- The upper cases outside of ASCII. -/
lemma toUppercase_of_ge (h : 128 ≤ c.toNat) : toUppercase c = [c] ∨
      (c.utf8Size = 2 ∧ toUppercase c ∈ [['S', 'S'], ['I'], ['\u02bc', 'N'], ['S'],
        ['J', '\u030c']]) ∨
      (c.utf8Size = 3 ∧ toUppercase c ∈ [['H', '\u0331'], ['T', '\u0308'], ['W', '\u030a'],
        ['Y', '\u030a'], ['A', '\u02be'], ['F', 'F'], ['F', 'I'], ['F', 'L'], ['F', 'F', 'I'],
        ['F', 'F', 'L'], ['S', 'T']]) := by
  have hsize : ∀ n : ℕ, c.toNat = n → c = Char.ofNat n := by
    rintro n rfl
    exact (Char.ofNat_toNat c).symm
  rw [toUppercase, if_neg (not_lt.2 h)]
  split
  all_goals first
    | (rename_i heq; rw [hsize _ heq]; decide)
    | exact .inl rfl

lemma utf8Size_of_lt (h : c.toNat < 128) : c.utf8Size = 1 := by
  rw [Char.utf8Size, if_pos]
  exact UInt32.le_iff_toNat_le.2 (Nat.le_of_lt_succ h)

/-- The upper case letters for which a longer character may stand. -/
def widened (c : Char) : Bool := c == 'I' || c == 'S' || c == 'F'

/-- A character is at least as long as its upper case in ASCII, and not much longer. -/
lemma utf8Size_bounds (h : ∀ x ∈ toUppercase c, x.toNat < 128) :
    (toUppercase c).length ≤ c.utf8Size ∧
      c.utf8Size ≤ (toUppercase c).length + (toUppercase c).countP widened := by
  by_cases hc : c.toNat < 128
  · rw [toUppercase_of_lt hc, utf8Size_of_lt hc]
    exact ⟨le_rfl, Nat.le_add_right _ _⟩
  · rcases toUppercase_of_ge (not_lt.1 hc) with hup | ⟨hsize, hup⟩ | ⟨hsize, hup⟩
    · exact absurd (h c (by rw [hup]; exact mem_singleton_self c)) hc
    all_goals
      rw [hsize]
      generalize toUppercase c = up at h hup
      revert h
      revert up
      decide

/-- An upper case has a character, and a space and an `I` come last in it. -/
lemma toUppercase_shape (c : Char) :
    toUppercase c ≠ [] ∧ ∀ y ∈ [' ', 'I'], y ∉ (toUppercase c).dropLast := by
  by_cases hc : c.toNat < 128
  · rw [toUppercase_of_lt hc]
    exact ⟨cons_ne_nil _ _, fun _ _ => not_mem_nil⟩
  · rcases toUppercase_of_ge (not_lt.1 hc) with hup | ⟨_, hup⟩ | ⟨_, hup⟩
    · rw [hup]
      exact ⟨cons_ne_nil _ _, fun _ _ => not_mem_nil⟩
    all_goals
      generalize toUppercase c = up at hup
      revert up
      decide

/-- A character whose upper case starts with one of the last four of the search text. -/
lemma toUppercase_eq_singleton (hy : y ∈ ['N', 'C', 'T', ' '])
    (hhead : (toUppercase c).head? = some y)
    (hT : y = 'T' → ∀ x ∈ (toUppercase c).tail.head?, x.toNat < 128) :
    toUppercase c = [y] ∧ c.utf8Size = 1 := by
  by_cases hc : c.toNat < 128
  · rw [toUppercase_of_lt hc] at hhead ⊢
    exact ⟨by rw [some.inj hhead], utf8Size_of_lt hc⟩
  · exfalso
    rcases toUppercase_of_ge (not_lt.1 hc) with hup | ⟨_, hup⟩ | ⟨_, hup⟩
    · rw [hup, head?_cons, some.injEq] at hhead
      subst hhead
      have hlt : ∀ y ∈ ['N', 'C', 'T', ' '], y.toNat < 128 := by decide
      exact hc (hlt c hy)
    all_goals
      generalize toUppercase c = up at hup hhead hT
      revert up
      revert y
      decide

/-! ## What a replacement takes away -/

def bytes (s : List Char) : ℕ := (s.map Char.utf8Size).sum

@[simp] lemma bytes_cons (c : Char) (s : List Char) : bytes (c :: s) = c.utf8Size + bytes s := rfl

@[simp] lemma bytes_append (s t : List Char) : bytes (s ++ t) = bytes s + bytes t := by
  rw [bytes, map_append, sum_append]
  rfl

lemma dropBytes_append (s t : List Char) (n : ℕ) :
    dropBytes (bytes s + n) (s ++ t) = dropBytes n t := by
  induction s with
  | nil =>
    exact congrArg (dropBytes · t) (zero_add n)
  | cons c s ih =>
    have hpos := Char.utf8Size_pos c
    obtain ⟨k, hk⟩ : ∃ k, bytes (c :: s) + n = k + 1 :=
      ⟨c.utf8Size + bytes s + n - 1, by rw [bytes_cons]; omega⟩
    rw [hk, cons_append, dropBytes, ← hk, bytes_cons, if_pos (by omega), ← ih]
    congr 1
    omega

lemma upperCase_append (s t : List Char) : upperCase (s ++ t) = upperCase s ++ upperCase t :=
  flatMap_append

lemma upperCase_cons (c : Char) (s : List Char) :
    upperCase (c :: s) = toUppercase c ++ upperCase s := flatMap_cons

/-- A text that ends where characters end is the upper case of a part of the input. -/
lemma exists_region (hy : y ∈ [' ', 'I']) (h : w ++ [y] <+: upperCase s) :
    ∃ region rest, s = region ++ rest ∧ upperCase region = w ++ [y] := by
  induction s generalizing w with
  | nil => exact absurd (prefix_nil.1 h) (by simp)
  | cons c s ih =>
    by_cases hpre : toUppercase c <+: w ++ [y]
    · obtain ⟨t, ht⟩ := hpre
      rcases eq_nil_or_concat t with rfl | ⟨t, z, rfl⟩
      · refine ⟨[c], s, rfl, ?_⟩
        rw [append_nil] at ht
        rw [← ht]
        exact append_nil _
      · rw [concat_eq_append, ← append_assoc] at ht
        obtain ⟨ht, -⟩ := append_inj' ht rfl
        rw [← ht, append_assoc] at h
        obtain ⟨region, rest, rfl, hregion⟩ := ih ((prefix_append_right_inj _).1 h)
        refine ⟨c :: region, rest, rfl, ?_⟩
        rw [upperCase_cons, hregion, ← ht, append_assoc]
    · -- the text would end inside of the upper case of a character
      obtain ⟨t, ht⟩ := (List.prefix_or_prefix_of_prefix h (prefix_append _ _)).resolve_right hpre
      rcases eq_nil_or_concat t with rfl | ⟨t, z, rfl⟩
      · exact absurd ⟨[], by rw [← ht, append_nil, append_nil]⟩ hpre
      · refine absurd ?_ ((toUppercase_shape c).2 y hy)
        rw [← ht, concat_eq_append, ← append_assoc, dropLast_concat]
        simp

lemma bytes_bounds (h : ∀ x ∈ upperCase s, x.toNat < 128) : (upperCase s).length ≤ bytes s ∧
      bytes s ≤ (upperCase s).length + (upperCase s).countP widened := by
  induction s with
  | nil => exact ⟨le_rfl, Nat.zero_le _⟩
  | cons c s ih =>
    obtain ⟨hlo, hhi⟩ := ih fun x hx => h x (mem_append_right _ hx)
    obtain ⟨hclo, hchi⟩ := utf8Size_bounds fun x hx => h x (mem_append_left _ hx)
    rw [upperCase_cons, length_append, countP_append, bytes_cons]
    omega

/-- One of the last four characters of the search text is matched by one of a single byte. -/
lemma upperCase_step (hy : y ∈ ['N', 'C', 'T', ' '])
    (hw : ∀ x ∈ w, x.toNat < 128) (hT : y = 'T' → w ≠ []) (h : y :: w <+: upperCase s) :
    ∃ c rest, s = c :: rest ∧ toUppercase c = [y] ∧ c.utf8Size = 1 ∧ w <+: upperCase rest := by
  match s with
  | [] => exact absurd (prefix_nil.1 h) (cons_ne_nil _ _)
  | c :: rest =>
    refine ⟨c, rest, rfl, ?_⟩
    rw [upperCase_cons] at h
    have hsingle : toUppercase c = [y] ∧ c.utf8Size = 1 := by
      obtain ⟨z, zs, hup⟩ := exists_cons_of_ne_nil (toUppercase_shape c).1
      rw [hup, cons_append, cons_prefix_cons] at h
      refine toUppercase_eq_singleton hy (by rw [hup, h.1]; rfl) ?_
      rintro hyT x hx
      rw [hup] at hx
      match w, hT hyT, zs with
      | x' :: w, _, z' :: zs =>
        rw [cons_append, cons_prefix_cons] at h
        rw [← some.inj hx, ← h.2.1]
        exact hw x' mem_cons_self
    refine ⟨hsingle.1, hsingle.2, ?_⟩
    rw [hsingle.1, singleton_append, cons_prefix_cons] at h
    exact h.2

/-- What a replacement takes away: whole characters, with as many bytes as the search text, that
occur in it in upper case. -/
structure Taken (func used : List Char) : Prop where
  bytes_eq : bytes used = (search func).length
  mem_search : ∀ c ∈ used, ∀ x ∈ toUppercase c, x ∈ search func

/-- **A replacement cuts no character.** -/
theorem exists_used (hfunc : func ∈ aggregates) (h : search func <+: upperCase s) :
    ∃ used rest, s = used ++ rest ∧ Taken func used := by
  have hsearch : search func = (func ++ "(DIST".toList ++ ['I']) ++ "NCT ".toList := by
    rw [search]
    simp
  have hascii : ∀ func ∈ aggregates, ∀ x ∈ func ++ "(DIST".toList ++ ['I'], x.toNat < 128 := by
    decide
  have hwide : ∀ func ∈ aggregates,
      (func ++ "(DIST".toList ++ ['I']).countP widened ≤ 4 := by decide
  rw [hsearch] at h
  obtain ⟨region, r, rfl, hregion⟩ := exists_region (by decide) ((prefix_append _ _).trans h)
  rw [upperCase_append, hregion, prefix_append_right_inj] at h
  -- after the last `I` there are four characters of one byte each
  obtain ⟨c₁, r, rfl, hc₁, hs₁, h⟩ := upperCase_step (by decide) (by decide) (by decide) h
  obtain ⟨c₂, r, rfl, hc₂, hs₂, h⟩ := upperCase_step (by decide) (by decide) (by decide) h
  obtain ⟨c₃, r, rfl, hc₃, hs₃, h⟩ := upperCase_step (by decide) (by decide) (by decide) h
  obtain ⟨c₄, r, rfl, hc₄, hs₄, -⟩ := upperCase_step (by decide) (by decide) (by decide) h
  obtain ⟨hlo, hhi⟩ := bytes_bounds (s := region) (by rw [hregion]; exact hascii func hfunc)
  rw [hregion] at hlo hhi
  have hlen : (search func).length = (func ++ "(DIST".toList ++ ['I']).length + 4 := by
    rw [hsearch, length_append]
    rfl
  have hwide := hwide func hfunc
  have hlast : ∀ c ∈ [c₁, c₂, c₃, c₄],
      c.utf8Size = 1 ∧ ∃ y ∈ "NCT ".toList, toUppercase c = [y] := by
    simp only [mem_cons, not_mem_nil, or_false]
    rintro c (rfl | rfl | rfl | rfl)
    · exact ⟨hs₁, 'N', by decide, hc₁⟩
    · exact ⟨hs₂, 'C', by decide, hc₂⟩
    · exact ⟨hs₃, 'T', by decide, hc₃⟩
    · exact ⟨hs₄, ' ', by decide, hc₄⟩
  obtain ⟨k, hk, hk4⟩ : ∃ k, (search func).length = bytes region + k ∧ k ≤ 4 :=
    ⟨(search func).length - bytes region, by omega, by omega⟩
  refine ⟨region ++ [c₁, c₂, c₃, c₄].take k, [c₁, c₂, c₃, c₄].drop k ++ r, ?_, ?_, ?_⟩
  · rw [append_assoc, ← append_assoc (take _ _), take_append_drop]
    rfl
  · have hone : ∀ l : List Char, (∀ c ∈ l, c.utf8Size = 1) → bytes l = l.length := by
      intro l hl
      rw [bytes, map_congr_left hl]
      simp
    rw [bytes_append, hone _ fun c hc => (hlast c (mem_of_mem_take hc)).1, hk,
      length_take_of_le hk4]
  · intro c hc x hx
    rw [hsearch, mem_append]
    rcases mem_append.1 hc with hc | hc
    · left
      rw [← hregion]
      exact mem_flatMap.2 ⟨c, hc, hx⟩
    · right
      obtain ⟨_, y, hy, hup⟩ := hlast c (mem_of_mem_take hc)
      rw [hup, mem_singleton] at hx
      exact hx ▸ hy

/-! ## What a replacement leaves alone -/

/-- The characters that stay where they are: quotes, slashes, stars and underscores. -/
lemma Taken.not_mem (hfunc : func ∈ aggregates) (h : Taken func used)
    (hc : c ∈ ['\'', '"', '/', '*', '_']) : c ∉ used := by
  have hup : ∀ c ∈ ['\'', '"', '/', '*', '_'], c ∈ toUppercase c := by decide
  have hsearch : ∀ func ∈ aggregates, ∀ c ∈ ['\'', '"', '/', '*', '_'], c ∉ search func := by
    decide
  exact fun hmem => hsearch func hfunc c hc (h.mem_search c hmem c (hup c hc))

lemma Taken.ne_nil (h : Taken func used) : used ≠ [] := by
  rintro rfl
  have hpos := length_search_pos func
  rw [← h.bytes_eq] at hpos
  exact absurd hpos (by decide)

lemma Taken.dropBytes (h : Taken func used) (rest : List Char) :
    dropBytes (search func).length (used ++ rest) = some rest := by
  rw [← h.bytes_eq, ← add_zero (bytes used), dropBytes_append]
  cases rest <;> rfl

/-- What the loop for one aggregate does. -/
inductive Rewrites (func : List Char) : List Char → List Char → Prop where
  | nil : Rewrites func [] []
  | replace {used rest out : List Char} :
      search func <+: upperCase (used ++ rest) → Taken func used → Rewrites func rest out →
        Rewrites func (used ++ rest) (replacement func ++ out)
  | keep {c : Char} {cs out : List Char} :
      ¬ search func <+: upperCase (c :: cs) → Rewrites func cs out →
        Rewrites func (c :: cs) (c :: out)

lemma exists_rewrites (hfunc : func ∈ aggregates) (s : List Char) : ∃ out, Rewrites func s out := by
  induction hn : s.length using Nat.strong_induction_on generalizing s with
  | _ n ih =>
    subst hn
    match s with
    | [] => exact ⟨[], .nil⟩
    | c :: cs =>
      by_cases h : search func <+: upperCase (c :: cs)
      · obtain ⟨used, rest, hs, htaken⟩ := exists_used hfunc h
        have hlt : rest.length < (c :: cs).length := by
          rw [hs, length_append]
          exact Nat.lt_add_of_pos_left (length_pos_of_ne_nil htaken.ne_nil)
        obtain ⟨out, hout⟩ := ih _ hlt rest rfl
        exact ⟨replacement func ++ out, hs ▸ .replace (hs ▸ h) htaken hout⟩
      · obtain ⟨out, hout⟩ := ih cs.length (Nat.lt_succ_self _) cs rfl
        exact ⟨c :: out, .keep h hout⟩

variable {out : List Char}

lemma Rewrites.replaceLoop_eq (h : Rewrites func s out) : replaceLoop func s = some out := by
  induction h with
  | nil => rw [replaceLoop]
  | @replace used rest out h htaken _ ih =>
    obtain ⟨c, cs, hs⟩ : ∃ c cs, used ++ rest = c :: cs := by
      obtain ⟨c, used', rfl⟩ := exists_cons_of_ne_nil htaken.ne_nil
      exact ⟨c, used' ++ rest, rfl⟩
    have hdrop := htaken.dropBytes rest
    rw [hs] at h hdrop ⊢
    rw [replaceLoop, if_pos (List.isPrefixOf_iff_prefix.2 h)]
    split
    next hnone =>
      rw [hdrop] at hnone
      cases hnone
    next hsome =>
      rw [hdrop, some.injEq] at hsome
      rw [← hsome, ih, map_some]
  | keep h _ ih =>
    rw [replaceLoop, if_neg fun hpre => h (List.isPrefixOf_iff_prefix.1 hpre), ih, map_some]

lemma search_prefix_append_quote (hfunc : func ∈ aggregates) {q : Char} (hq : isQuote q = true)
    (a b : List Char) : search func <+: upperCase (a ++ q :: b) ↔ search func <+: upperCase a := by
  have hup : upperCase (a ++ q :: b) = upperCase a ++ q :: upperCase b := by
    have hq' : toUppercase q = [q] := by
      rcases isQuote_cases hq with rfl | rfl
      · decide
      · decide
    rw [upperCase_append, upperCase_cons, hq', singleton_append]
  have hnot : q ∉ search func := by
    have hall : ∀ func ∈ aggregates, '\'' ∉ search func ∧ '"' ∉ search func := by decide
    rcases isQuote_cases hq with rfl | rfl
    · exact (hall func hfunc).1
    · exact (hall func hfunc).2
  rw [hup]
  constructor
  · intro h
    rcases prefix_or_prefix_of_prefix h (prefix_append _ _) with hpre | hpre
    · exact hpre
    · obtain ⟨t, ht⟩ := hpre
      match t with
      | [] =>
        rw [append_nil] at ht
        exact ht ▸ prefix_rfl
      | x :: t =>
        rw [← ht, prefix_append_right_inj, cons_prefix_cons] at h
        refine absurd ?_ hnot
        rw [← ht, ← h.1]
        exact mem_append_right _ mem_cons_self
  · exact fun h => h.trans (prefix_append _ _)

namespace Rewrites

variable {func s out : List Char} (hfunc : func ∈ aggregates)
include hfunc

/-- The parts on the two sides of a quote are rewritten separately. -/
lemma append_quote {a a' b b' : List Char} {q : Char} (hq : isQuote q = true)
    (ha : Rewrites func a a') (hb : Rewrites func b b') :
    Rewrites func (a ++ q :: b) (a' ++ q :: b') := by
  induction ha with
  | nil =>
    refine .keep ?_ hb
    rw [← nil_append (q :: b), search_prefix_append_quote hfunc hq]
    exact fun h => absurd (prefix_nil.1 h) (ne_nil_of_length_pos (length_search_pos func))
  | replace h htaken _ ih =>
    rw [append_assoc, append_assoc]
    refine .replace ?_ htaken ih
    rw [← append_assoc, search_prefix_append_quote hfunc hq]
    exact h
  | keep h _ ih =>
    exact .keep (fun h' => h ((search_prefix_append_quote hfunc hq _ _).1 h')) ih

lemma head?_eq (h : Rewrites func s out) :
    ∀ d ∈ out.head?, d ∈ s.head? ∨ d ∈ ['C', 'S', 'A', 'M'] := by
  have hrepl : ∀ func ∈ aggregates, ∃ c ∈ ['C', 'S', 'A', 'M'],
      (replacement func).head? = some c := by decide
  intro d hd
  match h with
  | .nil => cases hd
  | .keep _ _ => exact .inl hd
  | .replace _ _ _ =>
    obtain ⟨c, hc, hhead⟩ := hrepl func hfunc
    rw [head?_append, hhead] at hd
    right
    rw [← some.inj hd]
    exact hc

/-- A property of neighbouring characters that the replacements have. -/
lemma isChain {R : Char → Char → Prop} (hrepl : (replacement func).IsChain R)
    (hletter : ∀ a, ∀ d ∈ ['C', 'S', 'A', 'M'], R a d) (hparen : ∀ d, R '(' d)
    (h : Rewrites func s out) (hs : s.IsChain R) : out.IsChain R := by
  have hlast : (replacement func).getLast? = some '(' := by
    have hall : ∀ func ∈ aggregates, (replacement func).getLast? = some '(' := by decide
    exact hall func hfunc
  induction h with
  | nil => exact .nil
  | replace _ _ _ ih =>
    refine hrepl.append (ih hs.right_of_append) ?_
    intro x hx y _
    rw [hlast] at hx
    exact (some.inj hx) ▸ hparen y
  | @keep c cs out _ hrw ih =>
    rw [isChain_cons] at hs ⊢
    refine ⟨fun d hd => ?_, ih hs.2⟩
    rcases hrw.head?_eq hfunc d hd with hd' | hd'
    · exact hs.1 d hd'
    · exact hletter c d hd'

/-- Quotes, which occur in no search text and in no replacement, stay. -/
lemma count_quote {q : Char} (hq : isQuote q = true) (h : Rewrites func s out) :
    out.count q = s.count q := by
  have hrepl : ∀ func ∈ aggregates, '\'' ∉ replacement func ∧ '"' ∉ replacement func := by decide
  have hnot : q ∉ replacement func ∧ q ∈ ['\'', '"', '/', '*', '_'] := by
    rcases isQuote_cases hq with rfl | rfl
    · exact ⟨(hrepl func hfunc).1, by decide⟩
    · exact ⟨(hrepl func hfunc).2, by decide⟩
  induction h with
  | nil => rfl
  | replace _ htaken _ ih =>
    rw [count_append, count_append, ih, count_eq_zero_of_not_mem hnot.1,
      count_eq_zero_of_not_mem (htaken.not_mem hfunc hnot.2)]
  | keep _ _ ih => rw [count_cons, count_cons, ih]

/-- **A replacement shows**: if no underscore has been added, nothing has been replaced. -/
lemma count_underscore (h : Rewrites func s out) : s.count '_' ≤ out.count '_' ∧
      (out.count '_' = s.count '_' →
        out = s ∧ ∀ t, t <:+ s → ¬ search func <+: upperCase t) := by
  induction h with
  | nil =>
    refine ⟨le_rfl, fun _ => ⟨rfl, fun t ht h => ?_⟩⟩
    rw [suffix_nil.1 ht] at h
    exact absurd (prefix_nil.1 h) (ne_nil_of_length_pos (length_search_pos func))
  | replace _ htaken _ ih =>
    have hused := count_eq_zero_of_not_mem (htaken.not_mem hfunc (c := '_') (by decide))
    have hrepl : ∀ func ∈ aggregates, (replacement func).count '_' = 1 := by decide
    rw [count_append, count_append, hused, hrepl func hfunc]
    refine ⟨?_, fun h => ?_⟩
    · have := ih.1
      omega
    · have := ih.1
      omega
  | @keep c cs out hnot _ ih =>
    rw [count_cons, count_cons]
    refine ⟨Nat.add_le_add_right ih.1 _, fun h => ?_⟩
    obtain ⟨rfl, hall⟩ := ih.2 (Nat.add_right_cancel h)
    refine ⟨rfl, fun t ht => ?_⟩
    rcases suffix_cons_iff.1 ht with rfl | ht
    · exact hnot
    · exact hall t ht

omit hfunc in
lemma eq_self (h : Rewrites func s out)
    (hnot : ∀ t, t <:+ s → ¬ search func <+: upperCase t) : out = s := by
  induction h with
  | nil => rfl
  | replace h _ _ _ => exact absurd h (hnot _ suffix_rfl)
  | keep _ _ ih => rw [ih fun t ht => hnot t (ht.trans (suffix_cons _ _))]

omit hfunc in
lemma bytes_eq (h : Rewrites func s out) (hrepl : bytes (replacement func) = (search func).length) :
    bytes out = bytes s := by
  induction h with
  | nil => rfl
  | replace _ htaken _ ih => rw [bytes_append, bytes_append, ih, hrepl, htaken.bytes_eq]
  | keep _ _ ih => rw [bytes_cons, bytes_cons, ih]

end Rewrites

/-! ## All aggregates -/

/-- The loop for one aggregate, as a total function. -/
def replaced (func s : List Char) : List Char := (replaceLoop func s).getD s

variable {func s : List Char} {q : Char}

lemma rewrites_replaced (hfunc : func ∈ aggregates) (s : List Char) :
    Rewrites func s (replaced func s) := by
  obtain ⟨out, hout⟩ := exists_rewrites hfunc s
  rw [replaced, hout.replaceLoop_eq]
  exact hout

lemma Rewrites.eq_replaced (h : Rewrites func s out) : out = replaced func s := by
  rw [replaced, h.replaceLoop_eq]
  rfl

/-- What the loops do is shown for one aggregate after another. -/
lemma aggregates_induction {P : List (List Char) → Prop} (hnil : P [])
    (hcons : ∀ func ∈ aggregates, ∀ funcs, P funcs → P (func :: funcs)) : P aggregates := by
  have h : ∀ funcs : List (List Char), funcs ⊆ aggregates → P funcs := by
    intro funcs hsub
    induction funcs with
    | nil => exact hnil
    | cons func funcs ih =>
      exact hcons func (hsub mem_cons_self) funcs (ih (subset_of_cons_subset hsub))
  exact h aggregates (List.Subset.refl _)

/-- The second pass as a total function. -/
def distinct (s : List Char) : List Char := aggregates.foldl (fun s func => replaced func s) s

/-- **The second pass never panics.** -/
theorem preprocessDistinctFunctions_eq (s : List Char) :
    preprocessDistinctFunctions s = some (distinct s) := by
  refine aggregates_induction (P := fun funcs => ∀ s,
    funcs.foldl (fun result func => result.bind (replaceLoop func)) (some s) =
      some (funcs.foldl (fun s func => replaced func s) s)) (fun s => rfl) ?_ s
  intro func hfunc funcs ih s
  rw [foldl_cons, bind_some, (rewrites_replaced hfunc s).replaceLoop_eq]
  exact ih _

lemma distinct_induction {P : List Char → Prop} (hs : P s)
    (hstep : ∀ func ∈ aggregates, ∀ s out, Rewrites func s out → P s → P out) : P (distinct s) :=
  foldlRecOn aggregates _ hs fun s hP func hfunc =>
    hstep func hfunc s _ (rewrites_replaced hfunc s) hP

/-- The second pass treats the two sides of a quote separately. -/
lemma distinct_append_quote (hq : isQuote q = true) (a b : List Char) :
    distinct (a ++ q :: b) = distinct a ++ q :: distinct b := by
  refine aggregates_induction (P := fun funcs => ∀ a b,
    funcs.foldl (fun s func => replaced func s) (a ++ q :: b) =
      funcs.foldl (fun s func => replaced func s) a ++
        q :: funcs.foldl (fun s func => replaced func s) b) (fun a b => rfl) ?_ a b
  intro func hfunc funcs ih a b
  rw [foldl_cons, ← ((rewrites_replaced hfunc a).append_quote hfunc hq
    (rewrites_replaced hfunc b)).eq_replaced]
  exact ih _ _

lemma noMarker_distinct (h : NoMarker s) : NoMarker (distinct s) := by
  refine distinct_induction h fun func hfunc s out hrw hs => ?_
  have hrepl : ∀ func ∈ aggregates, NoMarker (replacement func) := by decide
  refine hrw.isChain hfunc (hrepl func hfunc) (fun a d hd _ => ?_) (fun d h => ?_) hs
  · revert d
    decide
  · exact absurd h (by decide)

lemma count_distinct_quote (hq : isQuote q = true) (s : List Char) :
    (distinct s).count q = s.count q :=
  distinct_induction (P := fun out => out.count q = s.count q) rfl fun _ hfunc _ _ hrw hs =>
    (hrw.count_quote hfunc hq).trans hs

lemma mem_distinct_quote (hq : isQuote q = true) (s : List Char) : q ∈ distinct s ↔ q ∈ s := by
  rw [← count_pos_iff, count_distinct_quote hq, count_pos_iff]

/-- Nothing in the text looks like a DISTINCT aggregate. -/
def NoCall (s : List Char) : Prop :=
  ∀ func ∈ aggregates, ∀ t ∈ s.tails, ¬ search func <+: upperCase t

instance (s : List Char) : Decidable (NoCall s) :=
  inferInstanceAs (Decidable (∀ func ∈ aggregates, ∀ t ∈ s.tails, ¬ search func <+: upperCase t))

/-- **A replacement shows** in the number of underscores. -/
lemma count_underscore_distinct (s : List Char) : s.count '_' ≤ (distinct s).count '_' ∧
      ((distinct s).count '_' = s.count '_' → distinct s = s ∧ NoCall s) := by
  refine aggregates_induction (P := fun funcs => ∀ s : List Char,
    s.count '_' ≤ (funcs.foldl (fun s func => replaced func s) s).count '_' ∧
      ((funcs.foldl (fun s func => replaced func s) s).count '_' = s.count '_' →
        funcs.foldl (fun s func => replaced func s) s = s ∧
          ∀ func ∈ funcs, ∀ t ∈ s.tails, ¬ search func <+: upperCase t)) ?_ ?_ s
  · exact fun s => ⟨le_rfl, fun _ => ⟨rfl, nofun⟩⟩
  · intro func hfunc funcs ih s
    obtain ⟨hle, hsame⟩ := ih (replaced func s)
    obtain ⟨hle', hsame'⟩ := (rewrites_replaced hfunc s).count_underscore hfunc
    rw [foldl_cons]
    refine ⟨hle'.trans hle, fun heq => ?_⟩
    obtain ⟨hs, hnot⟩ := hsame' (le_antisymm (hle.trans_eq heq) hle')
    rw [hs] at hsame heq ⊢
    obtain ⟨hs', hnot'⟩ := hsame heq
    refine ⟨hs', forall_mem_cons.2 ⟨fun t ht => hnot t ((mem_tails t _).1 ht), hnot'⟩⟩

lemma distinct_eq_self (h : NoCall s) : distinct s = s := by
  refine distinct_induction (P := fun out => out = s) rfl ?_
  rintro func hfunc s' out hrw rfl
  exact hrw.eq_self fun t ht => h func hfunc t ((mem_tails t _).2 ht)

/-! ## The rewriting as it is meant

The head of a call that matches is replaced as a whole, however many bytes it has.  The source takes
away as many bytes as the search text has; the two agree where no longer letter takes part in a
match, and this can be told from the length. -/

/-- The rest of a text after the shortest part whose upper case is `w`. -/
def afterUpper : List Char → List Char → Option (List Char)
  | [], s => some s
  | _ :: _, [] => none
  | x :: w, c :: s =>
    if toUppercase c <+: x :: w then afterUpper ((x :: w).drop (toUppercase c).length) s else none

variable {w rest : List Char}

lemma afterUpper_eq_some (h : afterUpper w s = some rest) :
    ∃ used, s = used ++ rest ∧ upperCase used = w := by
  fun_induction afterUpper w s with
  | case1 => exact ⟨[], some.inj h, rfl⟩
  | case3 x w c s hpre ih =>
    obtain ⟨used, rfl, hused⟩ := ih h
    refine ⟨c :: used, rfl, ?_⟩
    rw [upperCase_cons, hused]
    exact prefix_iff_eq_append.1 hpre
  | case2 | case4 => cases h

lemma afterUpper_append (used rest : List Char) :
    afterUpper (upperCase used) (used ++ rest) = some rest := by
  induction used with
  | nil => cases rest <;> rfl
  | cons c used ih =>
    obtain ⟨x, xs, hup⟩ := exists_cons_of_ne_nil (toUppercase_shape c).1
    rw [upperCase_cons, hup, cons_append, cons_append, afterUpper, hup,
      ← cons_append, if_pos (prefix_append (x :: xs) _), drop_left]
    exact ih

lemma length_lt_of_afterUpper (hw : w ≠ []) (h : afterUpper w s = some rest) :
    rest.length < s.length := by
  obtain ⟨used, rfl, hused⟩ := afterUpper_eq_some h
  have hne : used ≠ [] := by
    rintro rfl
    exact hw hused.symm
  rw [length_append]
  exact Nat.lt_add_of_pos_left (length_pos_of_ne_nil hne)

def rewriteCall (func : List Char) : List Char → List Char
  | [] => []
  | c :: cs =>
    match _h : afterUpper (search func) (c :: cs) with
    | some rest => replacement func ++ rewriteCall func rest
    | none => c :: rewriteCall func cs
termination_by s => s.length
decreasing_by
  · exact length_lt_of_afterUpper (ne_nil_of_length_pos (length_search_pos func))
      (by assumption)
  · exact Nat.lt_succ_self _

def rewriteCalls (s : List Char) : List Char :=
  aggregates.foldl (fun s func => rewriteCall func s) s

/-- A text that matches has a part that does. -/
lemma search_prefix_iff (func s : List Char) :
    search func <+: upperCase s ↔ ∃ rest, afterUpper (search func) s = some rest := by
  constructor
  · intro h
    have hsearch : search func = (func ++ "(DISTINCT".toList) ++ [' '] := by
      rw [search]
      simp
    rw [hsearch] at h ⊢
    obtain ⟨used, rest, rfl, hused⟩ := exists_region (by decide) h
    exact ⟨rest, hused ▸ afterUpper_append used rest⟩
  · rintro ⟨rest, h⟩
    obtain ⟨used, rfl, hused⟩ := afterUpper_eq_some h
    rw [upperCase_append, hused]
    exact prefix_append _ _

/-- What one loop does is what is meant, if that keeps the length. -/
lemma rewriteCall_bytes (hfunc : func ∈ aggregates) (s : List Char) :
    bytes (rewriteCall func s) ≤ bytes s ∧
      (bytes (rewriteCall func s) = bytes s → Rewrites func s (rewriteCall func s)) := by
  have hascii : ∀ func ∈ aggregates, ∀ x ∈ search func, x.toNat < 128 := by decide
  have hrepl : ∀ func ∈ aggregates, bytes (replacement func) = (search func).length := by decide
  fun_induction rewriteCall func s with
  | case1 => exact ⟨le_rfl, fun _ => .nil⟩
  | case2 c cs rest h ih =>
    obtain ⟨used, hs, hused⟩ := afterUpper_eq_some h
    have hlo := (bytes_bounds (s := used) (by rw [hused]; exact hascii func hfunc)).1
    rw [hused] at hlo
    rw [hs, bytes_append, bytes_append, hrepl func hfunc]
    refine ⟨by have := ih.1; omega, fun heq => ?_⟩
    refine .replace ?_ ⟨by have := ih.1; omega, fun x hx y hy => ?_⟩ (ih.2 ?_)
    · rw [← hs, search_prefix_iff]
      exact ⟨rest, h⟩
    · rw [← hused]
      exact mem_flatMap.2 ⟨x, hx, hy⟩
    · omega
  | case3 c cs h ih =>
    refine ⟨Nat.add_le_add_left ih.1 _, fun heq => .keep ?_ (ih.2 (Nat.add_left_cancel heq))⟩
    rw [search_prefix_iff]
    rintro ⟨rest, hrest⟩
    rw [h] at hrest
    cases hrest

/-- **The second pass does what is meant exactly where that keeps the length in bytes.** -/
theorem distinct_eq_rewriteCalls_iff (s : List Char) :
    distinct s = rewriteCalls s ↔ bytes (rewriteCalls s) = bytes s := by
  have hrepl : ∀ func ∈ aggregates, bytes (replacement func) = (search func).length := by decide
  have hbytes : bytes (distinct s) = bytes s :=
    distinct_induction (P := fun out => bytes out = bytes s) rfl fun func hfunc s' out hrw hs =>
      (hrw.bytes_eq (hrepl func hfunc)).trans hs
  refine ⟨fun h => by rw [← h, hbytes], And.right (aggregates_induction (P := fun funcs => ∀ s,
    bytes (funcs.foldl (fun s func => rewriteCall func s) s) ≤ bytes s ∧
      (bytes (funcs.foldl (fun s func => rewriteCall func s) s) = bytes s →
        funcs.foldl (fun s func => replaced func s) s =
          funcs.foldl (fun s func => rewriteCall func s) s)) ?_ ?_ s)⟩
  · exact fun s => ⟨le_rfl, fun _ => rfl⟩
  · intro func hfunc funcs ih s
    obtain ⟨hle, hsame⟩ := ih (rewriteCall func s)
    obtain ⟨hle', hsame'⟩ := rewriteCall_bytes hfunc s
    rw [foldl_cons, foldl_cons]
    refine ⟨hle.trans hle', fun heq => ?_⟩
    have hstep : bytes (rewriteCall func s) = bytes s := le_antisymm hle' (heq ▸ hle)
    rw [← (hsame' hstep).eq_replaced]
    exact hsame (heq.trans hstep.symm)

end LightningDB
