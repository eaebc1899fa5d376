import Mathlib.Data.List.Basic

/-!
# Parsing expression grammars

Parsing expressions over a type `R` of rule names, with the conventions of pest: between the parts
of a sequence and between the repetitions of a star the grammar's `skip` expression is read, except
inside an *atomic* rule; a *silent* rule leaves no node in the parse tree, and neither does any rule
called from an atomic one.

`run` is the recursive-descent reader, with fuel: `none` is "out of fuel", `some none` is failure.
The one general fact about it is `run_woven`: if no terminal of the grammar outside of one
distinguished rule accepts a *mark* (a quote, say), then what has been read is unmarked text
interwoven with the texts of the nodes of that rule, in the order of the tree.
-/

namespace Framework

open List Option

universe u

/-- Parsing expressions. -/
inductive Peg (R : Type u) where
  | text (s : List Char)
  /-- A text up to the case of ASCII letters. -/
  | textCI (s : List Char)
  | char (p : Char → Bool)
  | eoi
  | seq (a b : Peg R)
  | alt (a b : Peg R)
  | opt (a : Peg R)
  | star (a : Peg R)
  /-- The repetitions of a star after the first. -/
  | more (a : Peg R)
  | not (a : Peg R)
  | rule (r : R)

/-- A node of a parse tree: the rule, the text it has read and the nodes below it. -/
inductive Peg.Tree (R : Type u) where
  | node (r : R) (span : List Char) (children : List (Peg.Tree R))

/-- How a rule treats the trees and the skipping below it. -/
inductive Peg.Kind where
  | normal
  | silent
  | atomic
deriving DecidableEq

/-- A grammar: what each rule reads, and what is skipped between parts. -/
structure Peg.Grammar (R : Type u) where
  body : R → Peg R
  kind : R → Peg.Kind
  skip : Peg R

namespace Peg

variable {R : Type u}

/-- One or more repetitions. -/
def plus (a : Peg R) : Peg R := .seq a (.star a)

/-- What is left of an input after a text, up to an equivalence of characters. -/
def strip (same : Char → Char → Bool) : List Char → List Char → Option (List Char)
  | [], input => some input
  | p :: ps, c :: input => if same p c then strip same ps input else none
  | _ :: _, [] => none

/-- Equality up to the case of ASCII letters. -/
def sameCI (p c : Char) : Bool := p.toLower == c.toLower

/-- The outcome of reading: out of fuel, failure, or the rest of the input and the trees. -/
abbrev Result (R : Type u) : Type u := Option (Option (List Char × List (Tree R)))

/-- Success. -/
def Result.ok (rest : List Char) (trees : List (Tree R)) : Result R := some (some (rest, trees))

/-- Go on where a reader has stopped. -/
def Result.andThen (r : Result R) (k : List Char → Result R) : Result R :=
  match r with
  | none => none
  | some none => some none
  | some (some (rest, trees)) =>
    match k rest with
    | none => none
    | some none => some none
    | some (some (rest', trees')) => .ok rest' (trees ++ trees')

/-- Ordered choice. -/
def Result.orElse (r r' : Result R) : Result R :=
  match r with
  | none => none
  | some none => r'
  | some (some x) => some (some x)

/-- The reader of an expression; the flag says whether an atomic rule is being read. -/
def run (G : Grammar R) : ℕ → Bool → Peg R → List Char → Result R
  | 0, _, _, _ => none
  | _ + 1, _, .text s, input => some ((strip (· == ·) s input).map (·, []))
  | _ + 1, _, .textCI s, input => some ((strip sameCI s input).map (·, []))
  | _ + 1, _, .char p, input =>
    match input with
    | c :: rest => if p c then .ok rest [] else some none
    | [] => some none
  | _ + 1, _, .eoi, input => if input = [] then .ok [] [] else some none
  | n + 1, inAtomic, .seq a b, input =>
    (run G n inAtomic a input).andThen fun rest =>
      (if inAtomic then .ok rest [] else run G n true G.skip rest).andThen (run G n inAtomic b)
  | n + 1, inAtomic, .alt a b, input => (run G n inAtomic a input).orElse (run G n inAtomic b input)
  | n + 1, inAtomic, .opt a, input => (run G n inAtomic a input).orElse (.ok input [])
  | n + 1, inAtomic, .star a, input =>
    ((run G n inAtomic a input).andThen (run G n inAtomic (.more a))).orElse (.ok input [])
  | n + 1, inAtomic, .more a, input =>
    ((if inAtomic then .ok input [] else run G n true G.skip input).andThen fun rest =>
      (run G n inAtomic a rest).andThen (run G n inAtomic (.more a))).orElse (.ok input [])
  | n + 1, inAtomic, .not a, input =>
    match run G n inAtomic a input with
    | none => none
    | some none => .ok input []
    | some (some _) => some none
  | n + 1, inAtomic, .rule r, input =>
    match run G n (inAtomic || G.kind r == .atomic) (G.body r) input with
    | none => none
    | some none => some none
    | some (some (rest, trees)) =>
      if inAtomic || G.kind r == .silent then .ok rest trees
      else .ok rest [.node r (input.take (input.length - rest.length)) trees]

/-- A whole text is read as one tree of the rule `r`. -/
def Accepts (G : Grammar R) (r : R) (input : List Char) (t : Tree R) : Prop :=
  ∃ n, run G n false (.rule r) input = .ok [] [t]

/-! ## Success, taken apart -/

section Success

variable {r r' : Result R} {k : List Char → Result R} {rest : List Char} {trees : List (Tree R)}

variable {G : Grammar R} {n : ℕ} {e : Peg R} {input : List Char}

/-- A reading that comes to an end has had fuel. -/
lemma exists_fuel {b : Bool} {x : Option (List Char × List (Tree R))}
    (h : run G n b e input = some x) : ∃ m, n = m + 1 := by
  cases n with
  | zero => cases h
  | succ m => exact ⟨m, rfl⟩

lemma Result.andThen_eq_ok : r.andThen k = .ok rest trees ↔ ∃ rest₁ trees₁ trees₂,
        r = .ok rest₁ trees₁ ∧ k rest₁ = .ok rest trees₂ ∧ trees = trees₁ ++ trees₂ := by
  constructor
  · intro h
    match r, h with
    | some (some (rest₁, trees₁)), h =>
      rw [Result.andThen] at h
      split at h
      · cases h
      · cases h
      next trees₂ hk =>
        cases h
        exact ⟨rest₁, trees₁, trees₂, rfl, hk, rfl⟩
  · rintro ⟨rest₁, -, trees₂, rfl, hk, rfl⟩
    rw [Result.ok, Result.andThen, hk]
    rfl

lemma Result.of_orElse_eq_ok (h : r.orElse r' = .ok rest trees) :
    r = .ok rest trees ∨ r' = .ok rest trees := by
  match r, h with
  | some none, h => exact .inr h
  | some (some _), h => exact .inl h

lemma strip_eq_some {same : Char → Char → Bool} {s rest : List Char}
    (h : strip same s input = some rest) :
    ∃ used, input = used ++ rest ∧ List.Forall₂ (fun p c => same p c = true) s used := by
  induction s generalizing input with
  | nil => exact ⟨[], some.inj h, .nil⟩
  | cons p s ih =>
    match input, h with
    | c :: input, h =>
      rw [strip] at h
      split at h
      next hpc =>
        obtain ⟨used, rfl, hused⟩ := ih h
        exact ⟨c :: used, rfl, .cons hpc hused⟩
      · cases h

/-- A reader reads a part of its input from the left. -/
theorem run_suffix {inAtomic : Bool}
    (h : run G n inAtomic e input = .ok rest trees) : rest <:+ input := by
  have hnil : ∀ {input rest : List Char} {trees : List (Tree R)},
      Result.ok input [] = .ok rest trees → rest <:+ input := by
    rintro input rest trees ⟨⟩
    exact suffix_rfl
  induction n generalizing inAtomic e input rest trees with
  | zero => cases h
  | succ n ih =>
    have hskip : ∀ {input rest : List Char} {trees : List (Tree R)},
        (if inAtomic then .ok input [] else run G n true G.skip input) = Result.ok rest trees →
          rest <:+ input := by
      intro input rest trees h
      split at h
      · exact hnil h
      · exact ih h
    match e with
    | .text s | .textCI s =>
      rw [run, Result.ok, some.injEq, map_eq_some_iff] at h
      obtain ⟨rest', hstrip, heq⟩ := h
      cases heq
      obtain ⟨used, rfl, _⟩ := strip_eq_some hstrip
      exact suffix_append used _
    | .char p =>
      match input with
      | [] => cases h
      | c :: input =>
        rw [run] at h
        split at h
        · cases h
          exact suffix_cons c _
        · cases h
    | .eoi =>
      rw [run] at h
      split at h
      · cases h
        exact nil_suffix
      · cases h
    | .seq a b =>
      rw [run] at h
      obtain ⟨rest₁, _, _, h₁, h, _⟩ := Result.andThen_eq_ok.1 h
      obtain ⟨rest₂, _, _, h₂, h₃, _⟩ := Result.andThen_eq_ok.1 h
      exact ((ih h₃).trans (hskip h₂)).trans (ih h₁)
    | .alt a b =>
      rw [run] at h
      rcases Result.of_orElse_eq_ok h with h | h
      · exact ih h
      · exact ih h
    | .opt a =>
      rw [run] at h
      rcases Result.of_orElse_eq_ok h with h | h
      · exact ih h
      · exact hnil h
    | .star a =>
      rw [run] at h
      rcases Result.of_orElse_eq_ok h with h | h
      · obtain ⟨rest₁, _, _, h₁, h₂, _⟩ := Result.andThen_eq_ok.1 h
        exact (ih h₂).trans (ih h₁)
      · exact hnil h
    | .more a =>
      rw [run] at h
      rcases Result.of_orElse_eq_ok h with h | h
      · obtain ⟨rest₁, _, _, h₁, h, _⟩ := Result.andThen_eq_ok.1 h
        obtain ⟨rest₂, _, _, h₂, h₃, _⟩ := Result.andThen_eq_ok.1 h
        exact ((ih h₃).trans (ih h₂)).trans (hskip h₁)
      · exact hnil h
    | .not a =>
      rw [run] at h
      split at h
      · cases h
      · exact hnil h
      · cases h
    | .rule r =>
      rw [run] at h
      split at h
      · cases h
      · cases h
      next hbody =>
        split at h
        · cases h
          exact ih hbody
        · cases h
          exact ih hbody

end Success

/-! ## Nodes of a rule and the text between them -/

mutual

/-- The texts of the nodes of a rule, from left to right. -/
def Tree.texts [DecidableEq R] (r : R) : Tree R → List (List Char)
  | .node r' span children => if r' = r then [span] else textsOfList r children

/-- The texts of the nodes of a rule in a list of trees. -/
def Tree.textsOfList [DecidableEq R] (r : R) : List (Tree R) → List (List Char)
  | [] => []
  | t :: ts => t.texts r ++ textsOfList r ts

end

@[simp] lemma Tree.textsOfList_append [DecidableEq R] (r : R) (ts ts' : List (Tree R)) :
    textsOfList r (ts ++ ts') = textsOfList r ts ++ textsOfList r ts' := by
  induction ts with
  | nil => rfl
  | cons t ts ih => rw [cons_append, textsOfList, textsOfList, ih, append_assoc]

/-- A text made of the given pieces, in order, all of which meet `Q`, and of characters that are
not marks. -/
inductive Woven (marks : List Char) (Q : List Char → Prop) :
    List (List Char) → List Char → Prop where
  | nil : Woven marks Q [] []
  | char {c : Char} {pieces : List (List Char)} {s : List Char} :
      c ∉ marks → Woven marks Q pieces s → Woven marks Q pieces (c :: s)
  | piece {p : List Char} {pieces : List (List Char)} {s : List Char} :
      Q p → Woven marks Q pieces s → Woven marks Q (p :: pieces) (p ++ s)

namespace Woven

variable {marks : List Char} {Q : List Char → Prop} {pieces pieces' : List (List Char)}
  {s s' : List Char}

lemma append (h : Woven marks Q pieces s) (h' : Woven marks Q pieces' s') :
    Woven marks Q (pieces ++ pieces') (s ++ s') := by
  induction h with
  | nil => exact h'
  | char hc _ ih => exact .char hc ih
  | piece hp _ ih =>
    rw [append_assoc]
    exact .piece hp ih

lemma of_forall (h : ∀ c ∈ s, c ∉ marks) : Woven marks Q [] s := by
  induction s with
  | nil => exact .nil
  | cons c s ih =>
    exact .char (h c mem_cons_self) (ih fun d hd => h d (mem_cons_of_mem c hd))

lemma single {p : List Char} (hp : Q p) : Woven marks Q [p] p := by
  have h : Woven marks Q [p] (p ++ []) := .piece hp .nil
  rwa [append_nil] at h

lemma forall_mem (h : Woven marks Q pieces s) : ∀ p ∈ pieces, Q p := by
  induction h with
  | nil => exact nofun
  | char _ _ ih => exact ih
  | piece hp _ ih =>
    intro p' hp'
    rcases mem_cons.1 hp' with rfl | hp'
    · exact hp
    · exact ih p' hp'

end Woven

/-- No terminal of the expression that is read, rather than looked at, accepts a mark. -/
def Plain (marks : List Char) : Peg R → Bool
  | .text s => s.all fun p => marks.all fun m => !(p == m)
  | .textCI s => s.all fun p => marks.all fun m => !sameCI p m
  | .char p => marks.all fun m => !p m
  | .eoi => true
  | .seq a b | .alt a b => a.Plain marks && b.Plain marks
  | .opt a | .star a | .more a => a.Plain marks
  | .not _ => true
  | .rule _ => true

/-- The rules the expression calls to read, rather than to look. -/
def Calls (p : R → Bool) : Peg R → Bool
  | .text _ | .textCI _ | .char _ | .eoi | .not _ => true
  | .seq a b | .alt a b => a.Calls p && b.Calls p
  | .opt a | .star a | .more a => a.Calls p
  | .rule r => p r

/-- What a grammar needs for its marks to stay inside the rule `lit`, on inputs in `S`: that rule
reads texts in `Q`, no other rule reads a mark, unless it cannot succeed at all, and atomic rules
and the skipping call only rules of a set `inner` that does not contain `lit` and is closed under
calls. -/
structure Grammar.Confines (G : Grammar R) (lit : R) (marks : List Char) (Q S : List Char → Prop)
    (inner : R → Bool) : Prop where
  suffix : ∀ a b, S (a ++ b) → S b
  lit_atomic : G.kind lit = .atomic
  lit_reads : ∀ n used rest trees, run G n true (G.body lit) (used ++ rest) = .ok rest trees →
    Q used
  skip_plain : G.skip.Plain marks = true
  skip_calls : G.skip.Calls inner = true
  inner_ne : ∀ r, inner r = true → r ≠ lit
  rules : ∀ r, r ≠ lit →
    (∀ n b input rest trees, S input → run G n b (G.body r) input ≠ .ok rest trees) ∨
      (G.body r).Plain marks = true ∧
        (inner r = true ∨ G.kind r = .atomic → (G.body r).Calls inner = true)

section Confined

variable [DecidableEq R] {G : Grammar R} {lit : R} {marks : List Char}
  {Q S : List Char → Prop} {inner : R → Bool}

/-- What has been read is unmarked text interwoven with the nodes of `lit`. -/
def Reads (lit : R) (marks : List Char) (Q : List Char → Prop) (input rest : List Char)
    (trees : List (Tree R)) : Prop :=
  ∃ used, input = used ++ rest ∧ Woven marks Q (Tree.textsOfList lit trees) used

variable {input rest rest' : List Char} {trees trees' : List (Tree R)}

lemma Reads.append
    (h : Reads lit marks Q input rest trees) (h' : Reads lit marks Q rest rest' trees') :
    Reads lit marks Q input rest' (trees ++ trees') := by
  obtain ⟨used, rfl, hw⟩ := h
  obtain ⟨used', rfl, hw'⟩ := h'
  refine ⟨used ++ used', (append_assoc _ _ _).symm, ?_⟩
  rw [Tree.textsOfList_append]
  exact hw.append hw'

/-- A terminal text that shares no character with the marks. -/
lemma Reads.of_strip {same : Char → Char → Bool} {s : List Char}
    (hs : ∀ p ∈ s, ∀ m ∈ marks, same p m = false) (h : strip same s input = some rest) :
    Reads lit marks Q input rest ([] : List (Tree R)) := by
  obtain ⟨used, rfl, hused⟩ := strip_eq_some h
  refine ⟨used, rfl, Woven.of_forall ?_⟩
  clear h
  intro c hc hmark
  induction hused with
  | nil => cases hc
  | cons hpc _ ih =>
    rcases mem_cons.1 hc with rfl | hc
    · rw [hs _ mem_cons_self _ hmark] at hpc
      cases hpc
    · exact ih (fun p hp => hs p (mem_cons_of_mem _ hp)) hc

/-- What the induction over the fuel carries. -/
def ReadsIn (lit : R) (marks : List Char) (Q : List Char → Prop) (inAtomic : Bool)
    (input rest : List Char) (trees : List (Tree R)) : Prop :=
  Reads lit marks Q input rest trees ∧ (inAtomic = true → trees = [])

variable {inAtomic : Bool}

lemma ReadsIn.append (h : ReadsIn lit marks Q inAtomic input rest trees)
    (h' : ReadsIn lit marks Q inAtomic rest rest' trees') :
    ReadsIn lit marks Q inAtomic input rest' (trees ++ trees') := by
  refine ⟨h.1.append h'.1, fun ha => ?_⟩
  rw [h.2 ha, h'.2 ha, append_nil]

lemma ReadsIn.nil (inAtomic : Bool) (input : List Char) :
    ReadsIn lit marks Q inAtomic input input ([] : List (Tree R)) :=
  ⟨⟨[], rfl, .nil⟩, fun _ => rfl⟩

/-- The reader is right for all expressions that fit, with the given fuel. -/
def SoundAt (G : Grammar R) (lit : R) (marks : List Char) (Q S : List Char → Prop)
    (inner : R → Bool) (n : ℕ) : Prop :=
  ∀ {inAtomic : Bool} {e : Peg R} {input rest : List Char} {trees : List (Tree R)}, S input →
    e.Plain marks = true → (inAtomic = true → e.Calls inner = true) →
    run G n inAtomic e input = .ok rest trees → ReadsIn lit marks Q inAtomic input rest trees

section Step

variable {n : ℕ} {inAtomic : Bool} {input rest : List Char} {trees : List (Tree R)}

lemma Reads.mem (hG : G.Confines lit marks Q S inner) (hS : S input)
    (h : Reads lit marks Q input rest trees) : S rest := by
  obtain ⟨used, rfl, _⟩ := h
  exact hG.suffix used rest hS

lemma SoundAt.skip (hG : G.Confines lit marks Q S inner) (ih : SoundAt G lit marks Q S inner n)
    (hS : S input)
    (h : (if inAtomic then .ok input [] else run G n true G.skip input) = Result.ok rest trees) :
    ReadsIn lit marks Q inAtomic input rest trees := by
  split at h
  · cases h
    exact .nil inAtomic input
  · obtain ⟨hreads, htrees⟩ := ih hS hG.skip_plain (fun _ => hG.skip_calls) h
    exact ⟨hreads, fun _ => htrees rfl⟩

lemma SoundAt.rule (hG : G.Confines lit marks Q S inner) (ih : SoundAt G lit marks Q S inner n)
    (hS : S input) {r : R} (hcalls : inAtomic = true → inner r = true)
    (h : run G (n + 1) inAtomic (.rule r) input = .ok rest trees) :
    ReadsIn lit marks Q inAtomic input rest trees := by
  rw [run] at h
  split at h
  · cases h
  · cases h
  next rest' trees' hbody =>
    have hread : ∃ used, input = used ++ rest' ∧
        input.take (input.length - rest'.length) = used := by
      obtain ⟨used, rfl⟩ := run_suffix hbody
      refine ⟨used, rfl, ?_⟩
      rw [length_append, Nat.add_sub_cancel, take_left]
    obtain ⟨used, hused, htake⟩ := hread
    rw [htake] at h
    by_cases hr : r = lit
    · -- the rule itself: a node with all that was read, and never inside an atomic rule
      subst hr
      have hatomic : inAtomic = false := by
        by_contra ha
        exact hG.inner_ne r (hcalls (by simpa using ha)) rfl
      subst hatomic
      rw [hG.lit_atomic] at h
      cases h
      refine ⟨⟨used, hused, ?_⟩, nofun⟩
      have htexts : Tree.textsOfList r [Tree.node r used trees'] = [used] := by
        rw [Tree.textsOfList, Tree.texts, if_pos rfl]
        rfl
      rw [htexts]
      refine .single (hG.lit_reads n used rest trees' ?_)
      rw [← hused]
      rw [hG.lit_atomic] at hbody
      exact hbody
    · rcases hG.rules r hr with hdead | ⟨hplain, hin⟩
      · exact absurd hbody (hdead _ _ _ _ _ hS)
      · have hsound := ih hS hplain (fun hb => hin ?_) hbody
        · split at h
          · cases h
            refine ⟨hsound.1, fun ha => hsound.2 (by rw [ha]; rfl)⟩
          next hnode =>
            cases h
            rw [Bool.or_eq_true, not_or] at hnode
            refine ⟨?_, fun ha => absurd ha hnode.1⟩
            obtain ⟨used', hused', hw⟩ := hsound.1
            refine ⟨used', hused', ?_⟩
            rw [Tree.textsOfList, Tree.texts, if_neg hr, Tree.textsOfList, append_nil]
            exact hw
        · rcases Bool.or_eq_true_iff.1 hb with ha | hk
          · exact .inl (hcalls ha)
          · exact .inr (by simpa using hk)

end Step

/-- **Marks stay in their rule.**  What a reader of a confining grammar has read is unmarked text
interwoven with the texts of the nodes of `lit`; inside an atomic rule there are no nodes. -/
theorem run_woven (hG : G.Confines lit marks Q S inner) {n : ℕ} {e : Peg R}
    {input rest : List Char} {trees : List (Tree R)} (hS : S input)
    (hplain : e.Plain marks = true) (hcalls : inAtomic = true → e.Calls inner = true)
    (h : run G n inAtomic e input = .ok rest trees) :
    ReadsIn lit marks Q inAtomic input rest trees := by
  have hsound : SoundAt G lit marks Q S inner n := by
    clear hS hplain hcalls h
    induction n with
    | zero =>
      intro _ _ _ _ _ _ _ _ h
      cases h
    | succ n ih =>
      intro inAtomic e input rest trees hS hplain hcalls h
      match e with
      | .text s | .textCI s =>
        rw [run, Result.ok, some.injEq, map_eq_some_iff] at h
        obtain ⟨rest', hstrip, heq⟩ := h
        cases heq
        refine ⟨Reads.of_strip ?_ hstrip, fun _ => rfl⟩
        intro p hp m hm
        simpa using all_eq_true.1 (all_eq_true.1 hplain p hp) m hm
      | .char p =>
        match input with
        | [] => cases h
        | c :: input =>
          rw [run] at h
          split at h
          next hpc =>
            cases h
            refine ⟨⟨[c], rfl, .char ?_ .nil⟩, fun _ => rfl⟩
            intro hmark
            have hnot := all_eq_true.1 hplain c hmark
            rw [hpc] at hnot
            cases hnot
          · cases h
      | .eoi =>
        rw [run] at h
        split at h
        next hinput =>
          cases h
          rw [hinput]
          exact .nil inAtomic []
        · cases h
      | .seq a b =>
        rw [run] at h
        rw [Plain, Bool.and_eq_true] at hplain
        simp only [Calls, Bool.and_eq_true] at hcalls
        obtain ⟨rest₁, _, _, h₁, h₀, rfl⟩ := Result.andThen_eq_ok.1 h
        obtain ⟨rest₂, _, _, h₂, h₃, rfl⟩ := Result.andThen_eq_ok.1 h₀
        have hr₁ := ih hS hplain.1 (fun ha => (hcalls ha).1) h₁
        have hS₁ := hr₁.1.mem hG hS
        have hr₂ := ih.skip hG hS₁ h₂
        have hr₃ := ih (hr₂.1.mem hG hS₁) hplain.2 (fun ha => (hcalls ha).2) h₃
        exact hr₁.append (hr₂.append hr₃)
      | .alt a b =>
        rw [run] at h
        rw [Plain, Bool.and_eq_true] at hplain
        simp only [Calls, Bool.and_eq_true] at hcalls
        rcases Result.of_orElse_eq_ok h with h | h
        · exact ih hS hplain.1 (fun ha => (hcalls ha).1) h
        · exact ih hS hplain.2 (fun ha => (hcalls ha).2) h
      | .opt a =>
        rw [run] at h
        rcases Result.of_orElse_eq_ok h with h | h
        · exact ih (e := a) hS hplain hcalls h
        · cases h
          exact .nil inAtomic _
      | .star a =>
        rw [run] at h
        rcases Result.of_orElse_eq_ok h with h | h
        · obtain ⟨rest₁, _, _, h₁, h₂, rfl⟩ := Result.andThen_eq_ok.1 h
          have hr₁ := ih (e := a) hS hplain hcalls h₁
          exact hr₁.append (ih (e := .more a) (hr₁.1.mem hG hS) hplain hcalls h₂)
        · cases h
          exact .nil inAtomic _
      | .more a =>
        rw [run] at h
        rcases Result.of_orElse_eq_ok h with h | h
        · obtain ⟨rest₁, _, _, h₁, h₀, rfl⟩ := Result.andThen_eq_ok.1 h
          obtain ⟨rest₂, _, _, h₂, h₃, rfl⟩ := Result.andThen_eq_ok.1 h₀
          have hr₁ := ih.skip hG hS h₁
          have hS₁ := hr₁.1.mem hG hS
          have hr₂ := ih (e := a) hS₁ hplain hcalls h₂
          have hr₃ := ih (e := .more a) (hr₂.1.mem hG hS₁) hplain hcalls h₃
          exact hr₁.append (hr₂.append hr₃)
        · cases h
          exact .nil inAtomic _
      | .not a =>
        rw [run] at h
        split at h
        · cases h
        · cases h
          exact .nil inAtomic _
        · cases h
      | .rule r => exact ih.rule hG hS hcalls h
  exact hsound hS hplain hcalls h

end Confined

end Peg

end Framework
