import LightningDB.Framework.FinMap
import Mathlib.Data.List.Infix

/-!
# Paths and symbolic links

A file system gives a node to every path of names from its root that exists: a directory, a file or a
symbolic link, and what is above a node is a directory.  A path as it is written has components that
may also be `.` and `..`, and it may lead through links.

`FileSystem.advance` goes along the components of a path until it is at their end, does not find a
name, or is at a link; `FileSystem.resolve` follows the links, up to a limit.  Where it ends is not a
link (`node_of_resolve`), so that the path of names to it leads to itself (`advance_names`).
-/

namespace Framework

open List

inductive Component where
  | curDir
  | parentDir
  | normal (name : String)
deriving DecidableEq

structure PathRef where
  absolute : Bool
  components : List Component
deriving DecidableEq

/-- What is at a path of names. -/
inductive Node where
  | directory
  | file
  | link (target : PathRef)
deriving DecidableEq

inductive IoError where
  | notFound
  | notADirectory
  | isADirectory
  | tooManyLinks
deriving DecidableEq

/-- The nodes, and the directory that relative paths start from. -/
structure FileSystem where
  nodes : FinMap (List String) Node
  cwd : List String
  root : nodes.lookup [] = some .directory
  parents : ∀ e ∈ nodes.entries, e.1 = [] ∨ nodes.lookup e.1.dropLast = some .directory
  cwd_directory : nodes.lookup cwd = some .directory

/-- Where a path leads without following a link. -/
inductive Walk where
  | found (path : List String)
  | missing (directory : List String) (name : String) (rest : List Component)
  | link (directory : List String) (target : PathRef) (rest : List Component)
  | notADirectory

/-- Where a path leads. -/
inductive Resolved where
  | found (path : List String)
  | missing (directory : List String) (name : String) (rest : List Component)
  | failed (e : IoError)

namespace FileSystem

variable (fs : FileSystem) (p : List String)

/-- What is at a path of names. -/
def node : Option Node := fs.nodes.lookup p

/-- Go along a path from a directory. -/
def advance : List String → List Component → Walk
  | p, [] => .found p
  | p, c :: rest =>
    if fs.node p = some .directory then
      match c with
      | .curDir => advance p rest
      | .parentDir => advance p.dropLast rest
      | .normal name =>
        match fs.node (p ++ [name]) with
        | none => .missing p name rest
        | some (.link target) => .link p target rest
        | some _ => advance (p ++ [name]) rest
    else .notADirectory

def start (target : PathRef) : List String := if target.absolute then [] else p

/-- Go along a path from a directory, following at most `limit` links. -/
def resolve : ℕ → List String → List Component → Resolved
  | limit, p, cs =>
    match fs.advance p cs with
    | .found q => .found q
    | .missing d name rest => .missing d name rest
    | .notADirectory => .failed .notADirectory
    | .link d target rest =>
      match limit with
      | 0 => .failed .tooManyLinks
      | limit + 1 => resolve limit (start d target) (target.components ++ rest)

variable (limit : ℕ)

/-- Where a path as it is written leads. -/
def resolvePath (p : PathRef) : Resolved :=
  if !p.absolute && p.components.isEmpty then .failed .notFound
  else fs.resolve limit (start fs.cwd p) p.components

/-- The path of names to where a path leads. -/
def canonicalize (p : PathRef) : Except IoError (List String) :=
  match fs.resolvePath limit p with
  | .found q => .ok q
  | .missing _ _ _ => .error .notFound
  | .failed e => .error e

def openFile (p : PathRef) : Except IoError (List String) := fs.canonicalize limit p

/-- What opening a path for writing opens or creates. -/
def createFile (p : PathRef) : Except IoError (List String) :=
  match fs.resolvePath limit p with
  | .found q => if fs.node q = some .directory then .error .isADirectory else .ok q
  | .missing d name [] => .ok (d ++ [name])
  | .missing _ _ (_ :: _) => .error .notFound
  | .failed e => .error e

def ofNames : PathRef := ⟨true, p.map .normal⟩

variable {fs} {p q : List String} {n : Node}

/-! ## Paths of names -/

variable {name : String} {l : List String} {limit : ℕ}

lemma parent_of_node (h : fs.node (p ++ [name]) = some n) : fs.node p = some .directory := by
  have hmem := AList.mem_lookup_iff.1 h
  rcases fs.parents _ hmem with hnil | hparent
  · exact absurd hnil (by simp)
  · rwa [dropLast_concat] at hparent

lemma directory_of_below (h : fs.node (p ++ l) = some n) (hl : l ≠ []) :
    fs.node p = some .directory := by
  induction l using reverseRecOn generalizing n with
  | nil => exact absurd rfl hl
  | append_singleton l name ih =>
    rw [← append_assoc] at h
    have hparent := parent_of_node h
    by_cases hnil : l = []
    · rwa [hnil, append_nil] at hparent
    · exact ih hparent hnil

/-- A path of names to a node that is not a link leads to it. -/
lemma advance_names (rest : List Component) (h : fs.node (p ++ l) = some n)
    (hlink : ∀ target, n ≠ .link target) :
    fs.advance p (l.map .normal ++ rest) = fs.advance (p ++ l) rest := by
  induction l generalizing p with
  | nil => simp
  | cons name l ih =>
    have hsplit : p ++ name :: l = (p ++ [name]) ++ l := by simp
    rw [hsplit] at h
    have hdir : fs.node p = some .directory := by
      rw [← hsplit] at h
      exact directory_of_below h (cons_ne_nil _ _)
    rw [map_cons, cons_append, advance, if_pos hdir, hsplit, ← ih h]
    -- the next node is the last one, or a directory
    by_cases hl : l = []
    · subst hl
      rw [append_nil] at h
      rw [h]
      cases n with
      | link target => exact absurd rfl (hlink target)
      | _ => rfl
    · rw [directory_of_below h hl]

/-! ## Where a resolution ends -/

/-- There is something at a path, and it is not a link. -/
def Real (fs : FileSystem) (p : List String) : Prop :=
  ∃ n, fs.node p = some n ∧ ∀ target, n ≠ .link target

lemma real_of_directory (h : fs.node p = some .directory) : fs.Real p := ⟨.directory, h, nofun⟩

lemma directory_dropLast (h : fs.node p = some .directory) :
    fs.node p.dropLast = some .directory := by
  induction p using reverseRecOn with
  | nil => exact h
  | append_singleton l name _ =>
    rw [dropLast_concat]
    exact parent_of_node h

/-- What a walk that starts at a node that is not a link ends with. -/
def WalkEnds (fs : FileSystem) : Walk → Prop
  | .found q => fs.Real q
  | .missing d name _ => fs.node d = some .directory ∧ fs.node (d ++ [name]) = none
  | .link d _ _ => fs.node d = some .directory
  | .notADirectory => True

lemma advance_ends (cs : List Component) (h : fs.Real p) : fs.WalkEnds (fs.advance p cs) := by
  induction cs generalizing p with
  | nil => exact h
  | cons c cs ih =>
    by_cases hdir : fs.node p = some .directory
    · cases c with
      | curDir =>
        rw [advance, if_pos hdir]
        exact ih h
      | parentDir =>
        rw [advance, if_pos hdir]
        exact ih (real_of_directory (directory_dropLast hdir))
      | normal name =>
        rw [advance, if_pos hdir]
        cases hnode : fs.node (p ++ [name]) with
        | none => exact ⟨hdir, hnode⟩
        | some n =>
          cases n with
          | link target => exact hdir
          | directory => exact ih ⟨.directory, hnode, nofun⟩
          | file => exact ih ⟨.file, hnode, nofun⟩
    · cases c <;> rw [advance, if_neg hdir] <;> trivial

/-- What a resolution that starts at a node that is not a link ends with. -/
def ResolvedEnds (fs : FileSystem) : Resolved → Prop
  | .found q => fs.Real q
  | .missing d name _ => fs.node d = some .directory ∧ fs.node (d ++ [name]) = none
  | .failed _ => True

lemma real_start (target : PathRef) (h : fs.node p = some .directory) :
    fs.Real (start p target) := by
  rw [start]
  split
  · exact real_of_directory fs.root
  · exact real_of_directory h

lemma resolve_ends (limit : ℕ) (cs : List Component) (h : fs.Real p) :
    fs.ResolvedEnds (fs.resolve limit p cs) := by
  induction limit generalizing p cs with
  | zero =>
    have hends := advance_ends cs h
    rw [resolve]
    generalize fs.advance p cs = walk at hends ⊢
    cases walk with
    | found | missing => exact hends
    | link | notADirectory => trivial
  | succ limit ih =>
    have hends := advance_ends cs h
    rw [resolve]
    generalize fs.advance p cs = walk at hends ⊢
    cases walk with
    | found | missing => exact hends
    | link d target rest => exact ih _ (real_start target hends)
    | notADirectory => trivial

/-- A path that has been resolved is the path of names to a node that is not a link. -/
lemma real_of_canonicalize {r : PathRef} (h : fs.canonicalize limit r = .ok p) : fs.Real p := by
  rw [canonicalize, resolvePath] at h
  split at h
  next hq =>
    cases h
    split at hq
    · cases hq
    · have hends := resolve_ends limit r.components
        (real_start r fs.cwd_directory)
      rwa [hq] at hends
  · cases h
  · cases h

/-! ## A name in a directory that has been resolved -/

/-- What a link leads to, or would if it were there. -/
def follow (fs : FileSystem) (limit : ℕ) (d : List String) (target : PathRef) : Resolved :=
  match limit with
  | 0 => .failed .tooManyLinks
  | limit + 1 => fs.resolve limit (start d target) target.components

/-- Where a name in a directory without links on the way leads. -/
lemma resolvePath_names (h : fs.Real p) : fs.resolvePath limit (ofNames (p ++ [name])) =
      if fs.node p = some .directory then
        match fs.node (p ++ [name]) with
        | none => .missing p name []
        | some (.link target) => fs.follow limit p target
        | some _ => .found (p ++ [name])
      else .failed .notADirectory := by
  obtain ⟨n, hnode, hlink⟩ := h
  have hwalk : fs.advance [] ((p ++ [name]).map .normal) = fs.advance p [.normal name] := by
    rw [map_append]
    exact advance_names (p := []) [.normal name] hnode hlink
  rw [resolvePath]
  simp only [ofNames, Bool.not_true, Bool.false_and, Bool.false_eq_true, if_false, start, if_true]
  rw [resolve, hwalk, advance]
  by_cases hdir : fs.node p = some .directory
  · rw [if_pos hdir, if_pos hdir]
    cases hname : fs.node (p ++ [name]) with
    | none => rfl
    | some n' =>
      cases n' with
      | link target =>
        cases limit with
        | zero => rfl
        | succ limit => simp only [follow, append_nil]
      | directory | file => rfl
  · rw [if_neg hdir, if_neg hdir]

end FileSystem

end Framework
