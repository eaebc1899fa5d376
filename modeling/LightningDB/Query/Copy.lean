import LightningDB.Framework.FileSystem
import LightningDB.Query.Store

/-!
# The path of COPY

`validate_copy_path` resolves the directory of the path of a COPY statement and compares the result, with
the last component put back as it is written, with the resolved base directory.  The file is then opened
by that path, and opening follows a link in the last component.

The directory has been resolved, so that nothing before the last component can lead elsewhere: what COPY
reads or creates is inside of the base directory exactly if the last component is not a link, or the link
leads there (`copy_confined_iff`).
-/

namespace LightningDB

open Framework FileSystem

/-! ## Paths -/

/-- The parts of a text between slashes. -/
def segments : List Char → List (List Char)
  | [] => [[]]
  | c :: cs =>
    if c = '/' then [] :: segments cs
    else
      match segments cs with
      | [] => [[c]]
      | s :: ss => (c :: s) :: ss

/-- The component that a part stands for. -/
def component (segment : List Char) : Option Component :=
  if segment = [] ∨ segment = ['.'] then none
  else if segment = ['.', '.'] then some .parentDir
  else some (.normal (String.ofList segment))

/-- `Path::components`: a dot counts only at the beginning of a relative path. -/
def pathOf (text : String) : PathRef :=
  let segs := segments text.toList
  let absolute : Bool := text.toList.head? = some '/'
  ⟨absolute, (if !absolute && segs.head? = some ['.'] then [.curDir] else []) ++
    segs.filterMap component⟩

/-- `Path::join`. -/
def joinPath (base path : String) : String :=
  if (pathOf path).absolute then path
  else if base.toList = [] ∨ base.toList.getLast? = some '/' then base ++ path
  else base ++ "/" ++ path

/-- `Path::parent`. -/
def parent (p : PathRef) : Option PathRef :=
  if p.components = [] then none else some { p with components := p.components.dropLast }

/-- `Path::file_name`. -/
def fileName (p : PathRef) : Option String :=
  match p.components.getLast? with
  | some (.normal name) => some name
  | _ => none

/-- The text of a path of names. -/
def printNames (p : List String) : String := "/" ++ String.intercalate "/" p

/-- `Display for std::io::Error`. -/
def printIoError : IoError → String
  | .notFound => "No such file or directory (os error 2)"
  | .notADirectory => "Not a directory (os error 20)"
  | .isADirectory => "Is a directory (os error 21)"
  | .tooManyLinks => "Too many levels of symbolic links (os error 40)"

/-! ## COPY -/

variable (fs : FileSystem) (limit : ℕ)

/-- `validate_copy_path`, where at most `limit` links are followed. -/
def validateCopyPath (databasePath filePath : String)
    (baseDir : Option String) : Except LightningError (List String) :=
  let path := pathOf filePath
  if path.absolute && baseDir.isNone then
    .error (.config
      "Absolute paths in COPY are disabled. Set copy_base_dir in SystemConfig to enable.")
  else if .parentDir ∈ path.components then
    .error (.config ("COPY path '" ++ filePath ++ "' contains '..' traversal"))
  else
    let base := baseDir.getD databasePath
    let resolved := pathOf (joinPath base filePath)
    match fs.canonicalize limit (pathOf base) with
    | .error e =>
      .error (.config ("Cannot resolve base directory '" ++ base ++ "': " ++ printIoError e))
    | .ok canonicalBase =>
      match parent resolved with
      | none =>
        .error (.config ("Cannot determine parent directory for COPY path '" ++ filePath ++ "'"))
      | some dir =>
        match fileName resolved with
        | none => .error (.config ("Cannot determine filename for COPY path '" ++ filePath ++ "'"))
        | some name =>
          match fs.canonicalize limit dir with
          | .error e =>
            .error (.config ("Cannot resolve COPY path directory '" ++ filePath ++ "': " ++
              printIoError e))
          | .ok canonicalParent =>
            if canonicalBase.isPrefixOf (canonicalParent ++ [name]) then
              .ok (canonicalParent ++ [name])
            else
              .error (.config ("COPY path '" ++ filePath ++ "' escapes base directory '" ++
                printNames canonicalBase ++ "'"))

/-- Why COPY does not get its file. -/
inductive CopyError where
  | rejected (e : LightningError)
  | io (e : IoError)

/-- The file that `execute_copy_from` reads. -/
def copyFromFile (databasePath filePath : String)
    (baseDir : Option String) : Except CopyError (List String) :=
  match validateCopyPath fs limit databasePath filePath baseDir with
  | .error e => .error (.rejected e)
  | .ok path => (fs.openFile limit (ofNames path)).mapError .io

/-- The file that `execute_copy_to` writes; a table without rows has none. -/
def copyToFile (databasePath filePath : String)
    (baseDir : Option String) (numRows : ℕ) : Except CopyError (Option (List String)) :=
  if numRows = 0 then .ok none
  else
    match validateCopyPath fs limit databasePath filePath baseDir with
    | .error e => .error (.rejected e)
    | .ok path => ((fs.createFile limit (ofNames path)).mapError .io).map some

/-! ## Confinement -/

/-- COPY, with a path that is accepted, touches a file. -/
def CopyTouches (databasePath filePath : String)
    (baseDir : Option String) (q : List String) : Prop :=
  copyFromFile fs limit databasePath filePath baseDir = .ok q ∨
    ∃ numRows, copyToFile fs limit databasePath filePath baseDir numRows = .ok (some q)

/-- A resolution leads to a file, or to where one can be created. -/
def LeadsTo (q : List String) : Resolved → Prop
  | .found p => p = q
  | .missing d name [] => d ++ [name] = q
  | _ => False

section Confinement

variable {fs : FileSystem} {limit : ℕ} {databasePath filePath : String} {baseDir : Option String}
  {canonical base q : List String}

/-- What has been accepted: a name in a directory that has been resolved, inside of the base. -/
lemma of_validateCopyPath
    (h : validateCopyPath fs limit databasePath filePath baseDir = .ok canonical)
    (hbase : fs.canonicalize limit (pathOf (baseDir.getD databasePath)) = .ok base) :
    ∃ dir name, canonical = dir ++ [name] ∧ fs.Real dir ∧ base <+: canonical := by
  unfold validateCopyPath at h
  simp only [hbase] at h
  split at h
  · cases h
  split at h
  · cases h
  split at h
  · cases h
  split at h
  · cases h
  split at h
  · cases h
  rename_i dir hdir
  split at h
  next hprefix =>
    cases h
    exact ⟨dir, _, rfl, real_of_canonicalize hdir, List.isPrefixOf_iff_prefix.1 hprefix⟩
  · cases h

lemma mapError_eq_ok {ε ε' α : Type} {f : ε → ε'} {x : Except ε α} {a : α} :
    x.mapError f = .ok a ↔ x = .ok a := by
  cases x <;> simp [Except.mapError]

lemma copyTouches_iff (h : validateCopyPath fs limit databasePath filePath baseDir = .ok canonical) :
    CopyTouches fs limit databasePath filePath baseDir q ↔
      LeadsTo q (fs.resolvePath limit (ofNames canonical)) := by
  have hfrom : copyFromFile fs limit databasePath filePath baseDir = .ok q ↔
      fs.openFile limit (ofNames canonical) = .ok q := by
    simp only [copyFromFile, h, mapError_eq_ok]
  have hto : (∃ numRows, copyToFile fs limit databasePath filePath baseDir numRows = .ok (some q)) ↔
      fs.createFile limit (ofNames canonical) = .ok q := by
    constructor
    · rintro ⟨numRows, hrows⟩
      simp only [copyToFile, h] at hrows
      split at hrows
      · cases hrows
      · cases hcreate : fs.createFile limit (ofNames canonical) with
        | error e =>
          rw [hcreate] at hrows
          cases hrows
        | ok p =>
          rw [hcreate] at hrows
          cases hrows
          rfl
    · intro hcreate
      refine ⟨1, ?_⟩
      simp only [copyToFile, h, hcreate]
      rfl
  rw [CopyTouches, hfrom, hto, openFile, canonicalize, createFile]
  cases fs.resolvePath limit (ofNames canonical) with
  | found p =>
    by_cases hdir : fs.node p = some .directory
    · simp [LeadsTo, hdir]
    · simp [LeadsTo, hdir]
  | missing d name rest =>
    cases rest with
    | nil | cons => simp [LeadsTo]
  | failed e => simp [LeadsTo]

/-- **COPY is confined up to its last component.**  For a path that is accepted, everything that COPY
reads or creates is inside of the base directory exactly if the last component is not a symbolic link, or
what the link leads to is inside. -/
theorem copy_confined_iff
    (h : validateCopyPath fs limit databasePath filePath baseDir = .ok canonical)
    (hbase : fs.canonicalize limit (pathOf (baseDir.getD databasePath)) = .ok base) :
    (∀ q, CopyTouches fs limit databasePath filePath baseDir q → base <+: q) ↔
      ∀ target, fs.node canonical = some (.link target) →
        ∀ q, LeadsTo q (fs.follow limit canonical.dropLast target) → base <+: q := by
  obtain ⟨dir, name, rfl, hreal, hprefix⟩ := of_validateCopyPath h hbase
  simp only [copyTouches_iff h, resolvePath_names hreal]
  by_cases hdir : fs.node dir = some .directory
  · simp only [if_pos hdir]
    cases hnode : fs.node (dir ++ [name]) with
    | none => simpa [LeadsTo] using hprefix
    | some n =>
      cases n with
      | link target => simp
      | directory | file => simpa [LeadsTo] using hprefix
  · -- there is nothing in what is not a directory
    have hnone : ∀ target, fs.node (dir ++ [name]) ≠ some (.link target) :=
      fun target hnode => hdir (parent_of_node hnode)
    simp [if_neg hdir, LeadsTo, hnone]

end Confinement

/-! ## Links in the database directory -/

def nodesOf (l : List (List String × Node)) : FinMap (List String) Node :=
  l.foldl (fun m e => m.insert e.1 e.2) ∅

/-- A database directory with a file, a link to a file elsewhere, and a link to no file elsewhere. -/
def linkedDirectory : FileSystem where
  nodes := nodesOf
    [([], .directory), (["db"], .directory), (["etc"], .directory), (["etc", "passwd"], .file),
      (["db", "in.csv"], .file), (["db", "link.csv"], .link (pathOf "/etc/passwd")),
      (["db", "new.csv"], .link (pathOf "../etc/new"))]
  cwd := []
  root := by decide
  parents := by decide
  cwd_directory := by decide

/-- A plain file in the database directory. -/
theorem copy_confined_plain :
    validateCopyPath linkedDirectory 40 "/db" "in.csv" none = .ok ["db", "in.csv"] ∧
      ∀ q, CopyTouches linkedDirectory 40 "/db" "in.csv" none q → ["db"] <+: q :=
  ⟨rfl, (@copy_confined_iff linkedDirectory 40 "/db" "in.csv" none ["db", "in.csv"] ["db"] rfl
    rfl).2 nofun⟩

/-- COPY FROM through the one link reads a file outside of the database directory, COPY TO truncates it,
and through the other one COPY TO creates a file there. -/
theorem copy_not_confined :
    copyFromFile linkedDirectory 40 "/db" "link.csv" none = .ok ["etc", "passwd"] ∧
      copyToFile linkedDirectory 40 "/db" "link.csv" none 1 = .ok (some ["etc", "passwd"]) ∧
      copyToFile linkedDirectory 40 "/db" "new.csv" none 1 = .ok (some ["etc", "new"]) ∧
      linkedDirectory.canonicalize 40 (pathOf "/db") = .ok ["db"] ∧
      ¬ ["db"] <+: ["etc", "passwd"] ∧ ¬ ["db"] <+: ["etc", "new"] :=
  ⟨rfl, rfl, rfl, rfl, by decide, by decide⟩

end LightningDB
